import ExplicitControl.Proofs.Machine.Grammar
import Mathlib.Data.List.Induction

namespace ExplicitControl

namespace Controller

/-- The names of the labels, in order. -/
def labelNames (controller : Controller) : List String :=
  controller.filterMap fun
    | .label name => some name
    | .instruction _ => none

/-- A label stands for the number of instructions before it. -/
def LabelAt (controller : Controller) (name : String) (position : Nat) : Prop :=
  ∃ before after, controller = before ++ .label name :: after ∧ position = (instructions before).length

/-- The first label that is there already. -/
def FirstRepeat (controller : Controller) (name : String) : Prop :=
  ∃ before after, controller = before ++ .label name :: after ∧ (labelNames before).Nodup ∧ name ∈ labelNames before

/-- What the names in a controller stand for. A register goes by its first
place among the registers. -/
def names (controller : Controller) (registers : List String) (operations : OperationTable) : Names where
  register name index := registers[index]? = some name ∧ ∀ earlier < index, registers[earlier]? ≠ some name
  label := controller.LabelAt
  operation name operation := operations.find? name = some operation

/-- The labels with their positions, when so many instructions come before
all of them. -/
def labelTable (position : Nat) : Controller → Labels
  | [] => []
  | .instruction _ :: rest => labelTable (position + 1) rest
  | .label name :: rest => (name, position) :: labelTable position rest

variable {controller : Controller} {position : Nat} {table : Labels} {name : String}

theorem labelTable_names : (labelTable position controller).map Prod.fst = controller.labelNames := by
  induction controller generalizing position with
  | nil => rfl
  | cons entry rest ih =>
    cases entry with
    | label name => exact congrArg (name :: ·) ih
    | instruction text => exact ih

theorem mem_labelTable_iff {found : Nat} : (name, found) ∈ labelTable position controller ↔
    ∃ before after, controller = before ++ .label name :: after ∧ found = position + (instructions before).length := by
  induction controller generalizing position with
  | nil => simp [labelTable]
  | cons entry rest ih =>
    cases entry with
    | label other =>
      rw [labelTable, List.mem_cons, ih]
      constructor
      · rintro (same | ⟨before, after, rfl, rfl⟩)
        · cases same
          exact ⟨[], rest, rfl, rfl⟩
        · exact ⟨.label other :: before, after, rfl, rfl⟩
      · rintro ⟨_ | ⟨first, before⟩, after, same, rfl⟩
        · cases same
          exact .inl rfl
        · cases same
          exact .inr ⟨before, after, rfl, rfl⟩
    | instruction text =>
      rw [labelTable, ih]
      constructor
      · rintro ⟨before, after, rfl, rfl⟩
        refine ⟨.instruction text :: before, after, rfl, ?_⟩
        simp only [instructions, List.filterMap_cons, List.length_cons]
        omega
      · rintro ⟨_ | ⟨first, before⟩, after, same, rfl⟩
        · cases same
        · cases same
          refine ⟨before, after, rfl, ?_⟩
          simp only [instructions, List.filterMap_cons, List.length_cons]
          omega

theorem lookup_isSome_iff {name : String} : (table.lookup name).isSome = true ↔ name ∈ table.map Prod.fst := by
  rw [List.lookup_isSome_iff, List.mem_map]
  simp only [beq_iff_eq, eq_comm (a := name)]

theorem labelsFrom_eq_ok (distinct : (table.map Prod.fst ++ controller.labelNames).Nodup) :
    labelsFrom position table controller = .ok (table ++ labelTable position controller) := by
  induction controller generalizing position table with
  | nil => simp [labelsFrom, labelTable]
  | cons entry rest ih =>
    cases entry with
    | instruction text => exact ih distinct
    | label name =>
      have fresh : ¬ (table.lookup name).isSome = true := by
        rw [lookup_isSome_iff]
        exact fun member => (List.nodup_append.mp distinct).2.2 name member name (.head _) rfl
      have distinct' : ((table ++ [(name, position)]).map Prod.fst ++ labelNames rest).Nodup := by
        simpa [labelNames] using distinct
      rw [labelsFrom, if_neg fresh, ih distinct', labelTable, List.append_assoc]
      rfl

/-- The first label that is there already ends the reading of the labels,
however many instructions are still to come and whatever is wrong with them. -/
theorem labelsFrom_eq_error {before after : Controller} (split : controller = before ++ .label name :: after)
    (distinct : (table.map Prod.fst ++ labelNames before).Nodup)
    (repeated : name ∈ table.map Prod.fst ++ labelNames before) :
    labelsFrom position table controller = .error (.duplicateLabel name) := by
  subst split
  induction before generalizing position table with
  | nil =>
    have there : (table.lookup name).isSome = true := by
      rw [lookup_isSome_iff]
      simpa [labelNames] using repeated
    rw [List.nil_append, labelsFrom, if_pos there]
  | cons entry before ih =>
    cases entry with
    | instruction text => exact ih distinct repeated
    | label other =>
      have fresh : ¬ (table.lookup other).isSome = true := by
        rw [lookup_isSome_iff]
        exact fun member => (List.nodup_append.mp distinct).2.2 other member other (.head _) rfl
      rw [List.cons_append, labelsFrom, if_neg fresh]
      refine ih ?_ ?_
      · simpa [labelNames] using distinct
      · simpa [labelNames, or_assoc] using repeated

theorem exists_firstRepeat (repeats : ¬ controller.labelNames.Nodup) : ∃ name, controller.FirstRepeat name := by
  induction controller using List.reverseRecOn with
  | nil => exact absurd .nil repeats
  | append_singleton before entry ih =>
    by_cases distinct : (labelNames before).Nodup
    · cases entry with
      | instruction text =>
        refine absurd ?_ repeats
        simpa [labelNames] using distinct
      | label name =>
        refine ⟨name, before, [], rfl, distinct, ?_⟩
        by_contra fresh
        refine repeats ?_
        rw [labelNames, List.filterMap_append]
        refine List.nodup_append.mpr ⟨distinct, List.pairwise_singleton _ _, ?_⟩
        rintro earlier member other isName rfl
        cases List.mem_singleton.mp isName
        exact fresh member
    · obtain ⟨name, earlier, later, rfl, distinct, member⟩ := ih distinct
      exact ⟨name, earlier, later ++ [entry], by simp, distinct, member⟩

/-- What the assembler makes of a controller. -/
structure Assembles (controller : Controller) (registers : List String) (operations : OperationTable) : Prop where
  /-- It accepts distinct labels and instructions in shape that name what is
  there. -/
  accepted : (∃ assembly, controller.assemble registers operations = .ok assembly) ↔
    controller.labelNames.Nodup ∧ ∀ text ∈ controller.instructions,
      text.Shaped ∧ ∀ operand ∈ text.operands, (controller.names registers operations).Defined operand
  /-- The instructions are those of the controller, in order and with their
  names looked up. -/
  bound : ∀ assembly, controller.assemble registers operations = .ok assembly →
    List.Forall₂ (Scope.BindsText (controller.names registers operations)) controller.instructions
      assembly.code.toList
  /-- A label stands for the number of instructions before it. -/
  labels : ∀ assembly, controller.assemble registers operations = .ok assembly →
    ∃ labels, labelsFrom 0 [] controller = .ok labels ∧ labels.length = assembly.labels ∧
      ∀ name position, labels.lookup name = some position ↔ controller.LabelAt name position
  /-- Which is not beyond the end. -/
  within : ∀ assembly name position, controller.assemble registers operations = .ok assembly →
    controller.LabelAt name position → position ≤ assembly.code.size
  /-- It reports the first label that is repeated, or else the first mistake in
  the first instruction that has one. -/
  rejected : ∀ cause, controller.assemble registers operations = .error cause ↔
    (∃ name, cause = .duplicateLabel name ∧ controller.FirstRepeat name) ∨
      controller.labelNames.Nodup ∧
        Scope.RowFault (controller.names registers operations) 0 controller.instructions cause

theorem names_eq {registers : List String} {operations : OperationTable} {labels : Labels}
    (resolved : ∀ name position, labels.lookup name = some position ↔ controller.LabelAt name position) :
    (⟨registers, operations, labels⟩ : Scope).names = controller.names registers operations := by
  have registers_eq (name : String) (index : Nat) :
      (⟨registers, operations, labels⟩ : Scope).register name = .ok index ↔
        registers[index]? = some name ∧ ∀ earlier < index, registers[earlier]? ≠ some name := by
    have first : registers.idxOf? name = some index ↔
        registers[index]? = some name ∧ ∀ earlier < index, registers[earlier]? ≠ some name := by
      rw [List.idxOf?_eq_some_iff, List.getElem?_eq_some_iff]
      constructor
      · rintro ⟨inside, here, before⟩
        refine ⟨⟨inside, here⟩, fun earlier lt found => before earlier lt ?_⟩
        exact (List.getElem?_eq_some_iff.mp found).2
      · rintro ⟨⟨inside, here⟩, before⟩
        refine ⟨inside, here, fun earlier lt found => before earlier lt ?_⟩
        exact List.getElem?_eq_some_iff.mpr ⟨lt.trans inside, found⟩
    rw [← first]
    simp only [Scope.register]
    cases registers.idxOf? name <;> simp
  have labels_eq (name : String) (position : Nat) :
      (⟨registers, operations, labels⟩ : Scope).label name = .ok position ↔ controller.LabelAt name position := by
    rw [← resolved]
    simp only [Scope.label]
    cases labels.lookup name <;> simp
  have operations_eq (name : String) (operation : Operation) :
      (⟨registers, operations, labels⟩ : Scope).operation name = .ok operation ↔
        operations.find? name = some operation := by
    simp only [Scope.operation]
    cases operations.find? name <;> simp
  simp only [Scope.names, names, registers_eq, labels_eq, operations_eq]

/-- In a table without repetitions every entry is found, so looking a name up
gives the number of instructions before its label. -/
theorem lookup_labelTable (distinct : controller.labelNames.Nodup) (name : String) (position : Nat) :
    (labelTable 0 controller).lookup name = some position ↔ controller.LabelAt name position := by
  have entry : (name, position) ∈ labelTable 0 controller ↔ controller.LabelAt name position := by
    rw [mem_labelTable_iff]
    simp only [Nat.zero_add, LabelAt]
  rw [← entry, List.lookup_eq_some_iff]
  have distinct : ((labelTable 0 controller).map Prod.fst).Nodup := labelTable_names ▸ distinct
  constructor
  · rintro ⟨before, after, same, _⟩
    rw [same]
    exact List.mem_append_right _ (.head _)
  · intro member
    obtain ⟨before, after, same⟩ := List.append_of_mem member
    refine ⟨before, after, same, fun earlier isEarlier => bne_iff_ne.mpr fun equal => ?_⟩
    rw [same, List.map_append] at distinct
    refine (List.nodup_append.mp distinct).2.2 earlier.1 (List.mem_map_of_mem isEarlier) name (.head _) equal.symm

variable {registers : List String} {operations : OperationTable} {cause : MachineError}

theorem assemble_eq_ok (distinct : controller.labelNames.Nodup) {bound : List BoundInstruction}
    (binds : List.Forall₂ (Scope.BindsText (controller.names registers operations)) controller.instructions bound) :
    controller.assemble registers operations = .ok ⟨bound.toArray, (labelTable 0 controller).length⟩ := by
  have made : labelsFrom 0 [] controller = .ok (labelTable 0 controller) := labelsFrom_eq_ok distinct
  rw [← names_eq (lookup_labelTable distinct)] at binds
  simp only [assemble, made, bind, Except.bind, Scope.bindAll_eq_ok binds]
  rfl

theorem assemble_eq_error_of_fault (distinct : controller.labelNames.Nodup)
    (fault : Scope.RowFault (controller.names registers operations) 0 controller.instructions cause) :
    controller.assemble registers operations = .error cause := by
  have made : labelsFrom 0 [] controller = .ok (labelTable 0 controller) := labelsFrom_eq_ok distinct
  rw [← names_eq (lookup_labelTable distinct)] at fault
  simp only [assemble, made, bind, Except.bind, Scope.bindAll_eq_error fault]

theorem assemble_eq_error_of_repeat {name : String} (repeated : controller.FirstRepeat name) :
    controller.assemble registers operations = .error (.duplicateLabel name) := by
  obtain ⟨before, after, split, distinct, member⟩ := repeated
  have failed : labelsFrom 0 [] controller = .error (.duplicateLabel name) :=
    labelsFrom_eq_error split distinct member
  simp only [assemble, failed, bind, Except.bind]

/-- A controller binds, or it has a first mistake: a label that is there
already, or else an instruction at fault with none before it. -/
theorem assemble_cases (controller : Controller) (registers : List String) (operations : OperationTable) :
    (controller.labelNames.Nodup ∧ ∃ bound,
      List.Forall₂ (Scope.BindsText (controller.names registers operations)) controller.instructions bound) ∨
    (controller.labelNames.Nodup ∧ ∃ cause,
      Scope.RowFault (controller.names registers operations) 0 controller.instructions cause) ∨
    ∃ name, controller.FirstRepeat name := by
  by_cases distinct : controller.labelNames.Nodup
  · rw [← names_eq (lookup_labelTable distinct)]
    rcases Scope.bindAll_cases ⟨registers, operations, labelTable 0 controller⟩ 0 controller.instructions with
      binds | fault
    · exact .inl ⟨distinct, binds⟩
    · exact .inr (.inl ⟨distinct, fault⟩)
  · exact .inr (.inr (exists_firstRepeat distinct))

/-- An assembly has come from a controller that binds, and is what binding
makes of its instructions, in order. -/
theorem binds_of_assemble {assembly : Assembly} (assembled : controller.assemble registers operations = .ok assembly) :
    controller.labelNames.Nodup ∧ assembly.labels = (labelTable 0 controller).length ∧
      List.Forall₂ (Scope.BindsText (controller.names registers operations)) controller.instructions
        assembly.code.toList := by
  rcases controller.assemble_cases registers operations with ⟨distinct, bound, binds⟩ | ⟨distinct, cause, fault⟩ |
    ⟨name, repeated⟩
  · cases (assemble_eq_ok distinct binds).symm.trans assembled
    exact ⟨distinct, rfl, by simpa using binds⟩
  · cases (assemble_eq_error_of_fault distinct fault).symm.trans assembled
  · cases (assemble_eq_error_of_repeat repeated).symm.trans assembled

theorem bindsAll_iff : (∃ bound, List.Forall₂ (Scope.BindsText (controller.names registers operations))
      controller.instructions bound) ↔
    ∀ text ∈ controller.instructions,
      text.Shaped ∧ ∀ operand ∈ text.operands, (controller.names registers operations).Defined operand := by
  generalize controller.names registers operations = names
  induction controller.instructions with
  | nil => simp
  | cons text texts ih =>
    rw [List.forall_mem_cons, ← ih, ← Names.exists_binds_iff]
    constructor
    · rintro ⟨_, _ | ⟨⟨_, binds⟩, others⟩⟩
      exact ⟨⟨_, binds⟩, _, others⟩
    · rintro ⟨⟨code, binds⟩, bound, others⟩
      exact ⟨⟨text, code⟩ :: bound, .cons ⟨rfl, binds⟩ others⟩

/-- The assembler accepts just the controllers with distinct labels of which
every instruction is in the grammar, looks every name up, and reports the
first mistake of any other. A repeated label comes before all mistakes in
instructions, since labels are read first. -/
theorem assemble_exact (controller : Controller) (registers : List String) (operations : OperationTable) :
    controller.Assembles registers operations where
  accepted := by
    rw [← bindsAll_iff]
    constructor
    · rintro ⟨assembly, assembled⟩
      obtain ⟨distinct, _, binds⟩ := binds_of_assemble assembled
      exact ⟨distinct, _, binds⟩
    · rintro ⟨distinct, bound, binds⟩
      exact ⟨_, assemble_eq_ok distinct binds⟩
  bound := fun assembly assembled => (binds_of_assemble assembled).2.2
  labels := by
    intro assembly assembled
    obtain ⟨distinct, count, _⟩ := binds_of_assemble assembled
    exact ⟨labelTable 0 controller, labelsFrom_eq_ok distinct, count.symm, lookup_labelTable distinct⟩
  within := by
    rintro assembly name position assembled ⟨before, after, split, rfl⟩
    have length : controller.instructions.length = assembly.code.size :=
      (binds_of_assemble assembled).2.2.length_eq
    rw [← length, split, instructions, instructions, List.filterMap_append, List.length_append]
    exact Nat.le_add_right _ _
  rejected := by
    intro cause
    constructor
    · intro failed
      rcases controller.assemble_cases registers operations with ⟨distinct, bound, binds⟩ | ⟨distinct, cause', fault⟩ |
        ⟨name, repeated⟩
      · cases (assemble_eq_ok distinct binds).symm.trans failed
      · cases (assemble_eq_error_of_fault distinct fault).symm.trans failed
        exact .inr ⟨distinct, fault⟩
      · have refused : controller.assemble registers operations = .error (.duplicateLabel name) :=
          assemble_eq_error_of_repeat repeated
        cases refused.symm.trans failed
        exact .inl ⟨name, rfl, repeated⟩
    · rintro (⟨name, rfl, repeated⟩ | ⟨distinct, fault⟩)
      · exact assemble_eq_error_of_repeat repeated
      · exact assemble_eq_error_of_fault distinct fault

end Controller

end ExplicitControl
