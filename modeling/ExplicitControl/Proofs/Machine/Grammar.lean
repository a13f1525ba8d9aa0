import ExplicitControl.Machine.Assembler
import ExplicitControl.Proofs.Memory.Tied
import Mathlib.Data.List.Forall2

namespace ExplicitControl

/-- What names stand for: a register for its index, a label for a position,
and an operation. The grammar does not ask how they are looked up, so it can
be stated without the assembler. -/
structure Names where
  register : String → Nat → Prop
  label : String → Nat → Prop
  operation : String → Operation → Prop

/-- An operation followed by what it takes. -/
def Operand.IsInput : Operand → Prop
  | .register _ | .constant _ => True
  | .label _ | .operation _ => False

/-- The operands of an application are an operation and its inputs. -/
inductive ApplicationShape : List Operand → Prop
  | mk (name : String) {inputs : List Operand} : (∀ input ∈ inputs, input.IsInput) →
      ApplicationShape (.operation name :: inputs)

/-- The operands that say what is assigned. -/
inductive SourceShape : List Operand → Prop
  | register (name : String) : SourceShape [.register name]
  | constant (value : Scalar) : SourceShape [.constant value]
  | label (name : String) : SourceShape [.label name]
  | application {operands : List Operand} : ApplicationShape operands → SourceShape operands

/-- The shapes of instructions, by kind. A shape is about which operands stand
where; whether what they name is there is another question. -/
inductive Instruction.Shaped : Instruction → Prop
  | assign (target : String) {source : List Operand} : SourceShape source →
      Shaped ⟨"assign", .register target :: source⟩
  | test {operands : List Operand} : ApplicationShape operands → Shaped ⟨"test", operands⟩
  | perform {operands : List Operand} : ApplicationShape operands → Shaped ⟨"perform", operands⟩
  | branch (name : String) : Shaped ⟨"branch", [.label name]⟩
  | goto {kind : String} (name : String) : kind = "goto" ∨ kind = "go_to" → Shaped ⟨kind, [.label name]⟩
  | gotoRegister {kind : String} (name : String) : kind = "goto" ∨ kind = "go_to" → Shaped ⟨kind, [.register name]⟩
  | save (name : String) : Shaped ⟨"save", [.register name]⟩
  | restore (name : String) : Shaped ⟨"restore", [.register name]⟩

namespace Names

variable (names : Names)

/-- What an operand names is there. -/
def Defined : Operand → Prop
  | .register name => ∃ index, names.register name index
  | .label name => ∃ position, names.label name position
  | .operation name => ∃ operation, names.operation name operation
  | .constant _ => True

/-- An input with its register looked up. -/
inductive BindsInput : Operand → Input → Prop
  | register {name : String} {index : Nat} : names.register name index →
      BindsInput (.register name) (.register index)
  | constant (value : Scalar) : BindsInput (.constant value) (.constant (.scalar value))

/-- An application with its names looked up. -/
inductive BindsApplication : List Operand → Application → Prop
  | mk {name : String} {operation : Operation} {operands : List Operand} {inputs : List Input} :
      names.operation name operation → List.Forall₂ names.BindsInput operands inputs →
      BindsApplication (.operation name :: operands) ⟨name, operation, inputs⟩

/-- The source of an assignment with its names looked up. -/
inductive BindsSource : List Operand → Source → Prop
  | register {name : String} {index : Nat} : names.register name index →
      BindsSource [.register name] (.register index)
  | constant (value : Scalar) : BindsSource [.constant value] (.constant (.scalar value))
  | label {name : String} {position : Nat} : names.label name position →
      BindsSource [.label name] (.label position)
  | application {operands : List Operand} {application : Application} :
      names.BindsApplication operands application → BindsSource operands (.application application)

/-- An instruction with its names looked up. -/
inductive Binds : Instruction → Code → Prop
  | assign {target : String} {index : Nat} {operands : List Operand} {source : Source} :
      names.register target index → names.BindsSource operands source →
      Binds ⟨"assign", .register target :: operands⟩ (.assign index source)
  | test {operands : List Operand} {application : Application} : names.BindsApplication operands application →
      Binds ⟨"test", operands⟩ (.test application)
  | perform {operands : List Operand} {application : Application} : names.BindsApplication operands application →
      Binds ⟨"perform", operands⟩ (.perform application)
  | branch {name : String} {position : Nat} : names.label name position →
      Binds ⟨"branch", [.label name]⟩ (.branch position)
  | goto {kind name : String} {position : Nat} : kind = "goto" ∨ kind = "go_to" → names.label name position →
      Binds ⟨kind, [.label name]⟩ (.goto position)
  | gotoRegister {kind name : String} {index : Nat} : kind = "goto" ∨ kind = "go_to" → names.register name index →
      Binds ⟨kind, [.register name]⟩ (.gotoRegister index)
  | save {name : String} {index : Nat} : names.register name index →
      Binds ⟨"save", [.register name]⟩ (.save index)
  | restore {name : String} {index : Nat} : names.register name index →
      Binds ⟨"restore", [.register name]⟩ (.restore index)

/-- The mistake in an input; `wrong` stands for a wrong shape. -/
inductive InputFault (wrong : MachineError) : Operand → MachineError → Prop
  | register {name : String} : ¬ names.Defined (.register name) →
      InputFault wrong (.register name) (.unknownRegister name)
  | label (name : String) : InputFault wrong (.label name) wrong
  | operation (name : String) : InputFault wrong (.operation name) wrong

/-- The first mistake in a row of inputs. -/
def InputsFault (wrong : MachineError) (operands : List Operand) (cause : MachineError) : Prop :=
  ∃ before input after inputs, operands = before ++ input :: after ∧
    List.Forall₂ names.BindsInput before inputs ∧ names.InputFault wrong input cause

/-- The first mistake in an application. Its inputs come before its name. -/
inductive ApplicationFault (wrong : MachineError) : List Operand → MachineError → Prop
  | shape {operands : List Operand} : (∀ name rest, operands ≠ .operation name :: rest) →
      ApplicationFault wrong operands wrong
  | inputs {name : String} {operands : List Operand} {cause : MachineError} :
      names.InputsFault wrong operands cause → ApplicationFault wrong (.operation name :: operands) cause
  | operation {name : String} {operands : List Operand} {inputs : List Input} :
      List.Forall₂ names.BindsInput operands inputs → ¬ names.Defined (.operation name) →
      ApplicationFault wrong (.operation name :: operands) (.unknownOperation name)

/-- The first mistake in the source of an assignment. -/
inductive SourceFault (wrong : MachineError) : List Operand → MachineError → Prop
  | register {name : String} : ¬ names.Defined (.register name) →
      SourceFault wrong [.register name] (.unknownRegister name)
  | label {name : String} : ¬ names.Defined (.label name) → SourceFault wrong [.label name] (.unknownLabel name)
  | application {name : String} {operands : List Operand} {cause : MachineError} :
      names.ApplicationFault wrong (.operation name :: operands) cause →
      SourceFault wrong (.operation name :: operands) cause
  | shape {operands : List Operand} : ¬ SourceShape operands → (∀ name rest, operands ≠ .operation name :: rest) →
      SourceFault wrong operands wrong

/-- The first mistake in the instruction at an index. The target of an
assignment comes before its source, and an unknown kind or a wrong shape is
told with the text of the whole instruction. -/
inductive Fault (index : Nat) : Instruction → MachineError → Prop
  | assignTarget {operands : List Operand} : (∀ target rest, operands ≠ .register target :: rest) →
      Fault index ⟨"assign", operands⟩ (.malformed index ⟨"assign", operands⟩ .assignTarget)
  | target {target : String} {operands : List Operand} : ¬ names.Defined (.register target) →
      Fault index ⟨"assign", .register target :: operands⟩ (.unknownRegister target)
  | source {target : String} {operands : List Operand} {cause : MachineError} : names.Defined (.register target) →
      names.SourceFault (.malformed index ⟨"assign", .register target :: operands⟩ .assignSource) operands cause →
      Fault index ⟨"assign", .register target :: operands⟩ cause
  | test {operands : List Operand} {cause : MachineError} :
      names.ApplicationFault (.malformed index ⟨"test", operands⟩ .test) operands cause →
      Fault index ⟨"test", operands⟩ cause
  | perform {operands : List Operand} {cause : MachineError} :
      names.ApplicationFault (.malformed index ⟨"perform", operands⟩ .perform) operands cause →
      Fault index ⟨"perform", operands⟩ cause
  | branchShape {operands : List Operand} : (∀ name, operands ≠ [.label name]) →
      Fault index ⟨"branch", operands⟩ (.malformed index ⟨"branch", operands⟩ .branch)
  | gotoShape {kind : String} {operands : List Operand} : kind = "goto" ∨ kind = "go_to" →
      (∀ name, operands ≠ [.label name]) → (∀ name, operands ≠ [.register name]) →
      Fault index ⟨kind, operands⟩ (.malformed index ⟨kind, operands⟩ .goto)
  | saveShape {operands : List Operand} : (∀ name, operands ≠ [.register name]) →
      Fault index ⟨"save", operands⟩ (.malformed index ⟨"save", operands⟩ .save)
  | restoreShape {operands : List Operand} : (∀ name, operands ≠ [.register name]) →
      Fault index ⟨"restore", operands⟩ (.malformed index ⟨"restore", operands⟩ .restore)
  | label {kind name : String} : kind = "branch" ∨ kind = "goto" ∨ kind = "go_to" → ¬ names.Defined (.label name) →
      Fault index ⟨kind, [.label name]⟩ (.unknownLabel name)
  | register {kind name : String} : kind = "goto" ∨ kind = "go_to" ∨ kind = "save" ∨ kind = "restore" →
      ¬ names.Defined (.register name) → Fault index ⟨kind, [.register name]⟩ (.unknownRegister name)
  | kind {kind : String} {operands : List Operand} :
      kind ∉ ["assign", "test", "perform", "branch", "goto", "go_to", "save", "restore"] →
      Fault index ⟨kind, operands⟩ (.malformed index ⟨kind, operands⟩ .kind)

end Names

namespace Scope

/-- What names stand for where they are looked up. -/
def names (scope : Scope) : Names where
  register name index := scope.register name = .ok index
  label name position := scope.label name = .ok position
  operation name operation := scope.operation name = .ok operation

variable {scope : Scope} {wrong cause : MachineError} {name : String} {operands : List Operand}

theorem register_eq_error (unknown : ¬ scope.names.Defined (.register name)) :
    scope.register name = .error (.unknownRegister name) := by
  simp only [Names.Defined, names] at unknown
  unfold register at unknown ⊢
  split
  · rename_i index found
    simp [found] at unknown
  · rfl

theorem label_eq_error (unknown : ¬ scope.names.Defined (.label name)) :
    scope.label name = .error (.unknownLabel name) := by
  simp only [Names.Defined, names] at unknown
  unfold label at unknown ⊢
  split
  · rename_i position found
    simp [found] at unknown
  · rfl

theorem operation_eq_error (unknown : ¬ scope.names.Defined (.operation name)) :
    scope.operation name = .error (.unknownOperation name) := by
  simp only [Names.Defined, names] at unknown
  unfold operation at unknown ⊢
  split
  · rename_i operation found
    simp [found] at unknown
  · rfl

theorem inputs_eq_ok {bound : List Input} (binds : List.Forall₂ scope.names.BindsInput operands bound) :
    scope.inputs wrong operands = .ok bound := by
  induction binds with
  | nil => rfl
  | cons first _ ih =>
    cases first with
    | register found =>
      simp only [names] at found
      simp only [inputs, found, ih]
      rfl
    | constant value =>
      simp only [inputs, ih]
      rfl

theorem inputs_eq_error (fault : scope.names.InputsFault wrong operands cause) :
    scope.inputs wrong operands = .error cause := by
  obtain ⟨before, input, after, bound, rfl, binds, fault⟩ := fault
  induction binds with
  | nil =>
    cases fault with
    | register unknown =>
      simp only [List.nil_append, inputs, register_eq_error unknown]
      rfl
    | label name => rfl
    | operation name => rfl
  | cons first _ ih =>
    cases first with
    | register found =>
      simp only [names] at found
      simp only [List.cons_append, inputs, found, ih]
      rfl
    | constant value =>
      simp only [List.cons_append, inputs, ih]
      rfl

/-- Inputs are bound, or there is a first mistake in them, from left to right. -/
theorem inputs_cases (scope : Scope) (wrong : MachineError) (operands : List Operand) :
    (∃ bound, List.Forall₂ scope.names.BindsInput operands bound) ∨
      ∃ cause, scope.names.InputsFault wrong operands cause := by
  induction operands with
  | nil => exact .inl ⟨[], .nil⟩
  | cons operand rest ih =>
    have bad {cause : MachineError} (fault : scope.names.InputFault wrong operand cause) :
        ∃ cause, scope.names.InputsFault wrong (operand :: rest) cause :=
      ⟨cause, [], operand, rest, [], rfl, .nil, fault⟩
    have good {input : Input} (binds : scope.names.BindsInput operand input) :
        (∃ bound, List.Forall₂ scope.names.BindsInput (operand :: rest) bound) ∨
          ∃ cause, scope.names.InputsFault wrong (operand :: rest) cause := by
      rcases ih with ⟨bound, others⟩ | ⟨cause, before, faulty, after, bound, rfl, others, fault⟩
      · exact .inl ⟨input :: bound, .cons binds others⟩
      · exact .inr ⟨cause, operand :: before, faulty, after, input :: bound, rfl, .cons binds others, fault⟩
    cases operand with
    | register name =>
      by_cases defined : scope.names.Defined (.register name)
      · obtain ⟨index, found⟩ := defined
        exact good (.register found)
      · exact .inr (bad (.register defined))
    | constant value => exact good (.constant value)
    | label name => exact .inr (bad (.label name))
    | operation name => exact .inr (bad (.operation name))

theorem application_eq_ok {bound : Application} (binds : scope.names.BindsApplication operands bound) :
    scope.application wrong operands = .ok bound := by
  cases binds with
  | mk found inputs =>
    simp only [names] at found
    simp only [application, inputs_eq_ok inputs, found]
    rfl

theorem application_eq_error (fault : scope.names.ApplicationFault wrong operands cause) :
    scope.application wrong operands = .error cause := by
  cases fault with
  | shape other =>
    unfold application
    split
    · exact absurd rfl (other _ _)
    · rfl
  | inputs fault =>
    simp only [application, inputs_eq_error fault]
    rfl
  | operation inputs unknown =>
    simp only [application, inputs_eq_ok inputs, operation_eq_error unknown]
    rfl

theorem application_cases (scope : Scope) (wrong : MachineError) (operands : List Operand) :
    (∃ bound, scope.names.BindsApplication operands bound) ∨
      ∃ cause, scope.names.ApplicationFault wrong operands cause := by
  by_cases isApplication : ∃ name rest, operands = .operation name :: rest
  · obtain ⟨name, rest, rfl⟩ := isApplication
    rcases scope.inputs_cases wrong rest with ⟨bound, binds⟩ | ⟨cause, fault⟩
    · by_cases defined : scope.names.Defined (.operation name)
      · obtain ⟨operation, found⟩ := defined
        exact .inl ⟨_, .mk found binds⟩
      · exact .inr ⟨_, .operation binds defined⟩
    · exact .inr ⟨_, .inputs fault⟩
  · exact .inr ⟨wrong, .shape fun name rest same => isApplication ⟨name, rest, same⟩⟩

theorem source_eq_ok {bound : Source} (binds : scope.names.BindsSource operands bound) :
    scope.source wrong operands = .ok bound := by
  cases binds with
  | register found =>
    simp only [names] at found
    simp only [source, found]
    rfl
  | constant value => rfl
  | label found =>
    simp only [names] at found
    simp only [source, found]
    rfl
  | application binds =>
    have applied : scope.application wrong _ = .ok _ := application_eq_ok binds
    cases binds
    simp only [source, applied]
    rfl

theorem source_eq_error (fault : scope.names.SourceFault wrong operands cause) :
    scope.source wrong operands = .error cause := by
  cases fault with
  | register unknown =>
    simp only [source, register_eq_error unknown]
    rfl
  | label unknown =>
    simp only [source, label_eq_error unknown]
    rfl
  | application fault =>
    simp only [source, application_eq_error fault]
    rfl
  | shape unshaped other =>
    unfold source
    split
    · exact absurd (.register _) unshaped
    · exact absurd (.constant _) unshaped
    · exact absurd (.label _) unshaped
    · exact absurd rfl (other _ _)
    · rfl

theorem source_cases (scope : Scope) (wrong : MachineError) (operands : List Operand) :
    (∃ bound, scope.names.BindsSource operands bound) ∨ ∃ cause, scope.names.SourceFault wrong operands cause := by
  by_cases isApplication : ∃ name rest, operands = .operation name :: rest
  · obtain ⟨name, rest, rfl⟩ := isApplication
    rcases scope.application_cases wrong (.operation name :: rest) with ⟨bound, binds⟩ | ⟨cause, fault⟩
    · exact .inl ⟨_, .application binds⟩
    · exact .inr ⟨_, .application fault⟩
  by_cases shaped : SourceShape operands
  · cases shaped with
    | register name =>
      by_cases defined : scope.names.Defined (.register name)
      · obtain ⟨index, found⟩ := defined
        exact .inl ⟨_, .register found⟩
      · exact .inr ⟨_, .register defined⟩
    | constant value => exact .inl ⟨_, .constant value⟩
    | label name =>
      by_cases defined : scope.names.Defined (.label name)
      · obtain ⟨position, found⟩ := defined
        exact .inl ⟨_, .label found⟩
      · exact .inr ⟨_, .label defined⟩
    | application shaped =>
      cases shaped
      exact absurd ⟨_, _, rfl⟩ isApplication
  · exact .inr ⟨wrong, .shape shaped fun name rest same => isApplication ⟨name, rest, same⟩⟩

variable {index : Nat} {text : Instruction}

theorem bind_eq_ok {code : Code} (binds : scope.names.Binds text code) : scope.bind index text = .ok code := by
  cases binds with
  | assign found binds =>
    simp only [names] at found
    simp only [Scope.bind, found, source_eq_ok binds]
    rfl
  | test binds =>
    simp only [Scope.bind, application_eq_ok binds]
    rfl
  | perform binds =>
    simp only [Scope.bind, application_eq_ok binds]
    rfl
  | branch found =>
    simp only [names] at found
    simp only [Scope.bind, found]
    rfl
  | goto isGoto found =>
    simp only [names] at found
    rcases isGoto with rfl | rfl <;> simp only [Scope.bind, found] <;> rfl
  | gotoRegister isGoto found =>
    simp only [names] at found
    rcases isGoto with rfl | rfl <;> simp only [Scope.bind, found] <;> rfl
  | save found =>
    simp only [names] at found
    simp only [Scope.bind, found]
    rfl
  | restore found =>
    simp only [names] at found
    simp only [Scope.bind, found]
    rfl

theorem bind_eq_error (fault : scope.names.Fault index text cause) : scope.bind index text = .error cause := by
  cases fault with
  | assignTarget other =>
    simp only [Scope.bind]
  | target unknown =>
    simp only [Scope.bind, register_eq_error unknown]
    rfl
  | source defined fault =>
    obtain ⟨target, found⟩ := defined
    simp only [names] at found
    simp only [Scope.bind, found, source_eq_error fault]
    rfl
  | test fault =>
    simp only [Scope.bind, application_eq_error fault]
    rfl
  | perform fault =>
    simp only [Scope.bind, application_eq_error fault]
    rfl
  | branchShape other =>
    simp only [Scope.bind]
  | gotoShape isGoto otherLabel otherRegister =>
    rcases isGoto with rfl | rfl <;> simp only [Scope.bind]
  | saveShape other =>
    simp only [Scope.bind]
  | restoreShape other =>
    simp only [Scope.bind]
  | label isKind unknown =>
    rcases isKind with rfl | rfl | rfl <;> simp only [Scope.bind, label_eq_error unknown] <;> rfl
  | register isKind unknown =>
    rcases isKind with rfl | rfl | rfl | rfl <;> simp only [Scope.bind, register_eq_error unknown] <;> rfl
  | kind other =>
    simp only [List.mem_cons, List.not_mem_nil, or_false, not_or] at other
    unfold Scope.bind
    split <;> simp_all

/-- An instruction is bound, or there is a first mistake in it. With the
lemmas on what is bound and what is refused, this says what the assembler does
with every instruction there is. -/
theorem bind_cases (scope : Scope) (index : Nat) (text : Instruction) :
    (∃ code, scope.names.Binds text code) ∨ ∃ cause, scope.names.Fault index text cause := by
  obtain ⟨kind, operands⟩ := text
  by_cases known : kind ∈ ["assign", "test", "perform", "branch", "goto", "go_to", "save", "restore"]
  swap
  · exact .inr ⟨_, .kind known⟩
  have register {name : String} {code : Nat → Code}
      (isKind : kind = "goto" ∨ kind = "go_to" ∨ kind = "save" ∨ kind = "restore")
      (binds : ∀ index, scope.names.register name index → scope.names.Binds ⟨kind, [.register name]⟩ (code index)) :
      (∃ code, scope.names.Binds ⟨kind, [.register name]⟩ code) ∨
        ∃ cause, scope.names.Fault index ⟨kind, [.register name]⟩ cause := by
    by_cases defined : scope.names.Defined (.register name)
    · obtain ⟨index, found⟩ := defined
      exact .inl ⟨_, binds index found⟩
    · exact .inr ⟨_, .register isKind defined⟩
  have label {name : String} {code : Nat → Code} (isKind : kind = "branch" ∨ kind = "goto" ∨ kind = "go_to")
      (binds : ∀ position, scope.names.label name position → scope.names.Binds ⟨kind, [.label name]⟩ (code position)) :
      (∃ code, scope.names.Binds ⟨kind, [.label name]⟩ code) ∨
        ∃ cause, scope.names.Fault index ⟨kind, [.label name]⟩ cause := by
    by_cases defined : scope.names.Defined (.label name)
    · obtain ⟨position, found⟩ := defined
      exact .inl ⟨_, binds position found⟩
    · exact .inr ⟨_, .label isKind defined⟩
  have goto (isGoto : kind = "goto" ∨ kind = "go_to") : (∃ code, scope.names.Binds ⟨kind, operands⟩ code) ∨
      ∃ cause, scope.names.Fault index ⟨kind, operands⟩ cause := by
    by_cases isLabel : ∃ name, operands = [.label name]
    · obtain ⟨name, rfl⟩ := isLabel
      exact label (.inr isGoto) fun _ found => .goto isGoto found
    by_cases isRegister : ∃ name, operands = [.register name]
    · obtain ⟨name, rfl⟩ := isRegister
      exact register (isGoto.imp_right .inl) fun _ found => .gotoRegister isGoto found
    · exact .inr ⟨_, .gotoShape isGoto (not_exists.mp isLabel) (not_exists.mp isRegister)⟩
  simp only [List.mem_cons, List.not_mem_nil, or_false] at known
  rcases known with rfl | rfl | rfl | rfl | rfl | rfl | rfl | rfl
  · by_cases isTarget : ∃ target rest, operands = .register target :: rest
    swap
    · exact .inr ⟨_, .assignTarget fun target rest same => isTarget ⟨target, rest, same⟩⟩
    obtain ⟨target, rest, rfl⟩ := isTarget
    by_cases defined : scope.names.Defined (.register target)
    swap
    · exact .inr ⟨_, .target defined⟩
    rcases scope.source_cases (.malformed index ⟨"assign", .register target :: rest⟩ .assignSource) rest with
      ⟨source, binds⟩ | ⟨cause, fault⟩
    · obtain ⟨found, isFound⟩ := defined
      exact .inl ⟨_, .assign isFound binds⟩
    · exact .inr ⟨_, .source defined fault⟩
  · rcases scope.application_cases (.malformed index ⟨"test", operands⟩ .test) operands with ⟨_, binds⟩ | ⟨_, fault⟩
    · exact .inl ⟨_, .test binds⟩
    · exact .inr ⟨_, .test fault⟩
  · rcases scope.application_cases (.malformed index ⟨"perform", operands⟩ .perform) operands with
      ⟨_, binds⟩ | ⟨_, fault⟩
    · exact .inl ⟨_, .perform binds⟩
    · exact .inr ⟨_, .perform fault⟩
  · by_cases isLabel : ∃ name, operands = [.label name]
    · obtain ⟨name, rfl⟩ := isLabel
      exact label (.inl rfl) fun _ found => .branch found
    · exact .inr ⟨_, .branchShape (not_exists.mp isLabel)⟩
  · exact goto (.inl rfl)
  · exact goto (.inr rfl)
  · by_cases isRegister : ∃ name, operands = [.register name]
    · obtain ⟨name, rfl⟩ := isRegister
      exact register (by simp) fun _ found => .save found
    · exact .inr ⟨_, .saveShape (not_exists.mp isRegister)⟩
  · by_cases isRegister : ∃ name, operands = [.register name]
    · obtain ⟨name, rfl⟩ := isRegister
      exact register (by simp) fun _ found => .restore found
    · exact .inr ⟨_, .restoreShape (not_exists.mp isRegister)⟩

/-- A row of instructions in which one is at fault, while those before it are
not. -/
def RowFault (names : Names) (index : Nat) (texts : List Instruction) (cause : MachineError) : Prop :=
  ∃ before text after, texts = before ++ text :: after ∧ (∀ earlier ∈ before, ∃ code, names.Binds earlier code) ∧
    names.Fault (index + before.length) text cause

/-- An instruction of a listing, bound. -/
def BindsText (names : Names) (text : Instruction) (bound : BoundInstruction) : Prop :=
  bound.text = text ∧ names.Binds text bound.code

variable {texts : List Instruction}

theorem bindAll_eq_ok {bound : List BoundInstruction} (binds : List.Forall₂ (BindsText scope.names) texts bound) :
    scope.bindAll index texts = .ok bound := by
  induction binds generalizing index with
  | nil => rfl
  | cons first _ ih =>
    obtain ⟨rfl, binds⟩ := first
    simp only [bindAll, bind_eq_ok binds, ih]
    rfl

theorem bindAll_eq_error (fault : RowFault scope.names index texts cause) :
    scope.bindAll index texts = .error cause := by
  obtain ⟨before, text, after, rfl, binds, fault⟩ := fault
  induction before generalizing index with
  | nil =>
    have failed : scope.bind index text = .error cause := bind_eq_error fault
    simp only [List.nil_append, bindAll, failed]
    rfl
  | cons first before ih =>
    obtain ⟨⟨code, bindsFirst⟩, bindsRest⟩ := List.forall_mem_cons.mp binds
    have behind : index + (first :: before).length = index + 1 + before.length := by
      rw [List.length_cons]
      omega
    rw [behind] at fault
    simp only [List.cons_append, bindAll, bind_eq_ok bindsFirst, ih bindsRest fault]
    rfl

/-- A row of instructions is bound as a whole, or one of them is at fault
while those before it are not. -/
theorem bindAll_cases (scope : Scope) (index : Nat) (texts : List Instruction) :
    (∃ bound, List.Forall₂ (BindsText scope.names) texts bound) ∨
      ∃ cause, RowFault scope.names index texts cause := by
  induction texts generalizing index with
  | nil => exact .inl ⟨[], .nil⟩
  | cons text texts ih =>
    rcases scope.bind_cases index text with ⟨code, binds⟩ | ⟨cause, fault⟩
    swap
    · exact .inr ⟨cause, [], text, texts, rfl, nofun, fault⟩
    rcases ih (index + 1) with ⟨bound, others⟩ | ⟨cause, before, faulty, after, rfl, others, fault⟩
    · exact .inl ⟨⟨text, code⟩ :: bound, .cons ⟨rfl, binds⟩ others⟩
    · refine .inr ⟨cause, text :: before, faulty, after, rfl, List.forall_mem_cons.mpr ⟨⟨code, binds⟩, others⟩, ?_⟩
      rwa [List.length_cons, Nat.add_comm before.length, ← Nat.add_assoc]

end Scope

namespace Names

variable {names : Names}

/-- What binds is in shape, and all that it names is there. The operation is
looked up like the registers among its inputs. -/
theorem exists_bindsApplication_iff {operands : List Operand} :
    (∃ application, names.BindsApplication operands application) ↔
      ApplicationShape operands ∧ ∀ operand ∈ operands, names.Defined operand := by
  have rows (operands : List Operand) : (∃ inputs, List.Forall₂ names.BindsInput operands inputs) ↔
      ∀ operand ∈ operands, operand.IsInput ∧ names.Defined operand := by
    induction operands with
    | nil => simp
    | cons operand rest ih =>
      rw [List.forall_mem_cons, ← ih]
      constructor
      · rintro ⟨_, _ | ⟨first, others⟩⟩
        refine ⟨?_, _, others⟩
        cases first with
        | register found => exact ⟨trivial, _, found⟩
        | constant value => exact ⟨trivial, trivial⟩
      · rintro ⟨⟨isInput, defined⟩, inputs, others⟩
        cases operand with
        | register name =>
          obtain ⟨index, found⟩ := defined
          exact ⟨_, .cons (.register found) others⟩
        | constant value => exact ⟨_, .cons (.constant value) others⟩
        | label name => exact isInput.elim
        | operation name => exact isInput.elim
  constructor
  · rintro ⟨_, ⟨found, inputs⟩⟩
    have each := (rows _).mp ⟨_, inputs⟩
    exact ⟨.mk _ fun input member => (each input member).1,
      List.forall_mem_cons.mpr ⟨⟨_, found⟩, fun input member => (each input member).2⟩⟩
  · rintro ⟨⟨name, areInputs⟩, defined⟩
    obtain ⟨⟨operation, found⟩, defined⟩ := List.forall_mem_cons.mp defined
    obtain ⟨inputs, binds⟩ := (rows _).mpr fun input member => ⟨areInputs input member, defined input member⟩
    exact ⟨_, .mk found binds⟩

theorem exists_bindsSource_iff {operands : List Operand} : (∃ source, names.BindsSource operands source) ↔
    SourceShape operands ∧ ∀ operand ∈ operands, names.Defined operand := by
  constructor
  · rintro ⟨_, binds⟩
    cases binds with
    | register found => exact ⟨.register _, List.forall_mem_singleton.mpr ⟨_, found⟩⟩
    | constant value => exact ⟨.constant value, List.forall_mem_singleton.mpr trivial⟩
    | label found => exact ⟨.label _, List.forall_mem_singleton.mpr ⟨_, found⟩⟩
    | application binds =>
      obtain ⟨shape, defined⟩ := exists_bindsApplication_iff.mp ⟨_, binds⟩
      exact ⟨.application shape, defined⟩
  · rintro ⟨shape, defined⟩
    cases shape with
    | register name =>
      obtain ⟨index, found⟩ := List.forall_mem_singleton.mp defined
      exact ⟨_, .register found⟩
    | constant value => exact ⟨_, .constant value⟩
    | label name =>
      obtain ⟨position, found⟩ := List.forall_mem_singleton.mp defined
      exact ⟨_, .label found⟩
    | application shape =>
      obtain ⟨application, binds⟩ := exists_bindsApplication_iff.mpr ⟨shape, defined⟩
      exact ⟨_, .application binds⟩

/-- An instruction can be bound exactly when it has one of the shapes of its
kind and every register, label and operation that it names is there. -/
theorem exists_binds_iff {text : Instruction} : (∃ code, names.Binds text code) ↔
    text.Shaped ∧ ∀ operand ∈ text.operands, names.Defined operand := by
  constructor
  · rintro ⟨_, binds⟩
    cases binds with
    | assign found binds =>
      obtain ⟨shape, defined⟩ := exists_bindsSource_iff.mp ⟨_, binds⟩
      exact ⟨.assign _ shape, List.forall_mem_cons.mpr ⟨⟨_, found⟩, defined⟩⟩
    | test binds => exact (exists_bindsApplication_iff.mp ⟨_, binds⟩).imp_left .test
    | perform binds => exact (exists_bindsApplication_iff.mp ⟨_, binds⟩).imp_left .perform
    | branch found => exact ⟨.branch _, List.forall_mem_singleton.mpr ⟨_, found⟩⟩
    | goto isGoto found => exact ⟨.goto _ isGoto, List.forall_mem_singleton.mpr ⟨_, found⟩⟩
    | gotoRegister isGoto found => exact ⟨.gotoRegister _ isGoto, List.forall_mem_singleton.mpr ⟨_, found⟩⟩
    | save found => exact ⟨.save _, List.forall_mem_singleton.mpr ⟨_, found⟩⟩
    | restore found => exact ⟨.restore _, List.forall_mem_singleton.mpr ⟨_, found⟩⟩
  · rintro ⟨shaped, defined⟩
    cases shaped with
    | assign target shape =>
      obtain ⟨⟨index, found⟩, defined⟩ := List.forall_mem_cons.mp defined
      obtain ⟨source, binds⟩ := exists_bindsSource_iff.mpr ⟨shape, defined⟩
      exact ⟨_, .assign found binds⟩
    | test shape => exact (exists_bindsApplication_iff.mpr ⟨shape, defined⟩).imp' _ fun _ => .test
    | perform shape => exact (exists_bindsApplication_iff.mpr ⟨shape, defined⟩).imp' _ fun _ => .perform
    | branch name => exact (List.forall_mem_singleton.mp defined).imp' _ fun _ => .branch
    | goto name isGoto => exact (List.forall_mem_singleton.mp defined).imp' _ fun _ => .goto isGoto
    | gotoRegister name isGoto => exact (List.forall_mem_singleton.mp defined).imp' _ fun _ => .gotoRegister isGoto
    | save name => exact (List.forall_mem_singleton.mp defined).imp' _ fun _ => .save
    | restore name => exact (List.forall_mem_singleton.mp defined).imp' _ fun _ => .restore

end Names

end ExplicitControl
