import ExplicitControl.CommandLine.Session
import ExplicitControl.Proofs.Machine.Assembly
import ExplicitControl.Proofs.Machine.Ready
import Mathlib.Logic.Function.Basic

namespace ExplicitControl

/-- A mistake that a controller makes whatever registers there are. -/
inductive MachineError.Intrinsic : MachineError → Prop
  | duplicateLabel (name : String) : Intrinsic (.duplicateLabel name)
  | unknownLabel (name : String) : Intrinsic (.unknownLabel name)
  | unknownOperation (name : String) : Intrinsic (.unknownOperation name)
  | malformed (index : Nat) (text : Instruction) (reason : Malformation) : Intrinsic (.malformed index text reason)

namespace Names

/-- The registers among operands are there. -/
def Knows (names : Names) (operands : List Operand) : Prop :=
  ∀ name, .register name ∈ operands → names.Defined (.register name)

variable {names : Names} {wrong cause : MachineError} {operands : List Operand}

theorem Knows.tail {operand : Operand} (known : names.Knows (operand :: operands)) : names.Knows operands :=
  fun name member => known name (.tail _ member)

/-- With its registers there, a row of inputs has one thing wrong with it at
most, an operand of a kind that cannot stand there. -/
theorem InputsFault.eq_wrong (fault : names.InputsFault wrong operands cause) (known : names.Knows operands) :
    cause = wrong := by
  obtain ⟨before, input, after, inputs, rfl, _, fault⟩ := fault
  cases fault with
  | register unknown => exact absurd (known _ (List.mem_append_right _ (.head _))) unknown
  | label name => rfl
  | operation name => rfl

theorem ApplicationFault.intrinsic (fault : names.ApplicationFault wrong operands cause) (known : names.Knows operands)
    (isIntrinsic : wrong.Intrinsic) : cause.Intrinsic := by
  cases fault with
  | shape => exact isIntrinsic
  | inputs fault => exact fault.eq_wrong known.tail ▸ isIntrinsic
  | operation => exact .unknownOperation _

theorem SourceFault.intrinsic (fault : names.SourceFault wrong operands cause) (known : names.Knows operands)
    (isIntrinsic : wrong.Intrinsic) : cause.Intrinsic := by
  cases fault with
  | register unknown => exact absurd (known _ (.head _)) unknown
  | label => exact .unknownLabel _
  | application fault => exact fault.intrinsic known isIntrinsic
  | shape => exact isIntrinsic

/-- Where all registers of an instruction are there, its mistake is another
one: a malformed instruction, a label that is not defined or an operation that
is not installed. -/
theorem Fault.intrinsic {index : Nat} {text : Instruction} (fault : names.Fault index text cause)
    (known : names.Knows text.operands) : cause.Intrinsic := by
  cases fault with
  | target unknown => exact absurd (known _ (.head _)) unknown
  | register _ unknown => exact absurd (known _ (.head _)) unknown
  | source _ fault => exact fault.intrinsic known.tail (.malformed _ _ _)
  | test fault => exact fault.intrinsic known (.malformed _ _ _)
  | perform fault => exact fault.intrinsic known (.malformed _ _ _)
  | label => exact .unknownLabel _
  | assignTarget => exact .malformed _ _ _
  | branchShape => exact .malformed _ _ _
  | gotoShape => exact .malformed _ _ _
  | saveShape => exact .malformed _ _ _
  | restoreShape => exact .malformed _ _ _
  | kind => exact .malformed _ _ _

end Names

namespace Controller

/-- A name that an instruction has as a register. -/
def Mentions (controller : Controller) (name : String) : Prop :=
  ∃ text ∈ controller.instructions, .register name ∈ text.operands

variable {controller : Controller} {registers : List String} {operations : OperationTable}

theorem defined_of_mem {name : String} (listed : name ∈ registers) :
    (controller.names registers operations).Defined (.register name) := by
  obtain ⟨index, first⟩ := Option.isSome_iff_exists.mp (List.isSome_idxOf?.mpr listed)
  obtain ⟨inside, here, before⟩ := List.idxOf?_eq_some_iff.mp first
  refine ⟨index, List.getElem?_eq_some_iff.mpr ⟨inside, here⟩, fun earlier lt found => before earlier lt ?_⟩
  exact (List.getElem?_eq_some_iff.mp found).2

/-- With a register for every mention, the mistake is in the controller. It
would be made on any machine, whatever registers that has. -/
theorem assemble_intrinsic {cause : MachineError} (listed : ∀ name, controller.Mentions name → name ∈ registers)
    (failed : controller.assemble registers operations = .error cause) : cause.Intrinsic := by
  rcases controller.assemble_cases registers operations with ⟨distinct, bound, binds⟩ | ⟨distinct, fault, isFault⟩ |
    ⟨name, repeated⟩
  · cases (assemble_eq_ok distinct binds).symm.trans failed
  · cases (assemble_eq_error_of_fault distinct isFault).symm.trans failed
    obtain ⟨before, text, after, split, _, fault⟩ := isFault
    have isText : text ∈ controller.instructions := split ▸ List.mem_append_right _ (.head _)
    exact fault.intrinsic fun name member => defined_of_mem (listed name ⟨text, isText, member⟩)
  · cases (assemble_eq_error_of_repeat repeated).symm.trans failed
    exact .duplicateLabel name

end Controller

namespace Machine

/-- The registers of a machine in order, by what they hold. -/
def Holding (machine : Machine) (names : List String) (held : String → Contents) : Prop :=
  machine.memory.registers.toList = names.map fun name => ⟨name, held name⟩

variable {machine : Machine} {names : List String} {held : String → Contents} {name : String}

theorem Holding.registerNames (holding : machine.Holding names held) : machine.registerNames = names := by
  rw [Machine.registerNames, holding, List.map_map]
  exact List.map_id names

theorem Holding.index (holding : machine.Holding names held) (member : name ∈ names) :
    ∃ index, machine.registerIndex name = .ok index ∧ names[index]? = some name := by
  obtain ⟨index, first⟩ := Option.isSome_iff_exists.mp (List.isSome_idxOf?.mpr member)
  obtain ⟨inside, here, _⟩ := List.idxOf?_eq_some_iff.mp first
  refine ⟨index, ?_, List.getElem?_eq_some_iff.mpr ⟨inside, here⟩⟩
  rw [Machine.registerIndex, registerIndex?_eq, holding.registerNames, first]

theorem Holding.contents (holding : machine.Holding names held) (member : name ∈ names) :
    machine.contents name = .ok (held name) := by
  obtain ⟨index, found, here⟩ := holding.index member
  have register : machine.memory.registers[index]? = some ⟨name, held name⟩ := by
    rw [← Array.getElem?_toList, holding, List.getElem?_map, here]
    rfl
  rw [Machine.contents, found]
  change Except.ok (machine.memory.contents index) = .ok (held name)
  rw [Memory.contents, register]

/-- A register of a machine whose names are all different is written without
touching what the others hold. -/
theorem Holding.setContents (holding : machine.Holding names held) (nodup : names.Nodup) (member : name ∈ names)
    (value : Contents) :
    ∃ machine', machine.setContents name value = .ok machine' ∧
      machine'.Holding names (Function.update held name value) := by
  obtain ⟨index, found, here⟩ := holding.index member
  refine ⟨_, by rw [Machine.setContents, found]; rfl, List.ext_getElem? fun k => ?_⟩
  change (machine.memory.registers.modify index _).toList[k]? = _
  rw [Array.toList_modify, holding, List.getElem?_modify, List.getElem?_map, List.getElem?_map]
  cases there : names[k]? with
  | none => rfl
  | some other =>
    by_cases same : index = k
    · obtain rfl : name = other := Option.some.inj (here.symm.trans (same ▸ there))
      simp [same]
    · have different : other ≠ name := by
        rintro rfl
        have inside : index < names.length := (List.getElem?_eq_some_iff.mp here).1
        exact same ((List.getElem?_inj inside nodup).mp (here.trans there.symm))
      simp [same, Function.update_of_ne different]

/-- Registers that are not there yet can be added. They come after those of
the machine, in the order given, and hold nothing. -/
theorem allocateRegisters_ok (nodup : (machine.registerNames ++ names).Nodup) :
    ∃ machine', machine.allocateRegisters names = .ok machine' := by
  induction names generalizing machine with
  | nil => exact ⟨machine, rfl⟩
  | cons name rest ih =>
    have absent : machine.memory.registerIndex? name = none := by
      rw [registerIndex?_eq, List.idxOf?_eq_none_iff]
      exact fun present => (List.nodup_append.mp nodup).2.2 name present name (.head _) rfl
    have one : ∃ middle, machine.allocateRegister name = .ok middle ∧
        middle.registerNames = machine.registerNames ++ [name] := by
      refine ⟨_, by rw [allocateRegister, absent]; rfl, ?_⟩
      simp [Machine.registerNames]
    obtain ⟨middle, added, listed⟩ := one
    have nodupRest : (middle.registerNames ++ rest).Nodup := by
      rw [listed, List.append_assoc]
      exact nodup
    obtain ⟨machine', others⟩ := ih nodupRest
    exact ⟨machine', Read.bind_eq_ok_iff.mpr ⟨middle, added, others⟩⟩

/-- With a register for every mention, and none twice, only the controller can
be at fault. -/
theorem make_intrinsic {operations : List (String × Operation)} {controller : Controller} {cause : Error}
    (nodup : names.Nodup) (listed : ∀ name, controller.Mentions name → name ∈ names)
    (failed : make names operations controller = .error cause) :
    ∃ fault, controller.assemble names (OperationTable.standard.install operations) = .error fault ∧
      cause = .machine fault ∧ fault.Intrinsic := by
  have nodupAll : (empty.registerNames ++ names).Nodup := nodup
  obtain ⟨blank, allocated⟩ := allocateRegisters_ok nodupAll
  obtain ⟨_, _, table⟩ := allocateRegisters_frame allocated
  have registers : (blank.installOperations operations).registerNames = names :=
    (registerNames_allocated allocated : blank.registerNames = names)
  have operations' : (blank.installOperations operations).memory.operations =
      OperationTable.standard.install operations := congrArg (·.install operations) table
  unfold make at failed
  rw [allocated] at failed
  change (blank.installOperations operations).installController controller = .error cause at failed
  rw [installController, registers, operations'] at failed
  split at failed
  · cases failed
  next fault assembled =>
    cases failed
    exact ⟨fault, assembled, rfl, Controller.assemble_intrinsic listed assembled⟩

end Machine

namespace CommandLine

/-- The names are those that are mentioned, in the order of first mention.
There is one such list for every row of mentions, and no name is in it twice. -/
structure Gathers (mentions names : List String) : Prop where
  members : ∀ name, name ∈ names ↔ name ∈ mentions
  ordered : names.Pairwise fun earlier later => mentions.idxOf earlier < mentions.idxOf later

variable {mentions names : List String} {controller : Controller} {seeds : List (String × Pointer)} {machine : Machine}
  {held : String → Contents}

theorem Gathers.nodup (gathers : Gathers mentions names) : names.Nodup :=
  gathers.ordered.imp fun before same => by
    rw [same] at before
    exact before.ne rfl

theorem Gathers.addName (gathers : Gathers mentions names) (name : String) :
    Gathers (mentions ++ [name]) (addName names name) := by
  -- mentions that come later do not move the first ones
  have kept : names.Pairwise fun earlier later =>
      (mentions ++ [name]).idxOf earlier < (mentions ++ [name]).idxOf later := by
    refine gathers.ordered.imp_of_mem fun first second before => ?_
    rwa [List.idxOf_append_of_mem ((gathers.members _).mp first),
      List.idxOf_append_of_mem ((gathers.members _).mp second)]
  unfold CommandLine.addName
  split
  next present =>
    have mentioned : name ∈ mentions := (gathers.members name).mp (List.contains_iff_mem.mp present)
    refine ⟨fun other => ?_, kept⟩
    rw [gathers.members, List.mem_append, List.mem_singleton]
    exact ⟨.inl, fun either => either.elim id fun same => same ▸ mentioned⟩
  next missing =>
    have fresh : name ∉ mentions := fun mentioned =>
      missing (List.contains_iff_mem.mpr ((gathers.members name).mpr mentioned))
    refine ⟨fun other => ?_, List.pairwise_append.mpr ⟨kept, List.pairwise_singleton _ _, ?_⟩⟩
    · rw [List.mem_append, List.mem_append, gathers.members]
    · intro earlier listed later new
      obtain rfl := List.mem_singleton.mp new
      have mentioned := (gathers.members earlier).mp listed
      rw [List.idxOf_append_of_mem mentioned, List.idxOf_append_of_notMem fresh]
      exact Nat.lt_add_right _ (List.idxOf_lt_length_of_mem mentioned)

theorem Gathers.foldl (gathers : Gathers mentions names) (rest : List String) :
    Gathers (mentions ++ rest) (rest.foldl CommandLine.addName names) := by
  induction rest generalizing mentions names with
  | nil => simpa using gathers
  | cons name rest ih => simpa using ih (gathers.addName name)

/-- The names that a session mentions: those of the controller, instruction
for instruction, then those of the seeds. -/
def sessionMentions (controller : Controller) (seeds : List (String × Pointer)) : List String :=
  (controller.instructions.flatMap fun instruction => operandRegisters instruction.operands) ++ seeds.map Prod.fst

/-- The registers that a session makes. -/
def sessionRegisters (controller : Controller) (seeds : List (String × Pointer)) : List String :=
  (seeds.map Prod.fst).foldl addName (controllerRegisters controller)

/-- The registers of a session are gathered from the mentions of its
controller and then of its seeds, so a name that is both seeded and mentioned
has the place of its first mention. -/
theorem sessionRegisters_gathers (controller : Controller) (seeds : List (String × Pointer)) :
    Gathers (sessionMentions controller seeds) (sessionRegisters controller seeds) := by
  have none : Gathers [] [] := ⟨fun name => .rfl, .nil⟩
  exact (none.foldl _).foldl _

/-- Malformed instructions count as well. -/
example : sessionRegisters [.instruction ⟨"goto", [.register "b", .register "a", .register "b"]⟩]
    [("c", .scalar .null), ("a", .scalar .null)] = ["b", "a", "c"] := by
  decide

theorem mem_operandRegisters {operands : List Operand} {name : String} :
    name ∈ operandRegisters operands ↔ .register name ∈ operands := by
  rw [operandRegisters, List.mem_filterMap]
  constructor
  · rintro ⟨operand, member, same⟩
    cases operand with
    | register other => exact Option.some.inj same ▸ member
    | constant | label | operation => cases same
  · exact fun member => ⟨_, member, rfl⟩

/-- A register is made for a name exactly when the controller has it as a
register operand or a seed is for it. Labels, operations and constants make
none. -/
theorem mem_sessionRegisters {name : String} :
    name ∈ sessionRegisters controller seeds ↔ controller.Mentions name ∨ name ∈ seeds.map Prod.fst := by
  rw [(sessionRegisters_gathers controller seeds).members, sessionMentions, List.mem_append, List.mem_flatMap]
  simp only [mem_operandRegisters, Controller.Mentions]

/-- What registers hold after seeds. -/
def seeded (seeds : List (String × Pointer)) (held : String → Contents) (name : String) : Contents :=
  ((seeds.reverse.lookup name).map Contents.pointer).getD (held name)

theorem seeded_cons (name : String) (value : Pointer) (rest : List (String × Pointer)) (held : String → Contents) :
    seeded ((name, value) :: rest) held = seeded rest (Function.update held name (.pointer value)) := by
  funext other
  rw [seeded, seeded, List.reverse_cons, List.lookup_append]
  cases rest.reverse.lookup other with
  | some later => rfl
  | none =>
    by_cases same : other = name
    · simp [same]
    · simp [List.lookup_cons, Function.update_of_ne same, beq_eq_false_iff_ne.mpr same]

/-- Seeds for registers that are there never fail. Each replaces what the
register held, so of several seeds for one register the last is what remains. -/
theorem seed_holding (nodup : names.Nodup) (listed : ∀ name ∈ seeds.map Prod.fst, name ∈ names)
    (holding : machine.Holding names held) :
    ∃ ready, seed machine seeds = .ok ready ∧ ready.Holding names (seeded seeds held) := by
  induction seeds generalizing machine held with
  | nil => exact ⟨machine, rfl, holding⟩
  | cons first rest ih =>
    obtain ⟨name, value⟩ := first
    rw [List.map_cons, List.forall_mem_cons] at listed
    obtain ⟨machine', set, holding'⟩ := holding.setContents nodup listed.1 (.pointer value)
    obtain ⟨ready, others, holds⟩ := ih listed.2 holding'
    refine ⟨ready, Read.bind_eq_ok_iff.mpr ⟨machine', set, others⟩, ?_⟩
    rwa [seeded_cons]

theorem lookup_reverse_eq_none {name : String} (unseeded : name ∉ seeds.map Prod.fst) :
    seeds.reverse.lookup name = none := by
  refine List.lookup_eq_none_iff.mpr fun entry member => bne_iff_ne.mpr ?_
  rintro rfl
  exact unseeded (List.mem_map_of_mem (List.mem_reverse.mp member))

/-- A seed that none for the same register follows decides what the register
holds. -/
theorem seeded_last {before after : List (String × Pointer)} {name : String} {value : Pointer}
    (last : name ∉ after.map Prod.fst) (held : String → Contents) :
    seeded (before ++ (name, value) :: after) held name = .pointer value := by
  simp [seeded, List.lookup_append, lookup_reverse_eq_none last]

/-- A register that no seed is for holds what it held before. -/
theorem seeded_blank {name : String} (unseeded : name ∉ seeds.map Prod.fst) (held : String → Contents) :
    seeded seeds held name = held name := by
  rw [seeded, lookup_reverse_eq_none unseeded]
  rfl

/-- A machine before its run: it has registers for these names, each of which
holds what the last seed for it says, or nothing where there is none. -/
structure Seeded (seeds : List (String × Pointer)) (names : List String) (machine : Machine) : Prop where
  registers : machine.registerNames = names
  last : ∀ before name value after, seeds = before ++ (name, value) :: after → name ∉ after.map Prod.fst →
    machine.contents name = .ok (.pointer value)
  blank : ∀ name ∈ names, name ∉ seeds.map Prod.fst → machine.contents name = .ok .unassigned

/-- The registers of a session are its own affair: whatever the controller and
the seeds are, it makes each of them once and finds it again. -/
structure Prepares (controller : Controller) (settings : Settings) (seeds : List (String × Pointer)) : Prop where
  nodup : (sessionRegisters controller seeds).Nodup
  listed : ∀ name, name ∈ sessionRegisters controller seeds ↔ controller.Mentions name ∨ name ∈ seeds.map Prod.fst
  ordered : (sessionRegisters controller seeds).Pairwise fun earlier later =>
    (sessionMentions controller seeds).idxOf earlier < (sessionMentions controller seeds).idxOf later
  /-- Where no machine can be made, the controller cannot be assembled, for a
  mistake that is not about registers. -/
  faulty : ∀ cause, Machine.make (sessionRegisters controller seeds) [] controller = .error cause →
    controllerMachine controller settings seeds = .error cause ∧
      ∃ fault, controller.assemble (sessionRegisters controller seeds) OperationTable.standard = .error fault ∧
        cause = .machine fault ∧ fault.Intrinsic
  /-- Where one can be made, seeding succeeds. -/
  ready : ∀ made, Machine.make (sessionRegisters controller seeds) [] controller = .ok made →
    ∃ machine, seed (made.configure settings) seeds = .ok machine ∧
      controllerMachine controller settings seeds = .ok machine ∧
      Seeded seeds (sessionRegisters controller seeds) machine

/-- A session never trips over registers of its own making. It makes one for
each name that the controller or a seed mentions, in the order of first
mention, so that none is ever missing or made twice; what is left to go wrong
is in the controller itself, and before the run a register holds what the last
seed for it says, or nothing. -/
theorem controllerMachine_prepares (controller : Controller) (settings : Settings) (seeds : List (String × Pointer)) :
    Prepares controller settings seeds := by
  have gathers := sessionRegisters_gathers controller seeds
  refine {
    nodup := gathers.nodup
    listed := fun name => mem_sessionRegisters
    ordered := gathers.ordered
    faulty := fun cause failed => ⟨?_, ?_⟩
    ready := fun made isMade => ?_ }
  · exact congrArg (· >>= fun machine => seed (machine.configure settings) seeds) failed
  · exact Machine.make_intrinsic gathers.nodup (fun name mentioned => mem_sessionRegisters.mpr (.inl mentioned)) failed
  · -- settings leave the registers alone
    have holding : (made.configure settings).Holding (sessionRegisters controller seeds) fun _ => .unassigned := by
      obtain ⟨_, _, _, _, registers, _⟩ := Machine.make_cases isMade
      exact registers
    have seedsListed : ∀ name ∈ seeds.map Prod.fst, name ∈ sessionRegisters controller seeds := fun name member =>
      mem_sessionRegisters.mpr (.inr member)
    obtain ⟨machine, isSeeded, holds⟩ := seed_holding gathers.nodup seedsListed holding
    refine ⟨machine, isSeeded, Read.bind_eq_ok_iff.mpr ⟨made, isMade, isSeeded⟩, ?_⟩
    refine ⟨holds.registerNames, fun before name value after split last => ?_, fun name listed unseeded => ?_⟩
    · have member : name ∈ seeds.map Prod.fst := by simp [split]
      rw [holds.contents (seedsListed name member), split, seeded_last last]
    · rw [holds.contents listed, seeded_blank unseeded]

end CommandLine

end ExplicitControl
