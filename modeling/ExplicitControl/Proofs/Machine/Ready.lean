import ExplicitControl.Proofs.Machine.Isolation

namespace ExplicitControl

namespace ProgramHeap

/-- No cell refers to a run-time pair. -/
def Laid (cells : Array (Pointer × Pointer)) : Prop :=
  ∀ cell ∈ cells.toList, cell.1.Below 0 ∧ cell.2.Below 0

variable {cells : Array (Pointer × Pointer)} {vacancies : List Vacancy}

/-- Placing a tree lays out references to cells of the program only, never to
run-time pairs. -/
theorem place_laid (tree : Tree) (laid : Laid cells) (vacancies : List Vacancy) :
    (place tree cells vacancies).1.Below 0 ∧ Laid (place tree cells vacancies).2.1 := by
  cases tree with
  | atom value => exact ⟨trivial, laid⟩
  | pair head tail =>
    refine ⟨trivial, ?_⟩
    simp only [place, Laid, Array.toList_push, List.forall_mem_append, List.forall_mem_singleton]
    exact ⟨laid, trivial, trivial⟩

theorem fill_laid (laid : Laid cells) : Laid (fill vacancies cells) := by
  fun_induction fill vacancies cells with
  | case1 cells => exact laid
  | case2 address head tail vacancies cells headPointer cells₁ vacancies₁ headPlaced tailPointer cells₂
      vacancies₂ tailPlaced ih =>
    have first := place_laid head laid vacancies
    rw [headPlaced] at first
    have second := place_laid tail first.2 vacancies₁
    rw [tailPlaced] at second
    refine ih fun cell member => ?_
    rw [Array.toList_setIfInBounds] at member
    rcases List.mem_or_eq_of_mem_set member with old | rfl
    · exact second.2 cell old
    · exact ⟨first.1, second.1⟩

theorem Laid.pairless {root : Option Pointer} (laid : Laid cells)
    (below : ∀ p, root = some p → p.Below 0) : Pairless ⟨cells, root⟩ where
  cells := by
    intro a head tail found
    exact laid _ (Array.mem_toList_iff.mpr (Array.mem_of_getElem? found))
  root := below

theorem Pairless.laid {program : ProgramHeap} (pairless : program.Pairless) : Laid program.cells := by
  rintro ⟨head, tail⟩ member
  obtain ⟨a, found⟩ := List.getElem?_of_mem member
  exact pairless.cells a head tail (by simpa using found)

theorem install_pairless {program : ProgramHeap} (pairless : program.Pairless) (tree : Tree) :
    (program.install tree).2.Pairless := by
  have placed := place_laid tree pairless.laid []
  refine (fill_laid placed.2).pairless ?_
  rintro p ⟨⟩
  exact placed.1

end ProgramHeap

/-- No operation of the evaluator is named like a pair. A function value whose
name is a pair is shown with its address, and if some operation had that text
for its name, an address could decide what is called. -/
theorem unnamed_evaluator (a : Nat) :
    (OperationTable.standard.install OperationTable.evaluator).find? (Pointer.pair a).display = none := by
  have other : ∀ entry ∈ OperationTable.standard.install OperationTable.evaluator,
      entry.1.toList.take 2 ≠ ['<', 'p'] := by decide +kernel
  refine List.lookup_eq_none_iff.mpr fun entry member => ?_
  rw [bne_iff_ne]
  intro same
  refine other entry member ?_
  rw [← same]
  simp only [Pointer.display, String.toList_append]
  rfl

namespace Scope

variable {scope : Scope} {wrong : MachineError}

theorem inputs_pairless {operands : List Operand} {inputs : List Input}
    (bound : scope.inputs wrong operands = .ok inputs) :
    ∀ value, .constant value ∈ inputs → value.Below 0 := by
  induction operands generalizing inputs with
  | nil =>
    cases bound
    simp
  | cons operand rest ih =>
    cases operand with
    | register name =>
      obtain ⟨index, _, bound⟩ := Read.bind_eq_ok_iff.mp bound
      obtain ⟨others, boundRest, same⟩ := Read.bind_eq_ok_iff.mp bound
      cases same
      simpa using ih boundRest
    | constant value =>
      obtain ⟨others, boundRest, same⟩ := Read.bind_eq_ok_iff.mp bound
      cases same
      intro value' member
      rcases List.mem_cons.mp member with same | later
      · cases same
        trivial
      · exact ih boundRest value' later
    | label name => cases bound
    | operation name => cases bound

theorem application_pairless {operands : List Operand} {application : Application}
    (bound : scope.application wrong operands = .ok application) : application.Pairless := by
  unfold Scope.application at bound
  split at bound
  next name rest =>
    obtain ⟨inputs, boundInputs, bound⟩ := Read.bind_eq_ok_iff.mp bound
    obtain ⟨operation, _, same⟩ := Read.bind_eq_ok_iff.mp bound
    cases same
    exact inputs_pairless boundInputs
  next => cases bound

theorem source_pairless {operands : List Operand} {source : Source}
    (bound : scope.source wrong operands = .ok source) : source.Pairless := by
  unfold Scope.source at bound
  split at bound
  next name =>
    obtain ⟨index, _, same⟩ := Read.bind_eq_ok_iff.mp bound
    cases same
    trivial
  next value =>
    cases bound
    trivial
  next name =>
    obtain ⟨position, _, same⟩ := Read.bind_eq_ok_iff.mp bound
    cases same
    trivial
  next name rest =>
    obtain ⟨application, boundApplication, same⟩ := Read.bind_eq_ok_iff.mp bound
    cases same
    exact application_pairless boundApplication
  next => cases bound

/-- Constants are written as scalars, so assembled instructions refer to no
run-time pair. -/
theorem bind_pairless {index : Nat} {text : Instruction} {code : Code}
    (bound : scope.bind index text = .ok code) : code.Pairless := by
  unfold Scope.bind at bound
  split at bound
  · split at bound
    · obtain ⟨target, _, bound⟩ := Read.bind_eq_ok_iff.mp bound
      obtain ⟨source, boundSource, same⟩ := Read.bind_eq_ok_iff.mp bound
      cases same
      exact source_pairless boundSource
    · cases bound
  · obtain ⟨application, boundApplication, same⟩ := Read.bind_eq_ok_iff.mp bound
    cases same
    exact application_pairless boundApplication
  · obtain ⟨application, boundApplication, same⟩ := Read.bind_eq_ok_iff.mp bound
    cases same
    exact application_pairless boundApplication
  -- the other kinds of instruction hold no constants
  all_goals
    first
    | cases bound
    | split at bound <;> first
      | cases bound
      | obtain ⟨found, _, same⟩ := Read.bind_eq_ok_iff.mp bound
        cases same
        trivial

theorem bindAll_pairless {index : Nat} {texts : List Instruction} {code : List BoundInstruction}
    (bound : scope.bindAll index texts = .ok code) : ∀ instruction ∈ code, instruction.code.Pairless := by
  induction texts generalizing index code with
  | nil =>
    cases bound
    simp
  | cons text rest ih =>
    obtain ⟨first, boundFirst, bound⟩ := Read.bind_eq_ok_iff.mp bound
    obtain ⟨others, boundRest, same⟩ := Read.bind_eq_ok_iff.mp bound
    cases same
    exact List.forall_mem_cons.mpr ⟨bind_pairless boundFirst, ih boundRest⟩

end Scope

/-- No assembled instruction has a constant that refers to a run-time pair,
whatever the controller is. -/
theorem Controller.assemble_pairless {controller : Controller} {registers : List String}
    {operations : OperationTable} {assembly : Assembly}
    (assembled : controller.assemble registers operations = .ok assembly) :
    ∀ instruction ∈ assembly.code.toList, instruction.code.Pairless := by
  obtain ⟨labels, _, bound⟩ := Read.bind_eq_ok_iff.mp assembled
  obtain ⟨code, boundCode, same⟩ := Read.bind_eq_ok_iff.mp bound
  cases same
  simpa using Scope.bindAll_pairless boundCode

namespace Machine

/-- A machine made with the standard operations and those of the evaluator,
however it has been set up and used since. Its capacity, its program and its
controller are any, its registers have been set to anything, references to pairs
that never were included, and it may have run before, to an end, to an error or
as far as it was let go. -/
inductive Configured : Machine → Prop
  | made {registers : List String} {controller : Controller} {machine : Machine} :
      make registers OperationTable.evaluator controller = .ok machine → Configured machine
  | settings {machine : Machine} (settings : Settings) :
      Configured machine → Configured (machine.configure settings)
  | installed {machine machine' : Machine} {tree : Tree} {root : Pointer} :
      Configured machine → machine.installProgram tree = .ok (root, machine') → Configured machine'
  | assigned {machine machine' : Machine} {register : String} {value : Contents} :
      Configured machine → machine.setContents register value = .ok machine' → Configured machine'
  | assembled {machine machine' : Machine} {controller : Controller} :
      Configured machine → machine.installController controller = .ok machine' → Configured machine'
  | started {machine : Machine} (fuel : Nat) : Configured machine → Configured (machine.start fuel).2

/-- What a run relies on. The registers, the stack and the pairs of the heap may
be anything, since none of them is kept when it starts. -/
structure Ready (machine : Machine) : Prop where
  heap : machine.memory.heap.Fitted machine.memory.heap.capacity
  program : machine.memory.program.Pairless
  unnamed : ∀ a, machine.memory.operations.find? (Pointer.pair a).display = none
  code : ∀ instruction ∈ machine.code.toList, instruction.code.Pairless

variable {machine left right : Machine}

/-- Registers are found where they are listed, by the first of that name. -/
theorem registerIndex?_eq (machine : Machine) (name : String) :
    machine.memory.registerIndex? name = machine.registerNames.idxOf? name := by
  rw [registerNames, List.idxOf?, List.findIdx?_map, Memory.registerIndex?]
  generalize machine.memory.registers = registers
  obtain ⟨registers⟩ := registers
  rw [List.findIdx?_toArray]
  rfl

/-- Adding registers changes nothing else: the heap, the stack, the program
and the operations are those of the machine before. -/
theorem allocateRegisters_frame {names : List String} {machine' : Machine}
    (allocated : machine.allocateRegisters names = .ok machine') :
    machine'.memory.heap = machine.memory.heap ∧ machine'.memory.program = machine.memory.program ∧
      machine'.memory.operations = machine.memory.operations := by
  induction names generalizing machine with
  | nil =>
    cases allocated
    exact ⟨rfl, rfl, rfl⟩
  | cons name rest ih =>
    obtain ⟨middle, one, others⟩ := Read.bind_eq_ok_iff.mp allocated
    obtain ⟨heap, program, operations⟩ := ih others
    unfold allocateRegister at one
    split at one
    · cases one
    · cases one
      exact ⟨heap, program, operations⟩

/-- New registers come after those there are, and hold nothing. -/
theorem allocateRegisters_registers {names : List String}
    (allocated : machine.allocateRegisters names = .ok machine') :
    machine'.memory.registers.toList
      = machine.memory.registers.toList ++ names.map fun name => ⟨name, .unassigned⟩ := by
  induction names generalizing machine with
  | nil =>
    cases allocated
    exact (List.append_nil _).symm
  | cons name rest ih =>
    obtain ⟨middle, one, others⟩ := Read.bind_eq_ok_iff.mp allocated
    unfold allocateRegister at one
    split at one
    · cases one
    · cases one
      rw [ih others]
      simp

theorem registerNames_allocated {names : List String} (allocated : empty.allocateRegisters names = .ok machine) :
    machine.registerNames = names := by
  rw [registerNames, allocateRegisters_registers allocated, empty, List.nil_append, List.map_map]
  exact List.map_id names

/-- A machine is made with an empty heap, registers that hold nothing, no
program, the operations there are, and the controller assembled. -/
theorem make_cases {names : List String} {operations : List (String × Operation)} {controller : Controller}
    (made : make names operations controller = .ok machine) :
    ∃ assembly, controller.assemble names (OperationTable.standard.install operations) = .ok assembly ∧
      machine.code = assembly.code ∧ machine.memory.heap = PairHeap.empty PairHeap.defaultCapacity ∧
      machine.memory.registers.toList = names.map (fun name => ⟨name, .unassigned⟩) ∧
      machine.memory.program = {} ∧
      machine.memory.operations = OperationTable.standard.install operations := by
  obtain ⟨blank, allocated, installed⟩ := Read.bind_eq_ok_iff.mp made
  obtain ⟨heap, program, table⟩ := allocateRegisters_frame allocated
  have held := allocateRegisters_registers allocated
  have listed : (blank.installOperations operations).registerNames = names :=
    (registerNames_allocated allocated : blank.registerNames = names)
  have table' : (blank.installOperations operations).memory.operations
      = OperationTable.standard.install operations := congrArg (·.install operations) table
  unfold installController at installed
  rw [listed, table'] at installed
  split at installed
  next assembly assembled =>
    cases installed
    exact ⟨assembly, assembled, rfl, heap, held, program, table'⟩
  next => cases installed

/-- A machine as it is made has what a run relies on. -/
theorem make_ready {registers : List String} {controller : Controller}
    (made : make registers OperationTable.evaluator controller = .ok machine) : machine.Ready := by
  obtain ⟨assembly, assembled, code, heap, _, program, operations⟩ := make_cases made
  exact {
    heap := by
      rw [heap]
      exact ⟨rfl, by simp [PairHeap.empty, Region.blank], by simp [PairHeap.empty, Region.blank]⟩
    program := by
      rw [program]
      exact ⟨fun a head tail found => by simp at found, fun p found => by cases found⟩
    unnamed := by
      rw [operations]
      exact unnamed_evaluator
    code := code ▸ Controller.assemble_pairless assembled }

/-- A run leaves a machine with what the next one relies on, whatever else it
leaves behind. -/
theorem Ready.start (ready : machine.Ready) (fuel : Nat) : (machine.start fuel).2.Ready := by
  have built : machine.BuiltAs
      ⟨⟨machine.memory.program, machine.memory.operations, machine.registerNames, machine.memory.heap.capacity⟩,
        machine.code⟩ := ⟨⟨rfl, rfl, rfl⟩, ready.heap, rfl⟩
  have after := built.start fuel
  exact {
    heap := after.heap.holds.symm ▸ after.heap
    program := after.memory.program.symm ▸ ready.program
    unnamed := after.memory.operations.symm ▸ ready.unnamed
    code := after.code.symm ▸ ready.code }

/-- However a machine has been set up and run, it has what the next run relies
on. The induction has one case for each way in which a machine can be
configured. -/
theorem Configured.ready (configured : Configured machine) : machine.Ready := by
  induction configured with
  | made made => exact make_ready made
  | settings settings _ ih =>
    exact { ih with
      heap := ⟨rfl, by simp [configure, resizeHeap, PairHeap.resize, PairHeap.empty, Region.blank],
        by simp [configure, resizeHeap, PairHeap.resize, PairHeap.empty, Region.blank]⟩ }
  | @installed machine machine' tree root _ installed ih =>
    unfold installProgram at installed
    split at installed
    · cases installed
    · cases installed
      exact { ih with program := ProgramHeap.install_pairless ih.program tree }
  | assigned _ assigned ih =>
    obtain ⟨index, _, same⟩ := Read.bind_eq_ok_iff.mp assigned
    cases same
    exact { ih with }
  | assembled _ assembled ih =>
    unfold installController at assembled
    split at assembled
    next assembly isAssembled =>
      cases assembled
      exact { ih with code := Controller.assemble_pairless isAssembled }
    next => cases assembled
  | started fuel _ ih => exact ih.start fuel

theorem forgetPair_below (register : Register) : (forgetPair register).contents.Below 0 := by
  obtain ⟨name, contents⟩ := register
  cases contents with
  | unassigned => trivial
  | label position => trivial
  | pointer p => cases p <;> trivial

/-- At the start of a run nothing refers to a pair, so no reference dangles. -/
theorem Ready.prepare_sound (ready : machine.Ready) : machine.prepare.memory.Sound where
  heap := {
    active := ready.heap.active
    spare := ready.heap.spare
    free := Nat.zero_le _
    closed := fun a inUse => absurd inUse (Nat.not_lt_zero a) }
  registers := by
    intro register member
    simp only [prepare, Array.toList_map, List.mem_map] at member
    obtain ⟨before, _, rfl⟩ := member
    exact forgetPair_below before
  stack := fun saved member => by cases member
  program := ready.program

/-- At the start of a run nothing refers to a pair, so machines that differ
only in their capacity and in pairs that registers held are twins. -/
theorem Ready.prepare_twin (readyLeft : left.Ready) (readyRight : right.Ready)
    (code : left.code = right.code) (program : left.memory.program = right.memory.program)
    (registers : left.prepare.memory.registers = right.prepare.memory.registers)
    (operations : left.memory.operations = right.memory.operations)
    (capacity : left.memory.heap.capacity ≤ right.memory.heap.capacity) :
    Twin (fun _ _ => False) left.prepare right.prepare where
  memory := {
    matched := {
      heap := ⟨⟨fun _ _ _ impossible => impossible.elim, fun _ _ _ impossible => impossible.elim⟩,
        fun _ _ impossible => impossible.elim⟩
      registers := by
        rw [registers]
        refine List.forall₂_same.mpr fun register member => ⟨rfl, ?_⟩
        have below := readyRight.prepare_sound.registers register member
        obtain ⟨name, contents⟩ := register
        cases contents with
        | unassigned => exact .unassigned
        | label position => exact .label position
        | pointer p => exact .pointer (.refl_of_below below)
      stack := .nil
      pushes := rfl
      maxDepth := rfl
      allocated := rfl
      program := program
      operations := operations }
    soundLeft := readyLeft.prepare_sound
    soundRight := readyRight.prepare_sound
    capacity := capacity
    unnamed := readyLeft.unnamed }
  code := code
  pairless := readyLeft.code
  position := rfl
  flag := rfl
  executed := rfl

/-- Two runs end together that start with the same controller, program and
operations, and with registers that agree but for the pairs they held. -/
theorem Ready.start_ends (fuel : Nat) (readyLeft : left.Ready) (readyRight : right.Ready)
    (code : left.code = right.code) (program : left.memory.program = right.memory.program)
    (registers : left.prepare.memory.registers = right.prepare.memory.registers)
    (operations : left.memory.operations = right.memory.operations)
    (capacity : left.memory.heap.capacity ≤ right.memory.heap.capacity) :
    Ends (left.start fuel) (right.start fuel) :=
  runFuel_ends fuel (((readyLeft.prepare_twin readyRight code program registers operations
    capacity).recordLeft _).recordRight _)

/-- A run never follows a dangling reference, be it the first of a machine or a
later one. After any number of instructions that leaves it unfinished, and at
its end, every pair that a register, the stack or a pair in use refers to is in
use and none has been moved away; and a failure is never one of the pair heap,
exhaustion apart. Nothing is assumed of what registers, stack and heap hold
before. -/
theorem start_never_dangles (configured : Configured machine) (fuel : Nat) :
    ((machine.start fuel).1 = .unfinished → (machine.start fuel).2.memory.Sound) ∧
      ((machine.start fuel).1 = .done () → (machine.start fuel).2.memory.Sound) ∧
      ∀ cause, (machine.start fuel).1 = .failed cause → ¬ cause.Dangles := by
  have ready := configured.ready
  have ends := ready.start_ends fuel ready rfl rfl rfl rfl le_rfl
  generalize machine.start fuel = result at ends
  obtain ⟨outcome, state⟩ := result
  cases ends with
  | unfinished twin => exact ⟨fun _ => twin.memory.soundLeft, by simp, by simp⟩
  | done twin => exact ⟨by simp, fun _ => twin.memory.soundLeft, by simp⟩
  | @failed e _ _ _ _ safe _ => exact ⟨by simp, by simp, by rintro _ ⟨⟩; exact safe⟩
  | @exhausted e _ _ exhausts =>
    refine ⟨by simp, by simp, ?_⟩
    rintro _ ⟨⟩ dangles
    cases e with
    | heap cause => cases cause <;> first | exact dangles | exact exhausts
    | _ => exact dangles

/-- A controller that saves a pair and puts new ones that refer to it into a
register over and over. -/
def renewing : Controller :=
  [.assign "kept" [.operation "pair", .constant .null, .constant .null], .save "kept", .label "again",
    .assign "place" [.operation "pair", .register "kept", .register "kept"], .goto (.label "again")]

/-- Whether a run was left in the middle, after so many collections and
allocations, with a pair in each register and as many values on the stack. -/
def leftRenewing (collections allocated depth : Nat) : Outcome Unit × Machine → Bool
  | (.unfinished, machine) =>
    machine.memory.heap.statistics.collections == collections &&
      machine.memory.heap.statistics.allocated == allocated && machine.memory.stack.depth == depth &&
      machine.memory.registers.toList.all fun register => register.contents.holdsPair
  | _ => false

/-- Two runs of one machine, which both collect. Before the first a register
refers to a pair that never was, and before the second the registers and the
stack refer to pairs of the first. -/
theorem start_renewing_never_dangles :
    ∃ made machine : Machine, Configured made ∧ made.setContents "place" (.pointer (.pair 7)) = .ok machine ∧
      leftRenewing 2 5 1 (machine.start 9) ∧ leftRenewing 3 6 1 ((machine.start 9).2.start 11) ∧
      ((machine.start 9).2.start 11).2.memory.Sound := by
  have works : (make ["place", "kept"] OperationTable.evaluator renewing).toOption.any fun made =>
      ((made.configure ⟨3, false⟩).setContents "place" (.pointer (.pair 7))).toOption.any fun machine =>
        leftRenewing 2 5 1 (machine.start 9) && leftRenewing 3 6 1 ((machine.start 9).2.start 11) := by
    decide +kernel
  obtain ⟨made, isMade, works⟩ := Read.exists_of_any works
  obtain ⟨machine, isSet, works⟩ := Read.exists_of_any works
  obtain ⟨first, second⟩ := Bool.and_eq_true_iff.mp works
  have configured : Configured (made.configure ⟨3, false⟩) := .settings _ (.made isMade)
  have safe := start_never_dangles (.started 9 (.assigned configured isSet)) 11
  refine ⟨_, machine, configured, isSet, first, second, safe.1 ?_⟩
  -- a run that was left in the middle is one that was not finished
  revert second
  generalize (machine.start 9).2.start 11 = result
  rcases result with ⟨_ | _ | _, state⟩ <;> simp [leftRenewing]

end Machine

end ExplicitControl
