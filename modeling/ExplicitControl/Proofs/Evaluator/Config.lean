import ExplicitControl.Proofs.Evaluator.Listing
import ExplicitControl.Proofs.Machine.Lockstep
import ExplicitControl.Proofs.Memory.Plenty

namespace ExplicitControl.Evaluator

/-- What an evaluation leaves behind it on its way: a register that was saved,
or an expression that was entered, with where to go on after it and the
expression and the environment themselves. -/
inductive Mark where
  | saved (register : Nat) (value : Contents)
  | entered (label : Nat) (exp env : Contents)

/-- What a mark takes up on the stack. -/
def Mark.value? : Mark → Option Contents
  | .saved _ value => some value
  | .entered _ _ _ => none

/-- What the registers hold, the marks that were left, last one first, the
pairs, and the flag. This is the machine of the evaluator with plenty of room:
positions apart, nothing else in it can make a difference. -/
structure Config where
  registers : Nat → Contents
  trail : List Mark
  heap : Cells
  flag : Bool

/-- The stack, its top first. -/
def Config.stack (c : Config) : List Contents :=
  c.trail.filterMap Mark.value?

/-- Registers, one of which holds something else. -/
def write (registers : Nat → Contents) (target : Nat) (value : Contents) : Nat → Contents := fun index =>
  bif Nat.beq index target then value else registers index

theorem write_self (registers : Nat → Contents) (target : Nat) (value : Contents) :
    write registers target value target = value := by
  simp only [write, Nat.beq_refl, cond_true]

theorem write_of_ne {registers : Nat → Contents} {target index : Nat} {value : Contents}
    (different : index ≠ target) : write registers target value index = registers index := by
  have unequal : Nat.beq index target = false := by
    rw [Bool.eq_false_iff]
    exact fun equal => different (Nat.eq_of_beq_eq_true equal)
  simp only [write, unequal, cond_false]

theorem names_setContents (memory : Memory) (index : Nat) (value : Contents) :
    (memory.setContents index value).registers.toList.map Register.name
      = memory.registers.toList.map Register.name := by
  refine List.ext_getElem? fun k => ?_
  simp only [Memory.setContents, List.getElem?_map, Array.getElem?_toList, Array.getElem?_modify]
  split
  · rw [Option.map_map]
    rfl
  · rfl

theorem contents_setContents {memory : Memory} {index : Nat} (inside : index < memory.registers.size)
    (value : Contents) : (memory.setContents index value).contents = write memory.contents index value := by
  funext k
  simp only [Memory.contents, Memory.setContents, Array.getElem?_modify]
  by_cases same : index = k
  · subst same
    rw [write_self, if_pos rfl, Array.getElem?_eq_getElem inside]
    rfl
  · rw [write_of_ne (Ne.symm same), if_neg same]
    rfl

/-- A machine is at a position of the evaluator, holding what a configuration
says. -/
structure Stands (program : ProgramHeap) (c : Config) (position : Nat) (machine : Machine) : Prop where
  code : machine.code.toList.map BoundInstruction.code = listing
  position : machine.position = position
  flag : machine.flag = c.flag
  names : machine.registerNames = registers
  registers : ∀ index, machine.memory.contents index = c.registers index
  stack : machine.memory.stack.items.toList.reverse = c.stack
  memory : machine.memory.Bears program table c.heap

variable {program : ProgramHeap} {c c' c'' : Config} {position position' position'' : Nat}
  {machine : Machine}

namespace Stands

theorem count (stands : Stands program c position machine) :
    machine.memory.registers.size = Evaluator.registers.length := by
  rw [← stands.names, Machine.registerNames, List.length_map, Array.length_toList]

theorem setContents (stands : Stands program c position machine) {index : Nat}
    (inside : index < Evaluator.registers.length) (value : Contents) :
    Stands program ⟨write c.registers index value, c.trail, c.heap, c.flag⟩ position
      { machine with memory := machine.memory.setContents index value } := by
  refine ⟨stands.code, stands.position, stands.flag, ?_, fun k => ?_, stands.stack,
    stands.memory.heap, stands.memory.program, stands.memory.operations⟩
  · exact (names_setContents _ _ _).trans stands.names
  · rw [contents_setContents (stands.count ▸ inside), funext stands.registers]

theorem withHeap {heap : PairHeap} {cells : Cells} (stands : Stands program c position machine)
    (stores : heap.Stores cells) :
    Stands program ⟨c.registers, c.trail, cells, c.flag⟩ position
      { machine with memory := machine.memory.withHeap heap } :=
  { stands with memory := stands.memory.withHeap stores }

theorem moved (stands : Stands program c position machine) (target : Nat) :
    Stands program c target { machine with position := target } :=
  { stands with position := rfl }

theorem advanced (stands : Stands program c position machine) :
    Stands program c (position + 1) { machine with position := machine.position + 1 } :=
  { stands with position := congrArg (· + 1) stands.position }

theorem pushed (stands : Stands program c position machine) (register : Nat) (value : Contents) :
    Stands program ⟨c.registers, .saved register value :: c.trail, c.heap, c.flag⟩ position
      { machine with memory := { machine.memory with stack := machine.memory.stack.push value } } := by
  refine { stands with stack := ?_, memory := { stands.memory with } }
  simp only [Stack.push, Array.toList_push, List.reverse_append, List.reverse_singleton, stands.stack]
  rfl

theorem popped {register : Nat} {value : Contents} {below : List Mark}
    (stands : Stands program c position machine) (top : c.trail = .saved register value :: below) :
    machine.memory.stack.top? = some value ∧
      Stands program ⟨c.registers, below, c.heap, c.flag⟩ position
        { machine with memory := { machine.memory with stack := machine.memory.stack.pop } } := by
  have items : machine.memory.stack.items.toList = (below.filterMap Mark.value?).reverse ++ [value] := by
    rw [← List.reverse_reverse machine.memory.stack.items.toList, stands.stack, Config.stack, top]
    exact List.reverse_cons
  refine ⟨?_, { stands with stack := ?_, memory := { stands.memory with } }⟩
  · simp only [Stack.top?, ← Array.getLast?_toList, items, List.getLast?_concat]
  · simp only [Stack.pop, Array.toList_pop, items, List.dropLast_concat, List.reverse_reverse]
    rfl

/-- Marks of what was entered take up nothing on the stack. -/
theorem unmarked {label : Nat} {exp env : Contents} {r : Nat → Contents} {trail : List Mark} {heap : Cells}
    {flag : Bool} :
    Stands program ⟨r, .entered label exp env :: trail, heap, flag⟩ position machine ↔
      Stands program ⟨r, trail, heap, flag⟩ position machine :=
  ⟨fun stands => { stands with }, fun stands => { stands with }⟩

theorem record (stands : Stands program c position machine) (event : Event) :
    Stands program c position (machine.record event) :=
  { stands with memory := { stands.memory with } }

end Stands

/-- The instructions from a position on. -/
def Follows (position : Nat) (codes : List Code) : Prop :=
  ∃ rest, listing.drop position = codes ++ rest

theorem Follows.next {code : Code} {codes : List Code} (follows : Follows position (code :: codes)) :
    Follows (position + 1) codes := by
  obtain ⟨rest, dropped⟩ := follows
  refine ⟨rest, ?_⟩
  rw [← List.drop_drop, dropped]
  rfl

theorem Follows.here {code : Code} {codes : List Code} (follows : Follows position (code :: codes)) :
    listing[position]? = some code := by
  obtain ⟨rest, dropped⟩ := follows
  have first := congrArg (·[0]?) dropped
  simpa using first

set_option maxRecDepth 4000 in
/-- Every label is followed by its instructions, which is what the assembled
listing has there. -/
theorem Label.follows (label : Label) : Follows label.position label.code := by
  cases label <;> exact ⟨_, rfl⟩

/-- With room enough a machine that stands at the first place comes to the
second, in so many steps. How much room that is depends on the way and is not
told. -/
def Reaches (program : ProgramHeap) (steps : Nat) (c : Config) (position : Nat) (c' : Config)
    (position' : Nat) : Prop :=
  ∃ bound, ∀ machine, Stands program c position machine → bound ≤ machine.memory.heap.capacity →
    ∃ machine', Stands program c' position' machine' ∧
      machine'.memory.heap.capacity = machine.memory.heap.capacity ∧
      ∀ fuel, machine.runFuel (fuel + steps) = machine'.runFuel fuel

/-- With room enough a machine that stands at a place fails, in so many steps
and for one of some causes. -/
def Fails (program : ProgramHeap) (steps : Nat) (c : Config) (position : Nat) (causes : Error → Prop) :
    Prop :=
  ∃ bound, ∀ machine, Stands program c position machine → bound ≤ machine.memory.heap.capacity →
    ∃ cause machine', causes cause ∧ ∀ fuel, machine.runFuel (fuel + steps) = (.failed cause, machine')

theorem Reaches.refl (program : ProgramHeap) (c : Config) (position : Nat) :
    Reaches program 0 c position c position :=
  ⟨0, fun machine stands _ => ⟨machine, stands, rfl, fun _ => rfl⟩⟩

/-- Where one way ends another may begin, and the steps of the two add up. -/
theorem Reaches.trans {steps steps' : Nat} (first : Reaches program steps c position c' position')
    (next : Reaches program steps' c' position' c'' position'') :
    Reaches program (steps' + steps) c position c'' position'' := by
  obtain ⟨bound, first⟩ := first
  obtain ⟨bound', next⟩ := next
  refine ⟨max bound bound', fun machine stands room => ?_⟩
  obtain ⟨machine', stands', capacity, runs⟩ := first machine stands (le_trans (le_max_left _ _) room)
  obtain ⟨machine'', stands'', capacity', runs'⟩ :=
    next machine' stands' (capacity ▸ le_trans (le_max_right _ _) room)
  refine ⟨machine'', stands'', capacity'.trans capacity, fun fuel => ?_⟩
  rw [← Nat.add_assoc, runs, runs']

theorem Reaches.fails {steps steps' : Nat} {causes : Error → Prop}
    (first : Reaches program steps c position c' position')
    (next : Fails program steps' c' position' causes) :
    Fails program (steps' + steps) c position causes := by
  obtain ⟨bound, first⟩ := first
  obtain ⟨bound', next⟩ := next
  refine ⟨max bound bound', fun machine stands room => ?_⟩
  obtain ⟨machine', stands', capacity, runs⟩ := first machine stands (le_trans (le_max_left _ _) room)
  obtain ⟨cause, machine'', isCause, runs'⟩ :=
    next machine' stands' (capacity ▸ le_trans (le_max_right _ _) room)
  refine ⟨cause, machine'', isCause, fun fuel => ?_⟩
  rw [← Nat.add_assoc, runs, runs']

theorem Stands.current? {code : Code} {codes : List Code} (stands : Stands program c position machine)
    (follows : Follows position (code :: codes)) :
    ∃ instruction, machine.current? = some instruction ∧ instruction.code = code := by
  have here := follows.here
  rw [← stands.code, List.getElem?_map, Array.getElem?_toList, ← stands.position] at here
  exact Option.map_eq_some_iff.mp here

theorem Stands.traced (stands : Stands program c position machine) (instruction : BoundInstruction) :
    Stands program c position (machine.traced instruction) ∧
      (machine.traced instruction).memory.heap.capacity = machine.memory.heap.capacity := by
  unfold Machine.traced
  split
  · exact ⟨stands.record _, rfl⟩
  · exact ⟨stands, rfl⟩

/-- A machine comes to the next place if the instruction that is there leads
to it, from every machine that stands there and has room enough. -/
theorem Reaches.of_execute {code : Code} {codes : List Code} (bound : Nat)
    (follows : Follows position (code :: codes))
    (runs : ∀ machine, Stands program c position machine → bound ≤ machine.memory.heap.capacity →
      ∃ machine', Machine.execute code machine = .ok () machine' ∧
        Stands program c' position' machine' ∧
        machine'.memory.heap.capacity = machine.memory.heap.capacity) :
    Reaches program 1 c position c' position' := by
  refine ⟨bound, fun machine stands room => ?_⟩
  obtain ⟨instruction, found, rfl⟩ := stands.current? follows
  obtain ⟨standsTraced, capacityTraced⟩ := stands.traced instruction
  obtain ⟨machine', executed, stands', capacity⟩ := runs _ standsTraced (room.trans capacityTraced.symm.le)
  refine ⟨machine'.count, { stands' with }, capacity.trans capacityTraced, fun fuel => ?_⟩
  have stepped : machine.step instruction = .ok () machine'.count := by
    rw [Machine.step_eq, executed]
  simp only [Machine.runFuel, found, stepped]

theorem Fails.of_execute {code : Code} {codes : List Code} {causes : Error → Prop}
    (follows : Follows position (code :: codes))
    (runs : ∀ machine, Stands program c position machine →
      ∃ cause machine', Machine.execute code machine = .error cause machine' ∧ causes cause) :
    Fails program 1 c position causes := by
  refine ⟨0, fun machine stands _ => ?_⟩
  obtain ⟨instruction, found, rfl⟩ := stands.current? follows
  obtain ⟨cause, machine', executed, isCause⟩ := runs _ (stands.traced instruction).1
  refine ⟨cause, machine'.record (.halted machine'.position instruction.text cause), isCause, fun fuel => ?_⟩
  have stepped : machine.step instruction
      = .error cause (machine'.record (.halted machine'.position instruction.text cause)) := by
    rw [Machine.step_eq, executed]
  simp only [Machine.runFuel, found, stepped]

end ExplicitControl.Evaluator
