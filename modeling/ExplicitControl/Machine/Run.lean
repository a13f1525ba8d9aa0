import ExplicitControl.Machine.Basic

namespace ExplicitControl

/-- How a run ended: with a value, by an error, or not at all within the
number of instructions it was given. -/
inductive Outcome (α : Type) where
  | done (value : α)
  | failed (cause : Error)
  | unfinished

namespace Machine

/-- A computation on a whole machine. When it fails, what it changed by then
stays changed. -/
abbrev Step := EStateM Error Machine

/-- A computation on the memory of a machine. -/
def onMemory {α : Type} (action : Action α) : Step α := fun
  | ⟨memory, code, position, flag, trace, executed⟩ =>
    match action memory with
    | .ok value memory => .ok value ⟨memory, code, position, flag, trace, executed⟩
    | .error cause memory => .error cause ⟨memory, code, position, flag, trace, executed⟩

/-- Goes on at a position. -/
def jump (target : Nat) : Step Unit := fun
  | ⟨memory, code, _, flag, trace, executed⟩ => .ok () ⟨memory, code, target, flag, trace, executed⟩

/-- Goes on with the next instruction. -/
def advance : Step Unit := fun
  | ⟨memory, code, position, flag, trace, executed⟩ =>
    .ok () ⟨memory, code, position + 1, flag, trace, executed⟩

/-- Sets the flag. -/
def setFlag (value : Bool) : Step Unit := fun
  | ⟨memory, code, position, _, trace, executed⟩ =>
    .ok () ⟨memory, code, position, value, trace, executed⟩

/-- The operands of an application, from left to right. A register must hold a
pointer. -/
def operands (memory : Memory) (name : String) : List Input → Except Error (List Pointer)
  | [] => .ok []
  | .constant value :: rest => return value :: (← operands memory name rest)
  | .register index :: rest =>
    match memory.contents index with
    | .pointer value => return value :: (← operands memory name rest)
    | other => .error (.machine (.notPointer name (memory.registerName index) other))

/-- Applies an operation to its inputs. -/
def apply (application : Application) : Action Pointer := do
  let inputs ← Action.inspect fun memory => operands memory application.name application.inputs
  return (← application.operation.call application.name inputs).value

/-- The value of a source. -/
def evaluate : Source → Action Contents
  | .register index => Action.inspect fun memory => .ok (memory.contents index)
  | .constant value => pure (.pointer value)
  | .label position => pure (.label position)
  | .application application => return .pointer (← apply application)

/-- Puts a value into the register at an index. -/
def assign (index : Nat) (value : Contents) : Action Unit := fun memory =>
  .ok () (memory.setContents index value)

/-- Saves the register at an index. -/
def save (index : Nat) : Action Unit := fun memory =>
  let value := memory.contents index
  match memory with
  | ⟨heap, program, registers, stack, operations, journal⟩ =>
    .ok () ⟨heap, program, registers, stack.push value, operations, journal⟩

/-- Takes the value saved last off the stack into the register at an index. -/
def restore (index : Nat) : Action Unit := fun memory =>
  match memory.stack.top? with
  | none => .error (.machine (.stackUnderflow (memory.registerName index))) memory
  | some value =>
    match memory with
    | ⟨heap, program, registers, stack, operations, journal⟩ =>
      assign index value ⟨heap, program, registers, stack.pop, operations, journal⟩

/-- Where a register says to go on. -/
def destination (memory : Memory) (index : Nat) : Except Error Nat :=
  match memory.contents index with
  | .label position => .ok position
  | other => .error (.machine (.notLabel (memory.registerName index) other))

/-- Carries out one instruction. -/
def execute : Code → Step Unit
  | .assign target source => do
    let value ← onMemory (evaluate source)
    onMemory (assign target value)
    advance
  | .test application => do
    match ← onMemory (apply application) with
    | .bool value =>
      setFlag value
      advance
    | other => throw (.machine (.notBoolean application.name other))
  | .branch target => do
    if (← get).flag then jump target else advance
  | .goto target => jump target
  | .gotoRegister index => do
    let target ← onMemory (Action.inspect fun memory => destination memory index)
    jump target
  | .save index => do
    onMemory (save index)
    advance
  | .restore index => do
    onMemory (restore index)
    advance
  | .perform application => do
    let _ ← onMemory (apply application)
    advance

/-- Counts an instruction that was carried out. -/
def count (machine : Machine) : Machine :=
  match machine with
  | ⟨memory, code, position, flag, trace, executed⟩ =>
    ⟨memory, code, position, flag, trace, executed + 1⟩

/-- The instruction at the present position. -/
def current? (machine : Machine) : Option BoundInstruction :=
  machine.code[machine.position]?

/-- Carries out an instruction, logging it first if that is wanted. One that
fails is logged and not counted. -/
def step (instruction : BoundInstruction) (machine : Machine) :
    EStateM.Result Error Machine Unit :=
  let machine :=
    if machine.trace then machine.record (.executing machine.position instruction.text)
    else machine
  match execute instruction.code machine with
  | .ok () machine => .ok () machine.count
  | .error cause machine =>
    .error cause (machine.record (.halted machine.position instruction.text cause))

/-- Carries out instructions, at most `fuel` of them, until the position is
behind the last one. -/
def runFuel : (fuel : Nat) → Machine → Outcome Unit × Machine
  | 0, machine => (.unfinished, machine)
  | fuel + 1, machine =>
    match machine.current? with
    | none =>
      let collections := machine.memory.heap.statistics.collections
      (.done (), machine.record (.finished machine.executed collections))
    | some instruction =>
      match step instruction machine with
      | .ok () machine => runFuel fuel machine
      | .error cause machine => (.failed cause, machine)

/-- A register without its reference to the pair heap, if it holds one. -/
def forgetPair (register : Register) : Register :=
  if register.contents.holdsPair then { register with contents := .unassigned } else register

/-- The machine at the start of a run: the pair heap and the stack are empty,
no register refers to a pair, and everything is counted from zero. -/
def prepare (machine : Machine) : Machine :=
  match machine with
  | ⟨⟨heap, program, registers, _, operations, journal⟩, code, _, _, trace, _⟩ =>
    { memory :=
        { heap := heap.reset
          program := program
          registers := registers.map forgetPair
          stack := {}
          operations := operations
          journal := journal }
      code := code
      position := 0
      flag := false
      trace := trace
      executed := 0 }

/-- Runs the controller from its first instruction, for at most `fuel - 1`
instructions. -/
def start (fuel : Nat) (machine : Machine) : Outcome Unit × Machine :=
  let machine := machine.prepare
  let registers := machine.memory.registers.size
  let capacity := machine.memory.heap.capacity
  let machine := machine.record (.started machine.code.size registers capacity)
  machine.runFuel fuel

end Machine

end ExplicitControl
