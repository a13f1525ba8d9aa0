import ExplicitControl.Memory.Journal
import ExplicitControl.Operation.Basic
import ExplicitControl.PairHeap.Collector
import ExplicitControl.ProgramHeap

namespace ExplicitControl

/-- A register and what it holds. -/
structure Register where
  name : String
  contents : Contents
  deriving Inhabited

/-- The stack of saved registers, its top last, with the number of pushes and
the greatest depth so far. -/
structure Stack where
  items : Array Contents := #[]
  pushes : Nat := 0
  maxDepth : Nat := 0
  deriving Inhabited

namespace Stack

/-- The number of saved registers. -/
def depth (stack : Stack) : Nat :=
  stack.items.size

/-- Saves a value. -/
def push (stack : Stack) (value : Contents) : Stack :=
  match stack with
  | ⟨items, pushes, maxDepth⟩ =>
    let depth := items.size + 1
    ⟨items.push value, pushes + 1, max maxDepth depth⟩

/-- The value saved last. -/
def top? (stack : Stack) : Option Contents :=
  stack.items.back?

/-- Drops the value saved last. -/
def pop (stack : Stack) : Stack :=
  match stack with
  | ⟨items, pushes, maxDepth⟩ => ⟨items.pop, pushes, maxDepth⟩

/-- Drops every saved value; the counters go on. -/
def clear (stack : Stack) : Stack :=
  { stack with items := #[] }

end Stack

/-- The part of a machine that operations may touch. -/
structure Memory where
  heap : PairHeap
  program : ProgramHeap
  registers : Array Register
  stack : Stack
  operations : OperationTable
  journal : Array Event
  deriving Inhabited

/-- A computation on the memory. When it fails, what it changed by then stays
changed. -/
abbrev Action := EStateM Error Memory

namespace Memory

/-- The head of a pair. -/
def head (memory : Memory) : Pointer → Except Error Pointer
  | .pair address => (memory.heap.head address).mapError .heap
  | other => .error (.value (.notPair other))

/-- The tail of a pair. -/
def tail (memory : Memory) : Pointer → Except Error Pointer
  | .pair address => (memory.heap.tail address).mapError .heap
  | other => .error (.value (.notPair other))

/-- The head of a pair of the program. -/
def programHead (memory : Memory) : Pointer → Except Error Pointer
  | .program address => (memory.program.head address).mapError .heap
  | other => .error (.value (.notProgramPair other))

/-- The tail of a pair of the program. -/
def programTail (memory : Memory) : Pointer → Except Error Pointer
  | .program address => (memory.program.tail address).mapError .heap
  | other => .error (.value (.notProgramPair other))

/-- The register of a name. -/
def registerIndex? (memory : Memory) (name : String) : Option Nat :=
  memory.registers.findIdx? fun register => register.name = name

/-- What the register at an index holds; nothing, if there is none. -/
def contents (memory : Memory) (index : Nat) : Contents :=
  match memory.registers[index]? with
  | some register => register.contents
  | none => .unassigned

/-- The name of the register at an index. -/
def registerName (memory : Memory) (index : Nat) : String :=
  match memory.registers[index]? with
  | some register => register.name
  | none => ""

/-- Puts a value into the register at an index. -/
def setContents (memory : Memory) (index : Nat) (value : Contents) : Memory :=
  match memory with
  | ⟨heap, program, registers, stack, operations, journal⟩ =>
    let registers := registers.modify index fun register => { register with contents := value }
    ⟨heap, program, registers, stack, operations, journal⟩

/-- Adds a line to the log. -/
def record (memory : Memory) (event : Event) : Memory :=
  match memory with
  | ⟨heap, program, registers, stack, operations, journal⟩ =>
    ⟨heap, program, registers, stack, operations, journal.push event⟩

end Memory

namespace Action

/-- Looks something up without changing anything. -/
def inspect {α : Type} (f : Memory → Except Error α) : Action α := fun memory =>
  match f memory with
  | .ok value => .ok value memory
  | .error cause => .error cause memory

/-- A computation on the pair heap. -/
def onHeap {α : Type} (change : EStateM HeapError PairHeap α) : Action α := fun
  | ⟨heap, program, registers, stack, operations, journal⟩ =>
    match change heap with
    | .ok value heap => .ok value ⟨heap, program, registers, stack, operations, journal⟩
    | .error cause heap =>
      .error (.heap cause) ⟨heap, program, registers, stack, operations, journal⟩

/-- Replaces the head of a pair. -/
def setHead (pair value : Pointer) : Action Unit :=
  match pair with
  | .pair address => onHeap (PairHeap.setHead address value)
  | other => throw (.value (.notPair other))

/-- Replaces the tail of a pair. -/
def setTail (pair value : Pointer) : Action Unit :=
  match pair with
  | .pair address => onHeap (PairHeap.setTail address value)
  | other => throw (.value (.notPair other))

/-- Drops every saved value. -/
def clearStack : Action Unit := fun
  | ⟨heap, program, registers, stack, operations, journal⟩ =>
    .ok () ⟨heap, program, registers, stack.clear, operations, journal⟩

end Action

end ExplicitControl
