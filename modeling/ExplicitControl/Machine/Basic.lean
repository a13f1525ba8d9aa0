import ExplicitControl.Machine.Assembler
import ExplicitControl.Operation.Call

namespace ExplicitControl

/-- What can be set before a machine runs: the pairs in each region of its
heap, and whether every instruction is logged. -/
structure Settings where
  heapCapacity : Nat := PairHeap.defaultCapacity
  trace : Bool := false
  deriving DecidableEq, Repr, Inhabited

/-- A register machine: its memory, the assembled controller, the position of
the next instruction, the flag set by tests, whether it logs every
instruction, and how many it has carried out. -/
structure Machine where
  memory : Memory
  code : Array BoundInstruction
  position : Nat
  flag : Bool
  trace : Bool
  executed : Nat
  deriving Inhabited

/-- Counters of one run. -/
structure Statistics where
  instructions : Nat
  pushes : Nat
  maxDepth : Nat
  heap : HeapStatistics
  deriving DecidableEq, Repr

namespace Machine

/-- A machine with the standard operations and nothing else. -/
def empty : Machine where
  memory :=
    { heap := PairHeap.empty PairHeap.defaultCapacity
      program := {}
      registers := #[]
      stack := {}
      operations := OperationTable.standard
      journal := #[] }
  code := #[]
  position := 0
  flag := false
  trace := false
  executed := 0

/-- The names of the registers in the order of allocation, which is also the
order in which a collection visits them. -/
def registerNames (machine : Machine) : List String :=
  machine.memory.registers.toList.map Register.name

/-- Adds a register, which holds nothing yet. -/
def allocateRegister (machine : Machine) (name : String) : Except Error Machine :=
  if (machine.memory.registerIndex? name).isSome then
    .error (.machine (.duplicateRegister name))
  else
    let registers := machine.memory.registers.push ⟨name, .unassigned⟩
    .ok { machine with memory := { machine.memory with registers } }

/-- Adds registers one after the other. -/
def allocateRegisters (machine : Machine) : List String → Except Error Machine
  | [] => .ok machine
  | name :: rest => do (← machine.allocateRegister name).allocateRegisters rest

/-- The index of a register. -/
def registerIndex (machine : Machine) (name : String) : Except Error Nat :=
  match machine.memory.registerIndex? name with
  | some index => .ok index
  | none => .error (.machine (.unknownRegister name))

/-- What a register holds. -/
def contents (machine : Machine) (name : String) : Except Error Contents :=
  return machine.memory.contents (← machine.registerIndex name)

/-- Puts a value into a register. -/
def setContents (machine : Machine) (name : String) (value : Contents) : Except Error Machine := do
  let index ← machine.registerIndex name
  return { machine with memory := machine.memory.setContents index value }

/-- Adds a line to the log. -/
def record (machine : Machine) (event : Event) : Machine :=
  match machine with
  | ⟨memory, code, position, flag, trace, executed⟩ =>
    ⟨memory.record event, code, position, flag, trace, executed⟩

/-- Adds operations. Instructions assembled before keep the ones they have. -/
def installOperations (machine : Machine) (operations : List (String × Operation)) : Machine :=
  let memory := machine.memory
  { machine with memory := { memory with operations := memory.operations.install operations } }

/-- Assembles a controller against the registers and operations there are, and
makes it the one that runs. -/
def installController (machine : Machine) (controller : Controller) : Except Error Machine := do
  match controller.assemble machine.registerNames machine.memory.operations with
  | .ok assembly =>
    let machine := { machine with code := assembly.code }
    return machine.record (.assembled assembly.code.size assembly.labels)
  | .error cause => throw (.machine cause)

/-- Lays a program out on the program heap, once in the life of a machine. -/
def installProgram (machine : Machine) (tree : Tree) : Except Error (Pointer × Machine) :=
  if machine.memory.program.root.isSome then .error (.machine .programPresent)
  else
    let (root, program) := machine.memory.program.install tree
    let machine := { machine with memory := { machine.memory with program } }
    .ok (root, machine.record (.installed program.size))

/-- Gives the pair heap another capacity, which empties it. -/
def resizeHeap (machine : Machine) (capacity : Nat) : Machine :=
  let memory := machine.memory
  { machine with memory := { memory with heap := memory.heap.resize capacity } }

/-- Applies settings. -/
def configure (machine : Machine) (settings : Settings) : Machine :=
  { machine.resizeHeap settings.heapCapacity with trace := settings.trace }

/-- A machine with registers, operations besides the standard ones, and a
controller. -/
def make (registers : List String) (operations : List (String × Operation))
    (controller : Controller) : Except Error Machine := do
  let machine ← empty.allocateRegisters registers
  (machine.installOperations operations).installController controller

/-- The counters of the last run. -/
def statistics (machine : Machine) : Statistics where
  instructions := machine.executed
  pushes := machine.memory.stack.pushes
  maxDepth := machine.memory.stack.maxDepth
  heap := machine.memory.heap.statistics

/-- The lines logged so far, and the machine with an empty log. -/
def takeJournal (machine : Machine) : List Event × Machine :=
  (machine.memory.journal.toList, { machine with memory := { machine.memory with journal := #[] } })

end Machine

end ExplicitControl
