import ExplicitControl.Error
import ExplicitControl.Operation.Basic

namespace ExplicitControl

/-- Where an operation takes an operand from. -/
inductive Input where
  | register (index : Nat)
  | constant (value : Pointer)

/-- An operation with its inputs, and the name it was found under. -/
structure Application where
  name : String
  operation : Operation
  inputs : List Input

/-- Where an assignment takes its value from. -/
inductive Source where
  | register (index : Nat)
  | constant (value : Pointer)
  | label (position : Nat)
  | application (value : Application)

/-- An instruction in which every name has been looked up. -/
inductive Code where
  | assign (target : Nat) (source : Source)
  | test (application : Application)
  | branch (target : Nat)
  | goto (target : Nat)
  | gotoRegister (index : Nat)
  | save (index : Nat)
  | restore (index : Nat)
  | perform (application : Application)

/-- An instruction ready to be carried out, with its written form. -/
structure BoundInstruction where
  text : Instruction
  code : Code

/-- Labels with the position of the instruction that follows. -/
abbrev Labels := List (String × Nat)

/-- What the names in a controller are looked up in: the registers in order,
the operations and the labels. -/
structure Scope where
  registers : List String
  operations : OperationTable
  labels : Labels

/-- The labels of a controller. Several labels in a row share a position, and
one at the end stands behind the last instruction. -/
def labelsFrom (position : Nat) (labels : Labels) : Controller → Except MachineError Labels
  | [] => .ok labels
  | .instruction _ :: rest => labelsFrom (position + 1) labels rest
  | .label name :: rest =>
    if (labels.lookup name).isSome then .error (.duplicateLabel name)
    else labelsFrom position (labels ++ [(name, position)]) rest

namespace Scope

/-- The index of a register. -/
def register (scope : Scope) (name : String) : Except MachineError Nat :=
  match scope.registers.idxOf? name with
  | some index => .ok index
  | none => .error (.unknownRegister name)

/-- The position of a label. -/
def label (scope : Scope) (name : String) : Except MachineError Nat :=
  match scope.labels.lookup name with
  | some position => .ok position
  | none => .error (.unknownLabel name)

/-- The operation of a name. -/
def operation (scope : Scope) (name : String) : Except MachineError Operation :=
  match scope.operations.find? name with
  | some operation => .ok operation
  | none => .error (.unknownOperation name)

/-- The inputs of an operation, which are registers and constants; `wrong` is
the error for anything else. -/
def inputs (scope : Scope) (wrong : MachineError) :
    List Operand → Except MachineError (List Input)
  | [] => .ok []
  | .register name :: rest => do
    let index ← scope.register name
    return .register index :: (← scope.inputs wrong rest)
  | .constant value :: rest => return .constant (.scalar value) :: (← scope.inputs wrong rest)
  | .label _ :: _ => .error wrong
  | .operation _ :: _ => .error wrong

/-- An operation followed by its inputs. The operation is looked up last. -/
def application (scope : Scope) (wrong : MachineError) :
    List Operand → Except MachineError Application
  | .operation name :: rest => do
    let inputs ← scope.inputs wrong rest
    return ⟨name, ← scope.operation name, inputs⟩
  | _ => .error wrong

/-- The source of an assignment. -/
def source (scope : Scope) (wrong : MachineError) : List Operand → Except MachineError Source
  | [.register name] => return .register (← scope.register name)
  | [.constant value] => .ok (.constant (.scalar value))
  | [.label name] => return .label (← scope.label name)
  | .operation name :: rest => return .application (← scope.application wrong (.operation name :: rest))
  | _ => .error wrong

/-- Looks up every name of the instruction at an index. -/
def bind (scope : Scope) (index : Nat) (text : Instruction) : Except MachineError Code :=
  let wrong (reason : Malformation) : MachineError := .malformed index text reason
  match text.kind with
  | "assign" =>
    match text.operands with
    | .register target :: rest => do
      let target ← scope.register target
      return .assign target (← scope.source (wrong .assignSource) rest)
    | _ => .error (wrong .assignTarget)
  | "test" => return .test (← scope.application (wrong .test) text.operands)
  | "perform" => return .perform (← scope.application (wrong .perform) text.operands)
  | "branch" =>
    match text.operands with
    | [.label name] => return .branch (← scope.label name)
    | _ => .error (wrong .branch)
  | "goto" | "go_to" =>
    match text.operands with
    | [.label name] => return .goto (← scope.label name)
    | [.register name] => return .gotoRegister (← scope.register name)
    | _ => .error (wrong .goto)
  | "save" =>
    match text.operands with
    | [.register name] => return .save (← scope.register name)
    | _ => .error (wrong .save)
  | "restore" =>
    match text.operands with
    | [.register name] => return .restore (← scope.register name)
    | _ => .error (wrong .restore)
  | _ => .error (wrong .kind)

/-- Looks up the names of instructions, the first of which is at an index. -/
def bindAll (scope : Scope) (index : Nat) :
    List Instruction → Except MachineError (List BoundInstruction)
  | [] => .ok []
  | text :: rest => do
    let code ← scope.bind index text
    return ⟨text, code⟩ :: (← scope.bindAll (index + 1) rest)

end Scope

/-- An assembled controller and the number of its labels. -/
structure Assembly where
  code : Array BoundInstruction
  labels : Nat

/-- Assembles a controller: labels first, then every instruction in order.
Names are looked up once and for all. -/
def Controller.assemble (controller : Controller) (registers : List String)
    (operations : OperationTable) : Except MachineError Assembly := do
  let labels ← labelsFrom 0 [] controller
  let scope : Scope := { registers, operations, labels }
  let code ← scope.bindAll 0 controller.instructions
  return ⟨code.toArray, labels.length⟩

end ExplicitControl
