import ExplicitControl.Pointer
import ExplicitControl.Controller.Text
import ExplicitControl.Json.Printer

namespace ExplicitControl

/-- A value of the wrong kind. -/
inductive ValueError where
  /-- A document that stands for no value. -/
  | invalid (document : Json)
  /-- A text that is no document at all. -/
  | unreadable
  /-- A heap reference where a primitive needs a scalar. -/
  | notScalar (got : Pointer)
  | notPair (got : Pointer)
  | notProgramPair (got : Pointer)

/-- The two heaps. -/
inductive Space where
  | pair
  | program
  deriving DecidableEq

/-- A heap was asked for what it does not have. -/
inductive HeapError where
  /-- No pair lives at the address. -/
  | fault (space : Space) (address limit : Nat)
  /-- Live pairs leave too little room. -/
  | exhausted (capacity live : Nat)
  /-- A slot beyond the end of a region was touched. -/
  | overrun (slot size : Nat)

/-- A primitive refused its operands. -/
inductive OperandError where
  | arity (expected got : Nat)
  | type (expected : String) (got : Scalar)

/-- What is wrong with the operands of an instruction. -/
inductive Malformation where
  | assignTarget
  | assignSource
  | test
  | perform
  | branch
  | goto
  | save
  | restore
  | kind
  deriving DecidableEq

/-- A controller that cannot be assembled, or an instruction that cannot be
carried out. -/
inductive MachineError where
  | unknownLabel (name : String)
  | duplicateLabel (name : String)
  | unknownOperation (name : String)
  | malformed (index : Nat) (instruction : Instruction) (reason : Malformation)
  | unknownRegister (name : String)
  | duplicateRegister (name : String)
  | stackUnderflow (register : String)
  | notLabel (register : String) (got : Contents)
  | notPointer (operation register : String) (got : Contents)
  | notBoolean (operation : String) (got : Pointer)
  | operand (operation : String) (cause : OperandError)
  | programMissing
  | programPresent
  /-- A list or a chain of calls comes back to itself. -/
  | endless (start : Pointer)

/-- A mistake in the program being evaluated. -/
inductive EvalError where
  | unboundName (name : Pointer)
  | useBeforeDeclaration (name : Pointer)
  | assignToConstant (name : Pointer)
  | duplicateDeclaration (name : Pointer)
  | tooMany (expected got : Nat)
  | tooFew (expected got : Nat)
  | unknownExpression (form : Pointer)
  | unknownOperator (operator : Pointer)
  | unknownFunction (value : Pointer)
  | nonBooleanPredicate (value : Pointer)

/-- Every way in which a machine can fail. -/
inductive Error where
  | value (cause : ValueError)
  | heap (cause : HeapError)
  | machine (cause : MachineError)
  | eval (cause : EvalError)

namespace ValueError

/-- The wording of a value error. -/
def message : ValueError → String
  | .invalid document => "invalid value: " ++ document.compact
  | .unreadable => "invalid value: <json>"
  | .notScalar got => got.display ++ " cannot be unwrapped into a scalar"
  | .notPair got => "expected a pair, got " ++ got.display
  | .notProgramPair got => "expected a program pair, got " ++ got.display

end ValueError

/-- The scalar of a pointer. A heap reference has none. -/
def Pointer.toScalar : Pointer → Except ValueError Scalar
  | .scalar value => .ok value
  | other => .error (.notScalar other)

/-- The name of a heap. -/
def Space.display : Space → String
  | .pair => "pair heap"
  | .program => "program heap"

namespace HeapError

/-- The wording of a heap error. -/
def message : HeapError → String
  | .fault space address limit =>
    s!"heap fault: @{address} is outside the {space.display} (limit {limit})"
  | .exhausted capacity live =>
    s!"heap exhausted: {live} live pairs fill the capacity of {capacity}"
  | .overrun slot size => s!"region overrun: slot {slot} of {size}"

end HeapError

namespace OperandError

/-- A scalar with the name of its kind, which may say it all. -/
def describe : Scalar → String
  | .null => "null"
  | .undefined => "undefined"
  | value => value.typeName ++ " " ++ value.toJson.compact

/-- The wording of an operand error. -/
def message : OperandError → String
  | .arity expected got => s!"expected {expected} operand(s), got {got}"
  | .type expected got => "expected " ++ expected ++ ", got " ++ describe got

end OperandError

/-- The wording of what is wrong with an instruction. -/
def Malformation.message : Malformation → String
  | .assignTarget => "assign needs a target register"
  | .assignSource => "assign takes a register, constant, label or operation"
  | .test => "test takes an operation"
  | .perform => "perform takes an operation"
  | .branch => "branch takes a label"
  | .goto => "goto takes a label or a register"
  | .save => "save takes a register"
  | .restore => "restore takes a register"
  | .kind => "unknown instruction kind"

namespace MachineError

/-- The wording of a machine error. -/
def message : MachineError → String
  | .unknownLabel name => "unknown label: " ++ name
  | .duplicateLabel name => "label defined twice: " ++ name
  | .unknownOperation name => "unknown operation: " ++ name
  | .malformed index instruction reason =>
    s!"malformed instruction #{index} " ++ instruction.display ++ ": " ++ reason.message
  | .unknownRegister name => "unknown register: " ++ name
  | .duplicateRegister name => "register already allocated: " ++ name
  | .stackUnderflow register => "empty stack: cannot restore " ++ register
  | .notLabel register got =>
    "register " ++ register ++ " does not hold a label (holds " ++ got.display ++ ")"
  | .notPointer operation register got =>
    "operation " ++ operation ++ ": register " ++ register ++ " does not hold a value (holds "
      ++ got.display ++ ")"
  | .notBoolean operation got =>
    "test operation " ++ operation ++ " returned " ++ got.display ++ ", not a boolean"
  | .operand operation cause => "operation " ++ operation ++ ": " ++ cause.message
  | .programMissing => "no program installed"
  | .programPresent => "a program is already installed"
  | .endless start => "no end can be reached from " ++ start.display

end MachineError

namespace EvalError

/-- The wording of a mistake in a program. -/
def message : EvalError → String
  | .unboundName name => "unbound name: " ++ name.display
  | .useBeforeDeclaration name => "name used before its declaration: " ++ name.display
  | .assignToConstant name => "cannot assign to constant " ++ name.display
  | .duplicateDeclaration name =>
    name.display ++ " is declared more than once in the same scope"
  | .tooMany expected got => s!"too many arguments: expected {expected}, got {got}"
  | .tooFew expected got => s!"too few arguments: expected {expected}, got {got}"
  | .unknownExpression form => "unknown expression type: " ++ form.display
  | .unknownOperator operator => "unknown expression type: boolean_operation " ++ operator.display
  | .unknownFunction value => "unknown function type: " ++ value.display
  | .nonBooleanPredicate value =>
    "conditional predicate is not a boolean: " ++ value.typeName ++ " " ++ value.display

end EvalError

/-- The wording of any error. -/
def Error.message : Error → String
  | .value cause => cause.message
  | .heap cause => cause.message
  | .machine cause => cause.message
  | .eval cause => cause.message

end ExplicitControl
