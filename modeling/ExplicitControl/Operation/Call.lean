import ExplicitControl.Environment
import ExplicitControl.Operation.Primitive

namespace ExplicitControl

/-- What an operation leaves: its result, and its operands where they are
afterwards. -/
structure Applied where
  value : Pointer
  operands : List Pointer

/-- Whether a pointer is of a kind. -/
def PointerKind.test : PointerKind → Pointer → Bool
  | .number, .number _ => true
  | .string, .string _ => true
  | .boolean, .bool _ => true
  | .undefined, .undefined => true
  | .null, .null => true
  | .pair, .pair _ => true
  | .program, .program _ => true
  | _, _ => false

/-- Whether a pointer refers to a pair with a tag at its head. -/
def Tag.test (tag : Tag) (memory : Memory) : Pointer → Except Error Bool
  | .pair address => do
    match ← memory.head (.pair address) with
    | .string text => return text = tag.text
    | _ => return false
  | _ => .ok false

/-- The mistake that a signal reports about its operand. An expression is
shown by its tag where it has one. -/
def Signal.error (memory : Memory) (operand : Pointer) : Signal → EvalError
  | .unboundName => .unboundName operand
  | .useBeforeDeclaration => .useBeforeDeclaration operand
  | .assignToConstant => .assignToConstant operand
  | .unknownExpression =>
    match memory.programHead operand with
    | .ok tag => .unknownExpression tag
    | .error _ => .unknownExpression operand
  | .unknownFunction => .unknownFunction operand
  | .nonBooleanPredicate => .nonBooleanPredicate operand

/-- The truth value that settles a boolean operation by its first operand. -/
def settlingValue (memory : Memory) (expression : Pointer) : Except Error Pointer := do
  let operator ← memory.programItem (← memory.programItem expression 1) 1
  match operator with
  | .string "&&" => return .bool false
  | .string "||" => return .bool true
  | _ => throw (.eval (.unknownOperator operator))

/-- Appends a value to a list in place. The list is answered, or the new pair
if the list is empty. -/
def appendArgument (value list : Pointer) : Action Applied := do
  let moved ← Action.reserve 1 [value, list]
  let list := moved.getD 1 list
  let cell ← Action.allocReserved (moved.getD 0 value) .null
  if list.isNull then return ⟨cell, moved⟩
  let last ← Action.inspect fun memory => memory.lastPair list (memory.heap.free + 1) list
  Action.setTail last cell
  return ⟨list, moved⟩

/-- A count of operands that a called function does not take is a mistake of
the program. -/
def countMistake : Error → Error
  | .machine (.operand _ (.arity expected got)) =>
    .eval (if expected < got then .tooMany expected got else .tooFew expected got)
  | other => other

namespace HeapOperation

/-- What an operation does, those apart that call others. -/
def run (operation : HeapOperation) (operands : List Pointer) : Action Applied :=
  let unmoved (value : Action Pointer) : Action Applied := return ⟨← value, operands⟩
  let read (f : Memory → Except Error Pointer) : Action Applied := unmoved (Action.inspect f)
  match operation, operands with
  | .identical, [a, b] => return ⟨.bool (a == b), operands⟩
  | .different, [a, b] => return ⟨.bool (a != b), operands⟩
  | .isKind kind, [p] => return ⟨.bool (kind.test p), operands⟩
  | .pair, [a, b] => unmoved (Action.allocPair a b)
  | .head, [p] => read fun memory => memory.head p
  | .tail, [p] => read fun memory => memory.tail p
  | .setHead, [p, value] => do
    Action.setHead p value
    return ⟨.undefined, operands⟩
  | .setTail, [p, value] => do
    Action.setTail p value
    return ⟨.undefined, operands⟩
  | .programHead, [p] => read fun memory => memory.programHead p
  | .programTail, [p] => read fun memory => memory.programTail p
  | .programRoot, [] => read fun memory =>
    match memory.program.root with
    | some root => .ok root
    | none => .error (.machine .programMissing)
  | .clearStack, [] => do
    Action.clearStack
    return ⟨.undefined, operands⟩
  | .expressionKind, [p] => read fun memory =>
    match ExpressionKind.classify memory.program p with
    | some kind => .ok (.string kind.text)
    | none => .ok (.string "unknown")
  | .select part, [p] => read fun memory => memory.programItem p part.index
  | .declarationSymbol, [p] => read fun memory => Environment.declarationSymbol memory p
  | .booleanFirst, [p] => read fun memory => do
    memory.programItem (← memory.programItem p 2) 0
  | .booleanSecond, [p] => read fun memory => do
    memory.programItem (← memory.programItem p 2) 1
  | .shortCircuitValue, [p] => read fun memory => settlingValue memory p
  | .globalEnvironment, [] => unmoved Environment.global
  | .extendBlock, [body, environment] => do
    let (extended, moved) ← Environment.extendBlock body environment
    return ⟨extended, moved⟩
  | .extendCall, [function, arguments] => do
    let (extended, moved) ← Environment.extendCall function arguments
    return ⟨extended, moved⟩
  | .makeCompound, [parameters, body, environment] => do
    let moved ← Action.reserve 4 [parameters, body, environment]
    return ⟨← Action.buildList (.string Tag.compound.text :: moved), moved⟩
  | .adjoinArgument, [value, list] => appendArgument value list
  | .isTagged tag, [p] => read fun memory => return .bool (← tag.test memory p)
  | .compoundBody, [p] => read fun memory => memory.item p 2
  | .makeReturn, [value] => do
    let moved ← Action.reserve 1 [value]
    let result ← Action.allocReserved (.string Tag.returnValue.text) (moved.getD 0 value)
    return ⟨result, moved⟩
  | .returnContent, [p] => read fun memory => memory.tail p
  | .signal cause, [p] => read fun memory => .error (.eval (cause.error memory p))
  | operation, operands =>
    throw (.machine (.operand operation.name (.arity operation.arity operands.length)))

end HeapOperation

/-- The scalars of a list of operands. -/
def scalars : List Pointer → Except Error (List Scalar)
  | [] => .ok []
  | operand :: rest => do
    let value ← operand.toScalar.mapError .value
    return value :: (← scalars rest)

/-- Applies a primitive to pointers, all of which must be scalars. -/
def Primitive.call (name : String) (primitive : Primitive) (operands : List Pointer) :
    Except Error Pointer := do
  match primitive.apply (← scalars operands) with
  | .ok value => return .scalar value
  | .error cause => throw (.machine (.operand name cause))

/-- The operation a name stands for. -/
def Action.operation (name : String) : Action Operation :=
  Action.inspect fun memory =>
    match memory.operations.find? name with
    | some operation => .ok operation
    | none => .error (.machine (.unknownOperation name))

/-- Runs a computation and puts its error in other words. -/
def Action.mapError {α : Type} (reword : Error → Error) (action : Action α) : Action α :=
  fun memory =>
    match action memory with
    | .ok value memory => .ok value memory
    | .error cause memory => .error (reword cause) memory

namespace Operation

/-- Applies an operation that was found under a name. A function value may
name the very operation that calls function values, which then calls another
one found in its operands; `fuel` bounds how often this is repeated. -/
def callFuel : (fuel : Nat) → (name : String) → Operation → List Pointer → Action Applied
  | _, name, .primitive p, operands => do
    return ⟨← Action.inspect fun _ => p.call name operands, operands⟩
  | 0, _, .addressAware .applyPrimitive, [function, _] =>
    throw (.machine (.endless function))
  | fuel + 1, _, .addressAware .applyPrimitive, [function, arguments] => do
    let symbol ← Action.inspect fun memory => memory.tail function
    let inputs ← Action.inspect fun memory => memory.items arguments
    let name := symbol.display
    let operation ← Action.operation name
    let applied ← Action.mapError countMistake (callFuel fuel name operation inputs)
    return ⟨applied.value, [function, arguments]⟩
  | _, _, .addressAware operation, operands => operation.run operands

/-- Applies an operation that was found under a name. Function values nested
in one another are pairs of the heap, so that many repetitions suffice. -/
def call (name : String) (operation : Operation) (operands : List Pointer) : Action Applied :=
  fun memory => callFuel (memory.heap.free + 1) name operation operands memory

end Operation

/-- Applies the operation a name stands for. -/
def Action.apply (name : String) (operands : List Pointer) : Action Applied := do
  let operation ← Action.operation name
  operation.call name operands

end ExplicitControl
