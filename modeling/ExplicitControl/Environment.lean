import ExplicitControl.Expression
import ExplicitControl.Memory.List

namespace ExplicitControl

/-- A name with its value and flag, before it is on the heap, where it is a
pair of the value and the flag: true for a variable, false for a constant, and
null while the declaration has not been reached. -/
structure Binding where
  name : Pointer
  value : Pointer
  flag : Pointer

namespace Binding

/-- A name that may be assigned to. -/
def mutable (name value : Pointer) : Binding := ⟨name, value, .bool true⟩

/-- A name that keeps its value. -/
def constant (name value : Pointer) : Binding := ⟨name, value, .bool false⟩

/-- A name whose declaration has not been reached. -/
def declared (name : Pointer) : Binding := ⟨name, .undefined, .null⟩

end Binding

namespace Environment

/-- The pairs that a frame of `n` names takes, with the link to the enclosing
environment: a binding and two list pairs for each name, and two more. An
environment is a pair of a frame and the enclosing environment, null after the
last one; a frame is a pair of two lists of equal length, names and bindings. -/
def frameSize (n : Nat) : Nat := 3 * n + 2

/-- The functions that every program can call by name. -/
def primitiveNames : List String :=
  ["+", "-", "*", "/", "%", "===", "!==", "<", ">", "<=", ">=", "!"]

/-- The constants that every program can use. -/
def constants : List (String × Pointer) :=
  [("undefined", .undefined), ("NaN", .number (0.0 / 0.0)), ("Infinity", .number (1.0 / 0.0))]

/-- The symbol that a declaration is for: it holds a name, and that the
symbol. -/
def declarationSymbol (memory : Memory) (declaration : Pointer) : Except Error Pointer := do
  memory.programItem (← memory.programItem declaration 1) 1

/-- Adds a symbol to those found so far, unless it is there already. -/
def addSymbol (found : List Pointer) (symbol : Pointer) : Except Error (List Pointer) :=
  if found.contains symbol then .error (.eval (.duplicateDeclaration symbol))
  else .ok (found ++ [symbol])

/-- The statements whose declarations belong to a body: those of a sequence,
or the body itself. -/
def statements (memory : Memory) (body : Pointer) : Except Error (List Pointer) :=
  if ExpressionKind.classify memory.program body = some .sequence then do
    memory.programItems (← memory.programItem body 1)
  else .ok [body]

/-- Whether a statement declares a name. -/
def declares (memory : Memory) (statement : Pointer) : Bool :=
  match ExpressionKind.classify memory.program statement with
  | some kind => kind.isDeclaration
  | none => false

/-- The names declared directly in a body, in order. What is nested deeper
has frames of its own. No name may be declared twice. -/
def declaredNames (memory : Memory) (body : Pointer) : Except Error (List Pointer) := do
  (← statements memory body).foldlM
    (fun found statement =>
      if declares memory statement then do
        addSymbol found (← declarationSymbol memory statement)
      else .ok found)
    []

/-- The names of a list of parameters, which must be different. -/
def parameterNames (memory : Memory) (parameters : Pointer) : Except Error (List Pointer) := do
  (← memory.programItems parameters).foldlM
    (fun found node => do addSymbol found (← memory.programItem node 1))
    []

/-- Allocates the bindings of a frame, first one first. -/
def allocBindings : List Binding → Action (List Pointer)
  | [] => pure []
  | binding :: rest => do
    let cell ← Action.allocReserved binding.value binding.flag
    return cell :: (← allocBindings rest)

/-- Puts a frame before an environment, in room set aside before. -/
def push (bindings : List Binding) (enclosing : Pointer) : Action Pointer := do
  let cells ← allocBindings bindings
  let names ← Action.buildList (bindings.map Binding.name)
  let cells ← Action.buildList cells
  let frame ← Action.allocReserved names cells
  Action.allocReserved frame enclosing

/-- Allocates a function value for each of the given names. -/
def allocPrimitives : List String → Action (List Binding)
  | [] => pure []
  | name :: rest => do
    let function ← Action.allocReserved (.string Tag.primitive.text) (.string name)
    return .constant (.string name) function :: (← allocPrimitives rest)

/-- The environment of every program: its functions and its constants. -/
def global : Action Pointer := do
  let count := primitiveNames.length + constants.length
  let _ ← Action.reserve (primitiveNames.length + frameSize count) []
  let functions ← allocPrimitives primitiveNames
  let rest := constants.map fun (name, value) => Binding.constant (.string name) value
  push (functions ++ rest) .null

/-- Puts a frame for the declarations of a body before an environment.
Answers also where the operands are afterwards. -/
def extendBlock (body environment : Pointer) : Action (Pointer × List Pointer) := do
  let names ← Action.inspect fun memory => declaredNames memory body
  let moved ← Action.reserve (frameSize names.length) [body, environment]
  let extended ← push (names.map Binding.declared) (moved.getD 1 environment)
  return (extended, moved)

/-- Compares the number of arguments with the number of parameters. -/
def checkCount (expected got : Nat) : Except Error Unit :=
  if expected < got then .error (.eval (.tooMany expected got))
  else if got < expected then .error (.eval (.tooFew expected got))
  else .ok ()

/-- The parameters of a function called with a list of arguments, and the
names its body declares besides. -/
def callNames (memory : Memory) (function arguments : Pointer) :
    Except Error (List Pointer × List Pointer) := do
  let parameters ← memory.item function 1
  let body ← memory.item function 2
  let names ← parameterNames memory parameters
  checkCount names.length (← memory.items arguments).length
  let locals := (← declaredNames memory body).filter fun symbol => !names.contains symbol
  return (names, locals)

/-- Puts the frame of a call before the environment of the function. All names
are known before room is set aside; arguments and environment are read only
afterwards, since they may have moved. -/
def extendCall (function arguments : Pointer) : Action (Pointer × List Pointer) := do
  let (names, locals) ← Action.inspect fun memory => callNames memory function arguments
  let moved ← Action.reserve (frameSize (names.length + locals.length)) [function, arguments]
  let values ← Action.inspect fun memory => memory.items (moved.getD 1 arguments)
  let closure ← Action.inspect fun memory => memory.item (moved.getD 0 function) 3
  let bindings := List.zipWith Binding.mutable names values ++ locals.map Binding.declared
  let extended ← push bindings closure
  return (extended, moved)

end Environment

end ExplicitControl
