import ExplicitControl.Operation.Primitive
import ExplicitControl.Proofs.Interpreter.Syntax

namespace ExplicitControl.Interpreter

/-- Whether a name has been declared yet, and whether it may be assigned to. -/
inductive Flag where
  | uninitialised
  | constant
  | mutable
  deriving DecidableEq

/-- What a name refers to. -/
structure Cell where
  value : Value
  flag : Flag

/-- All cells by location, and how many closures and return values were made. -/
structure Store where
  cells : List Cell := []
  made : Nat := 0

/-- Why there is no value: a mistake, or the interpreter was not let go deep
enough. -/
inductive Halt where
  | mistake (cause : Mistake)
  | unfinished

abbrev Interpretation := EStateM Halt Store

/-- The interpreter itself, as the forms use it on their parts. -/
abbrev Evaluation := Node → List Frame → Interpretation Value

namespace Interpretation

def fail {α : Type} (cause : Mistake) : Interpretation α :=
  throw (.mistake cause)

/-- Reads something off the tree. -/
def read {α : Type} : Except Mistake α → Interpretation α
  | .ok value => pure value
  | .error cause => fail cause

/-- The next identity. -/
def identity : Interpretation Nat := fun store =>
  .ok store.made { store with made := store.made + 1 }

/-- What the cell at a location holds. -/
def cell (location : Nat) : Interpretation Cell := fun store =>
  .ok (store.cells.getD location ⟨.scalar .undefined, .uninitialised⟩) store

def setCell (location : Nat) (cell : Cell) : Interpretation Unit := fun store =>
  .ok () { store with cells := store.cells.set location cell }

/-- Puts a frame of new cells before an environment. -/
def openFrame (bindings : List (Node × Cell)) (environment : List Frame) :
    Interpretation (List Frame) := fun store =>
  let locations := List.range' store.cells.length bindings.length
  .ok ((bindings.map Prod.fst).zip locations :: environment)
    { store with cells := store.cells ++ bindings.map Prod.snd }

end Interpretation

open Interpretation

/-- The location of the first cell for a name, innermost frame first. -/
def find (environment : List Frame) (symbol : Node) : Option Nat :=
  environment.findSome? fun frame => (frame.find? fun entry => entry.1 == symbol).map Prod.snd

def lookup (environment : List Frame) (symbol : Node) : Interpretation Nat :=
  match find environment symbol with
  | some location => pure location
  | none => fail (.unboundName symbol)

/-- A name whose declaration has not been reached. -/
def declared (symbol : Node) : Node × Cell := (symbol, ⟨.scalar .undefined, .uninitialised⟩)

def name (node : Node) (environment : List Frame) : Interpretation Value := do
  let symbol ← read (node.item 1)
  let cell ← cell (← lookup environment symbol)
  if cell.flag = .uninitialised then fail (.useBeforeDeclaration symbol) else return cell.value

def declaration (flag : Flag) (evaluate : Evaluation) (node : Node) (environment : List Frame) :
    Interpretation Value := do
  let value ← evaluate (← read (node.item 2)) environment
  let symbol ← read node.declarationSymbol
  setCell (← lookup environment symbol) ⟨value, flag⟩
  return .scalar .undefined

def assignment (evaluate : Evaluation) (node : Node) (environment : List Frame) :
    Interpretation Value := do
  let value ← evaluate (← read (node.item 2)) environment
  let symbol ← read node.declarationSymbol
  let location ← lookup environment symbol
  match (← cell location).flag with
  | .uninitialised => fail (.useBeforeDeclaration symbol)
  | .constant => fail (.assignToConstant symbol)
  | .mutable =>
    setCell location ⟨value, .mutable⟩
    return value

/-- The truth value that a predicate must give. -/
def truth : Value → Interpretation Bool
  | .scalar (.bool b) => pure b
  | value => fail (.nonBooleanPredicate value)

def conditional (evaluate : Evaluation) (node : Node) (environment : List Frame) :
    Interpretation Value := do
  let chosen ← truth (← evaluate (← read (node.item 1)) environment)
  evaluate (← read (node.item (if chosen then 2 else 3))) environment

def booleanOperation (evaluate : Evaluation) (node : Node) (environment : List Frame) :
    Interpretation Value := do
  let operand ← read (do (← node.item 2).item 0)
  let first ← truth (← evaluate operand environment)
  let settling ← read node.settlingValue
  if first = settling then return .scalar (.bool first)
  else evaluate (← read (do (← node.item 2).item 1)) environment

def functionDefinition (node : Node) (environment : List Frame) : Interpretation Value := do
  let parameters ← read (node.item 1)
  let body ← read (node.item 2)
  return .closure (← identity) parameters body environment

def block (evaluate : Evaluation) (node : Node) (environment : List Frame) :
    Interpretation Value := do
  let body ← read (node.item 1)
  let names ← read body.declaredNames
  evaluate body (← openFrame (names.map declared) environment)

def returnStatement (evaluate : Evaluation) (node : Node) (environment : List Frame) :
    Interpretation Value := do
  let content ← evaluate (← read (node.item 1)) environment
  return .returned (← identity) content

/-- Statements from left to right. A return value ends them early. -/
def statements (evaluate : Evaluation) (environment : List Frame) : Node → Interpretation Value
  | .leaf value => fail (.notPair value)
  | .pair _ first rest =>
    if rest.isNull then evaluate first environment
    else do
      match ← evaluate first environment with
      | .returned identity content => return .returned identity content
      | _ => statements evaluate environment rest

def sequence (evaluate : Evaluation) (node : Node) (environment : List Frame) :
    Interpretation Value := do
  let list ← read (node.item 1)
  if list.isNull then return .scalar .undefined else statements evaluate environment list

/-- The values of arguments, from left to right. -/
def arguments (evaluate : Evaluation) (environment : List Frame) : Node → Interpretation (List Value)
  | .leaf value => fail (.notPair value)
  | .pair _ first rest => do
    let value ← evaluate first environment
    if rest.isNull then return [value]
    else return value :: (← arguments evaluate environment rest)

/-- A wrong number of arguments. -/
def checkCount (expected got : Nat) : Except Mistake Unit :=
  if expected < got then .error (.tooMany expected got)
  else if got < expected then .error (.tooFew expected got)
  else .ok ()

/-- The scalars among values that must all be scalars. -/
def scalars : List Value → Except Mistake (List Scalar)
  | [] => .ok []
  | .scalar value :: rest => return value :: (← scalars rest)
  | other :: _ => .error (.notScalar other)

namespace Builtin

/-- The name a program calls a function by. -/
def name : Builtin → String
  | .identical => "==="
  | .different => "!=="
  | .scalar .add => "+"
  | .scalar .subtract => "-"
  | .scalar .multiply => "*"
  | .scalar .divide => "/"
  | .scalar .remainder => "%"
  | .scalar .equal => "="
  | .scalar .less => "<"
  | .scalar .greater => ">"
  | .scalar .atMost => "<="
  | .scalar .atLeast => ">="
  | .scalar .not => "!"

/-- A wrong number of operands is told like a wrong number of arguments. -/
def complaint (function : Builtin) : OperandError → Mistake
  | .arity expected got => if expected < got then .tooMany expected got else .tooFew expected got
  | cause => .operand function.name cause

/-- What a function makes of its arguments. -/
def apply : Builtin → List Value → Except Mistake Value
  | .identical, [a, b] => .ok (.scalar (.bool (a.same b)))
  | .different, [a, b] => .ok (.scalar (.bool !(a.same b)))
  | .scalar operation, values => do
    match operation.apply (← scalars values) with
    | .ok value => return .scalar value
    | .error cause => throw ((Builtin.scalar operation).complaint cause)
  | function, values => .error (function.complaint (.arity 2 values.length))

end Builtin

/-- The parameters of a function called with so many arguments, and the names
its body declares besides. -/
def callNames (parameters body : Node) (got : Nat) : Except Mistake (List Node × List Node) := do
  let names ← parameters.parameterNames
  checkCount names.length got
  let locals := (← body.declaredNames).filter fun symbol => !names.contains symbol
  return (names, locals)

def call (evaluate : Evaluation) : Value → List Value → Interpretation Value
  | .builtin function, values => read (function.apply values)
  | .closure _ parameters body environment, values => do
    let (names, locals) ← read (callNames parameters body values.length)
    let given := List.zipWith (fun symbol value => (symbol, (⟨value, .mutable⟩ : Cell))) names values
    match ← evaluate body (← openFrame (given ++ locals.map declared) environment) with
    | .returned _ content => return content
    | _ => return .scalar .undefined
  | other, _ => fail (.unknownFunction other)

def application (evaluate : Evaluation) (node : Node) (environment : List Frame) :
    Interpretation Value := do
  let list ← read (node.item 2)
  let function ← evaluate (← read (node.item 1)) environment
  let values ← if list.isNull then pure [] else arguments evaluate environment list
  call evaluate function values

/-- An expression, given how its parts are evaluated. -/
def expression (evaluate : Evaluation) (node : Node) (environment : List Frame) :
    Interpretation Value :=
  match node, node.kind with
  | .leaf value, _ => return .scalar value
  | .pair _ tag _, none => fail (.unknownExpression tag)
  | .pair _ tag _, some .selfEvaluating => fail (.unknownExpression tag)
  | node, some .name => name node environment
  | node, some .constantDeclaration => declaration .constant evaluate node environment
  | node, some .variableDeclaration => declaration .mutable evaluate node environment
  | node, some .assignment => assignment evaluate node environment
  | node, some .conditional => conditional evaluate node environment
  | node, some .functionDefinition => functionDefinition node environment
  | node, some .sequence => sequence evaluate node environment
  | node, some .application => application evaluate node environment
  | node, some .returnStatement => returnStatement evaluate node environment
  | node, some .block => block evaluate node environment
  | node, some .booleanOperation => booleanOperation evaluate node environment

/-- Evaluates an expression, going at most `fuel` expressions deep. The
interpreter follows the syntax tree by recursion, with an environment of
frames and a store of cells: nothing is ever collected, and there is no stack. -/
def eval : (fuel : Nat) → Evaluation
  | 0, _, _ => throw .unfinished
  | fuel + 1, node, environment => expression (eval fuel) node environment

/-- The functions of every program, in order. -/
def builtins : List Builtin :=
  [.scalar .add, .scalar .subtract, .scalar .multiply, .scalar .divide, .scalar .remainder,
    .identical, .different, .scalar .less, .scalar .greater, .scalar .atMost, .scalar .atLeast,
    .scalar .not]

/-- The constants of every program, in order. -/
def constants : List (String × Scalar) :=
  [("undefined", .undefined), ("NaN", .number (0.0 / 0.0)), ("Infinity", .number (1.0 / 0.0))]

/-- The names that every program can use. -/
def globals : List (Node × Cell) :=
  builtins.map (fun function => (.leaf (.string function.name), ⟨.builtin function, .constant⟩))
    ++ constants.map fun constant => (.leaf (.string constant.1), ⟨.scalar constant.2, .constant⟩)

/-- A whole program: its declarations open a frame inside the first one, and a
return at its top ends it. -/
def program (evaluate : Evaluation) (root : Node) : Interpretation Value := do
  let first ← openFrame globals []
  let names ← read root.declaredNames
  match ← evaluate root (← openFrame (names.map declared) first) with
  | .returned _ content => return content
  | value => return value

/-- Interprets a program, going at most `fuel` expressions deep. -/
def run (fuel : Nat) (tree : Tree) : EStateM.Result Halt Store Value :=
  program (eval fuel) (mark [] tree) {}

end ExplicitControl.Interpreter
