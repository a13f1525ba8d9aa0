import ExplicitControl.Expression
import ExplicitControl.Operation.Basic

namespace ExplicitControl.Interpreter

/-- A syntax tree as a direct interpreter reads it, in which every pair knows
its place: the turns that lead to it from the root, the last one first. Two
pairs are the same if they are at the same place, as they are for the machine
if they are at the same address. -/
inductive Node where
  | leaf (value : Scalar)
  | pair (place : List Bool) (head tail : Node)

/-- A tree at a place. -/
def mark (place : List Bool) : Tree → Node
  | .atom value => .leaf value
  | .pair head tail => .pair place (mark (false :: place) head) (mark (true :: place) tail)

/-- What evaluated names refer to: for each name the location of its cell. -/
abbrev Frame := List (Node × Nat)

/-- The functions that every program can call by name. -/
inductive Builtin where
  | identical
  | different
  | scalar (operation : Primitive)
  deriving DecidableEq

/-- What expressions evaluate to. Closures and return values are told apart by
when they were made. -/
inductive Value where
  | scalar (value : Scalar)
  | builtin (function : Builtin)
  | closure (identity : Nat) (parameters body : Node) (environment : List Frame)
  | returned (identity : Nat) (content : Value)

/-- What is wrong with a program. -/
inductive Mistake where
  /-- A part of a form is missing: a pair was expected in its place. -/
  | notPair (got : Scalar)
  | unboundName (name : Node)
  | useBeforeDeclaration (name : Node)
  | assignToConstant (name : Node)
  | duplicateDeclaration (name : Node)
  | tooMany (expected got : Nat)
  | tooFew (expected got : Nat)
  | unknownExpression (tag : Node)
  | unknownOperator (operator : Node)
  | unknownFunction (value : Value)
  | nonBooleanPredicate (value : Value)
  /-- A function on scalars was given something else. -/
  | notScalar (value : Value)
  | operand (function : String) (cause : OperandError)

namespace Node

/-- Leaves are compared as scalars, pairs by their places. -/
def same : Node → Node → Bool
  | .leaf a, .leaf b => a == b
  | .pair p _ _, .pair q _ _ => p == q
  | _, _ => false

instance : BEq Node := ⟨same⟩

/-- Whether this is the end of a list. -/
def isNull : Node → Bool
  | .leaf .null => true
  | _ => false

def head : Node → Except Mistake Node
  | .pair _ head _ => .ok head
  | .leaf value => .error (.notPair value)

def tail : Node → Except Mistake Node
  | .pair _ _ tail => .ok tail
  | .leaf value => .error (.notPair value)

/-- The item at an index of a list. -/
def item (node : Node) : Nat → Except Mistake Node
  | 0 => node.head
  | index + 1 => do (← node.tail).item index

/-- The items of a list. -/
def items : Node → Except Mistake (List Node)
  | .leaf .null => .ok []
  | .leaf value => .error (.notPair value)
  | .pair _ head tail => do return head :: (← tail.items)

/-- The form of an expression. -/
def kind : Node → Option ExpressionKind
  | .leaf _ => some .selfEvaluating
  | .pair _ (.leaf (.string tag)) _ => ExpressionKind.ofTag? tag
  | .pair _ _ _ => none

/-- Whether a statement declares a name. -/
def declares (statement : Node) : Bool :=
  match statement.kind with
  | some kind => kind.isDeclaration
  | none => false

/-- The symbol that a declaration or an assignment is for. -/
def declarationSymbol (declaration : Node) : Except Mistake Node := do
  (← declaration.item 1).item 1

/-- Adds a symbol to those found so far, unless it is there already. -/
def addSymbol (found : List Node) (symbol : Node) : Except Mistake (List Node) :=
  if found.contains symbol then .error (.duplicateDeclaration symbol)
  else .ok (found ++ [symbol])

/-- The statements whose declarations belong to a body. -/
def statements (body : Node) : Except Mistake (List Node) :=
  if body.kind = some .sequence then do (← body.item 1).items else .ok [body]

/-- The names declared directly in a body, in order. -/
def declaredNames (body : Node) : Except Mistake (List Node) := do
  (← body.statements).foldlM
    (fun found statement =>
      if statement.declares then do addSymbol found (← statement.declarationSymbol)
      else .ok found)
    []

/-- The names of a list of parameters, which must be different. -/
def parameterNames (parameters : Node) : Except Mistake (List Node) := do
  (← parameters.items).foldlM (fun found node => do addSymbol found (← node.item 1)) []

/-- The truth value that settles a boolean operation by its first operand. -/
def settlingValue (expression : Node) : Except Mistake Bool := do
  match ← (← expression.item 1).item 1 with
  | .leaf (.string "&&") => return false
  | .leaf (.string "||") => return true
  | operator => throw (.unknownOperator operator)

end Node

/-- Equality as programs see it. -/
def Value.same : Value → Value → Bool
  | .scalar a, .scalar b => a == b
  | .builtin f, .builtin g => f = g
  | .closure m _ _ _, .closure n _ _ _ => m == n
  | .returned m _, .returned n _ => m == n
  | _, _ => false

end ExplicitControl.Interpreter
