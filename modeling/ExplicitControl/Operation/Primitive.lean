import ExplicitControl.Operation.Basic
import ExplicitControl.Error

namespace ExplicitControl.Primitive

/-- The number of a scalar. -/
def number : Scalar → Except OperandError Float
  | .number x => .ok x
  | other => .error (.type "number" other)

/-- Two operands. -/
def two : List Scalar → Except OperandError (Scalar × Scalar)
  | [a, b] => .ok (a, b)
  | operands => .error (.arity 2 operands.length)

/-- A function of two numbers. -/
def arithmetic (f : Float → Float → Float) (operands : List Scalar) :
    Except OperandError Scalar := do
  let (a, b) ← two operands
  return .number (f (← number a) (← number b))

/-- A comparison of two texts, by their characters, or of two numbers. A
comparison with NaN is false. -/
def comparison (texts : String → String → Bool) (numbers : Float → Float → Bool)
    (operands : List Scalar) : Except OperandError Scalar := do
  match ← two operands with
  | (.string s, .string t) => return .bool (texts s t)
  | (a, b) => return .bool (numbers (← number a) (← number b))

/-- Adds numbers and joins texts. The first operand decides which of the two
is expected of the second. -/
def sum (operands : List Scalar) : Except OperandError Scalar := do
  match ← two operands with
  | (.number x, .number y) => return .number (x + y)
  | (.string s, .string t) => return .string (s ++ t)
  | (.number _, other) | (.string _, other) | (other, _) =>
    throw (.type "two numbers or two strings" other)

/-- Subtracts, or negates a single operand. -/
def difference : List Scalar → Except OperandError Scalar
  | [a] => return .number (-(← number a))
  | [a, b] => return .number ((← number a) - (← number b))
  | operands => .error (.arity 2 operands.length)

/-- The other truth value. -/
def negation : List Scalar → Except OperandError Scalar
  | [.bool b] => .ok (.bool !b)
  | [other] => .error (.type "bool" other)
  | operands => .error (.arity 1 operands.length)

/-- What a primitive makes of its operands. -/
def apply : Primitive → List Scalar → Except OperandError Scalar
  | .add => sum
  | .subtract => difference
  | .multiply => arithmetic (· * ·)
  | .divide => arithmetic (· / ·)
  | .remainder => arithmetic floatRemainder
  | .equal => fun operands => do
    let (a, b) ← two operands
    return .bool ((← number a) == (← number b))
  | .less => comparison (fun s t => decide (s < t)) (fun x y => decide (x < y))
  | .greater => comparison (fun s t => decide (t < s)) (fun x y => decide (y < x))
  | .atMost => comparison (fun s t => !decide (t < s)) (fun x y => decide (x ≤ y))
  | .atLeast => comparison (fun s t => !decide (s < t)) (fun x y => decide (y ≤ x))
  | .not => negation

end ExplicitControl.Primitive
