import ExplicitControl.Json.Basic
import ExplicitControl.Decimal.Text

namespace ExplicitControl

/-- A value that needs no heap: what primitives compute with and what the
leaves of a program are. -/
inductive Scalar where
  | number (value : Float)
  | bool (value : Bool)
  | string (value : String)
  | null
  | undefined
  deriving Inhabited

namespace Scalar

/-- Equality of scalars as programs see it: numbers compare as doubles, so
NaN differs from itself and the two zeros are equal. -/
def same : Scalar → Scalar → Bool
  | .number x, .number y => x == y
  | .bool a, .bool b => a == b
  | .string s, .string t => s == t
  | .null, .null => true
  | .undefined, .undefined => true
  | _, _ => false

instance : BEq Scalar := ⟨same⟩

/-- The name of the kind of a scalar. -/
def typeName : Scalar → String
  | .number _ => "number"
  | .bool _ => "bool"
  | .string _ => "string"
  | .null => "null"
  | .undefined => "undefined"

/-- The text shown to people. -/
def display : Scalar → String
  | .number x => NumberFormat.plain.text x
  | .bool b => if b then "true" else "false"
  | .string s => s
  | .null => "null"
  | .undefined => "undefined"

/-- Reads a scalar from a document. JSON has no undefined: it is the object
with the single field `undefined`, which is true. -/
def ofJson? : Json → Option Scalar
  | .null => some .null
  | .bool b => some (.bool b)
  | .integer n => some (.number (Float.ofInt n))
  | .number x => some (.number x)
  | .string s => some (.string s)
  | .object [("undefined", .bool true)] => some .undefined
  | .array _ => none
  | .object _ => none

/-- Writes a scalar as a document. NaN and the infinities become null. -/
def toJson : Scalar → Json
  | .number x => if x.isNaN || x.isInf then .null else .number x
  | .bool b => .bool b
  | .string s => .string s
  | .null => .null
  | .undefined => .object [("undefined", .bool true)]

end Scalar

end ExplicitControl
