import ExplicitControl.Scalar

namespace ExplicitControl

/-- A tagged value as registers, stack slots and heap cells hold it: a scalar,
or the address of a pair in one of the two heaps. -/
inductive Pointer where
  | scalar (value : Scalar)
  | pair (address : Nat)
  | program (address : Nat)

namespace Pointer

/-- The end of every proper list. -/
@[match_pattern]
abbrev null : Pointer := .scalar .null

/-- The value of what has no value. -/
@[match_pattern]
abbrev undefined : Pointer := .scalar .undefined

/-- A truth value. -/
@[match_pattern]
abbrev bool (b : Bool) : Pointer := .scalar (.bool b)

/-- A text. -/
@[match_pattern]
abbrev string (s : String) : Pointer := .scalar (.string s)

/-- A number. -/
@[match_pattern]
abbrev number (x : Float) : Pointer := .scalar (.number x)

instance : Inhabited Pointer := ⟨.undefined⟩

/-- Equality of pointers: pairs are the same only at the same address of the
same heap, and scalars as programs compare them. -/
def same : Pointer → Pointer → Bool
  | .scalar a, .scalar b => a == b
  | .pair a, .pair b => a == b
  | .program a, .program b => a == b
  | _, _ => false

instance : BEq Pointer := ⟨same⟩

/-- The name of the kind of a pointer. -/
def typeName : Pointer → String
  | .scalar s => s.typeName
  | .pair _ => "pair"
  | .program _ => "program"

/-- The text shown to people. Addresses are not followed. -/
def display : Pointer → String
  | .scalar s => s.display
  | .pair a => s!"<pair @{a}>"
  | .program a => s!"<program @{a}>"

/-- Writes a pointer as a document, a heap reference by its address. -/
def toJson : Pointer → Json
  | .scalar s => s.toJson
  | .pair a => .object [("pair", .integer a)]
  | .program a => .object [("program", .integer a)]

/-- The text of a string pointer. -/
def string? : Pointer → Option String
  | .string s => some s
  | _ => none

/-- The address of a reference to the pair heap. -/
def pair? : Pointer → Option Nat
  | .pair a => some a
  | _ => none

/-- The address of a reference to the program heap. -/
def program? : Pointer → Option Nat
  | .program a => some a
  | _ => none

/-- Whether this is the end of a list. -/
def isNull : Pointer → Bool
  | .null => true
  | _ => false

end Pointer

/-- What a register or a stack slot holds: nothing yet, a pointer, or the
position of an instruction to continue at. -/
inductive Contents where
  | unassigned
  | pointer (value : Pointer)
  | label (position : Nat)
  deriving Inhabited

namespace Contents

/-- The text shown to people. -/
def display : Contents → String
  | .unassigned => "*unassigned*"
  | .pointer p => p.display
  | .label position => s!"<label #{position}>"

/-- The pointer held, if it is one. These are what a collection starts from. -/
def pointer? : Contents → Option Pointer
  | .pointer p => some p
  | _ => none

/-- Whether a reference to the pair heap is held. -/
def holdsPair : Contents → Bool
  | .pointer (.pair _) => true
  | _ => false

end Contents

end ExplicitControl
