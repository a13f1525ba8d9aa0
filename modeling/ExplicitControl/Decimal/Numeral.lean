namespace ExplicitControl

/-- A written decimal numeral: sign, digits before and after the point, and
the power of ten if one is given. -/
structure Numeral where
  negative : Bool
  whole : List Nat
  fraction : List Nat
  exponent : Option Int

namespace Numeral

/-- The value of a decimal digit. -/
def digit? (c : Char) : Option Nat :=
  if '0' ≤ c ∧ c ≤ '9' then some (c.toNat - '0'.toNat) else none

/-- The longest run of digits at the front, and what follows it. -/
def digits : List Char → List Nat × List Char
  | [] => ([], [])
  | c :: rest =>
    match digit? c with
    | some d =>
      let (ds, rest) := digits rest
      (d :: ds, rest)
    | none => ([], c :: rest)

/-- Digits before the point: at least one, and no zero in front of others. -/
def scanWhole (text : List Char) : Option (List Nat × List Char) :=
  match digits text with
  | ([], _) => none
  | (0 :: _ :: _, _) => none
  | (whole, rest) => some (whole, rest)

/-- The point and the digits after it, of which there is at least one. -/
def scanFraction : List Char → Option (List Nat × List Char)
  | '.' :: text =>
    match digits text with
    | ([], _) => none
    | (fraction, rest) => some (fraction, rest)
  | text => some ([], text)

/-- The number that a list of digits spells. -/
def ofDigits (ds : List Nat) : Nat :=
  ds.foldl (fun n d => n * 10 + d) 0

/-- Takes a sign of either kind off the front; whether it is a minus. -/
def splitSign : List Char → Bool × List Char
  | '-' :: rest => (true, rest)
  | '+' :: rest => (false, rest)
  | text => (false, text)

/-- A power of ten: `e` or `E`, an optional sign and at least one digit. -/
def scanExponent : List Char → Option (Option Int × List Char)
  | mark :: text =>
    if mark = 'e' ∨ mark = 'E' then
      let (negative, text) := splitSign text
      match digits text with
      | ([], _) => none
      | (ds, rest) =>
        let size : Int := ofDigits ds
        some (some (if negative then -size else size), rest)
    else some (none, mark :: text)
  | [] => some (none, [])

/-- Reads a numeral at the front of a text. -/
def scan? (text : List Char) : Option (Numeral × List Char) := do
  let (negative, text) := match text with
    | '-' :: rest => (true, rest)
    | rest => (false, rest)
  let (whole, text) ← scanWhole text
  let (fraction, text) ← scanFraction text
  let (exponent, text) ← scanExponent text
  return ({ negative, whole, fraction, exponent }, text)

/-- Reads a numeral that makes up a whole text. Here the sign may be a plus,
zeros may stand in front, and digits are needed on one side of the point
only. -/
def ofText? (text : List Char) : Option Numeral := do
  let (negative, text) := splitSign text
  let (whole, text) := digits text
  let (fraction, text) := match text with
    | '.' :: rest => digits rest
    | rest => ([], rest)
  let (exponent, text) ← scanExponent text
  if text.isEmpty ∧ ¬(whole ++ fraction).isEmpty then
    return { negative, whole, fraction, exponent }
  else none

/-- Whether the numeral has neither a fraction nor a power of ten. -/
def isWhole (n : Numeral) : Bool :=
  n.fraction.isEmpty && n.exponent.isNone

/-- Gives a magnitude the sign of the numeral. -/
def signed (n : Numeral) (magnitude : Float) : Float :=
  if n.negative then -magnitude else magnitude

/-- The largest number of 64 bits. -/
def wordMax : Nat := (1 <<< 64) - 1

/-- Appends digits to `start` as long as the result fits in 64 bits, and
counts the digits that no longer had room. -/
def absorb (start : Nat) : List Nat → Nat × Nat
  | [] => (start, 0)
  | d :: ds =>
    if start * 10 + d ≤ wordMax then absorb (start * 10 + d) ds else (start, ds.length + 1)

/-- Scales a magnitude by a power of ten in one multiplication or division,
after steps of `10 ^ 308` where the power is below the range of doubles.
Overflow is refused, underflow gives zero. -/
def scale (magnitude : Float) (exponent : Int) : Nat → Option Float
  | 0 => none
  | fuel + 1 =>
    if exponent.natAbs ≤ 308 then
      let power := Float.ofScientific 1 false exponent.natAbs
      if 0 ≤ exponent then
        let scaled := magnitude * power
        if scaled.isInf then none else some scaled
      else some (magnitude / power)
    else if magnitude == 0 then some magnitude
    else if 0 ≤ exponent then none
    else scale (magnitude / Float.ofScientific 1 false 308) (exponent + 308) fuel

/-- Powers of ten from here on are not counted digit by digit. -/
def exponentMax : Nat := (1 <<< 31) - 1

/-- The double a numeral stands for in a document: its leading digits, as
many as fit in 64 bits, scaled by a power of ten. For up to fifteen digits
and moderate powers this is the nearest double; `none` if out of range. -/
def scaled? (n : Numeral) : Option Float :=
  let (whole, dropped) := absorb 0 n.whole
  let (significand, ignored) := absorb whole n.fraction
  let shift : Int := (dropped : Int) - (n.fraction.length - ignored : Nat)
  let exponent := n.exponent.getD 0
  if exponentMax < exponent.natAbs then
    if significand ≠ 0 ∧ 0 ≤ exponent then none else some (n.signed 0.0)
  else
    (scale (Float.ofNat significand) (shift + exponent) (exponentMax + 2)).map n.signed

/-- The double nearest to the numeral. -/
def nearest (n : Numeral) : Float :=
  let mantissa := ofDigits (n.whole ++ n.fraction)
  let exponent := n.exponent.getD 0 - n.fraction.length
  n.signed (Float.ofScientific mantissa (exponent < 0) exponent.natAbs)

end Numeral

/-- Reads a number given as a text of its own: a numeral, not a number or an
infinity, in letters of either case. Numerals are rounded to the nearest
double. -/
def numberOfText? (text : String) : Option Float :=
  let (negative, word) := Numeral.splitSign text.toList
  let word := String.ofList (word.map Char.toLower)
  if word = "nan" then some (0.0 / 0.0)
  else if word = "inf" ∨ word = "infinity" then some ((if negative then -1.0 else 1.0) / 0.0)
  else (Numeral.ofText? text.toList).map Numeral.nearest

end ExplicitControl
