import ExplicitControl.Decimal.Shortest

namespace ExplicitControl

/-- How a finite double is written: which leading exponents are written
without a power of ten, whether a whole number keeps `.0`, whether the sign
of zero shows, and which of two equally near digit strings is taken. -/
structure NumberFormat where
  positional : Int → Bool
  keepsFraction : Bool
  signedZero : Bool
  tie : Tie

namespace NumberFormat

/-- The number text of JSON: plain from `10 ^ -5` up to below `10 ^ 16`, and
always recognisable as a fraction or a power of ten. -/
def json : NumberFormat where
  positional leading := -5 ≤ leading && leading ≤ 15
  keepsFraction := true
  signedZero := true
  tie := .toEven

/-- The text shown to people: never a power of ten, no empty fraction, and
one zero only. -/
def plain : NumberFormat where
  positional _ := true
  keepsFraction := false
  signedZero := false
  tie := .up

end NumberFormat

namespace Decimal

/-- The exponent of the leading digit. -/
def leading (d : Decimal) : Int :=
  d.exponent + (d.digits.repr.length : Int) - 1

/-- All digits around a decimal point, with zeros as far as needed. -/
def positionalText (d : Decimal) (keepsFraction : Bool) : String :=
  let digits := d.digits.repr
  let zeros (n : Int) := String.ofList (List.replicate n.toNat '0')
  if 0 ≤ d.exponent then
    digits ++ zeros d.exponent ++ (if keepsFraction then ".0" else "")
  else if 0 ≤ d.leading then
    let whole := (d.leading + 1).toNat
    String.ofList (digits.toList.take whole) ++ "." ++ String.ofList (digits.toList.drop whole)
  else
    "0." ++ zeros (-d.leading - 1) ++ digits

/-- One digit before the point and a signed power of ten. -/
def scientificText (d : Decimal) : String :=
  let fraction := match d.digits.repr.toList with
    | [] => ""
    | [first] => String.ofList [first]
    | first :: rest => String.ofList (first :: '.' :: rest)
  let sign := if d.leading < 0 then "-" else "+"
  fraction ++ "e" ++ sign ++ d.leading.natAbs.repr

/-- The text of a positive decimal in a format. -/
def text (format : NumberFormat) (d : Decimal) : String :=
  if format.positional d.leading then d.positionalText format.keepsFraction
  else d.scientificText

end Decimal

namespace NumberFormat

/-- The text of any double. NaN and the infinities are spelled out. -/
def text (format : NumberFormat) (x : Float) : String :=
  if x.isNaN then "NaN"
  else if x.isInf then if x < 0 then "-Infinity" else "Infinity"
  else if x == 0 then
    let zero := if format.keepsFraction then "0.0" else "0"
    if format.signedZero && signBit x then "-" ++ zero else zero
  else
    let magnitude := (Decimal.shortest format.tie x).text format
    if signBit x then "-" ++ magnitude else magnitude

end NumberFormat

end ExplicitControl
