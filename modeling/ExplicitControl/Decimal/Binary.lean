namespace ExplicitControl

/-- A positive finite binary number, `mantissa · 2 ^ exponent`. The flag says
that the next smaller number of the format is only half as far away as the
next larger one, which happens exactly at the powers of two. -/
structure Binary where
  mantissa : Nat
  exponent : Int
  narrowBelow : Bool
  deriving DecidableEq, Repr

namespace Binary

/-- Splits the magnitude bits of a double into mantissa and exponent. The
sign bit is ignored; the bits of infinities and NaN are not meaningful here. -/
def ofBits (bits : UInt64) : Binary :=
  let fraction : Nat := bits.toNat % (1 <<< 52)
  let biased : Nat := (bits.toNat >>> 52) % (1 <<< 11)
  if biased = 0 then
    { mantissa := fraction, exponent := -1074, narrowBelow := false }
  else
    { mantissa := fraction + (1 <<< 52), exponent := (biased : Int) - 1075,
      narrowBelow := fraction = 0 && 1 < biased }

/-- The magnitude of a finite double. -/
def ofFloat (x : Float) : Binary :=
  ofBits x.toBits

/-- The double `mantissa · 2 ^ exponent`. No rounding takes place while the
mantissa stays below `2 ^ 53` and the exponent is one of the format. -/
def toFloat (mantissa : Nat) (exponent : Int) : Float :=
  (Float.ofNat mantissa).scaleB exponent

end Binary

/-- Whether the sign bit is set; this is so for `-0.0` as well. -/
def signBit (x : Float) : Bool :=
  (x.toBits.toNat >>> 63) % 2 = 1

/-- The exact remainder of truncating division, with the sign of the
dividend. It is NaN when the dividend is infinite or the divisor is zero. -/
def floatRemainder (x y : Float) : Float :=
  if x.isNaN || y.isNaN || x.isInf || y == 0 then 0.0 / 0.0
  else if y.isInf then x
  else
    let a := Binary.ofFloat x
    let b := Binary.ofFloat y
    let unit := min a.exponent b.exponent
    let dividend := a.mantissa <<< (a.exponent - unit).toNat
    let divisor := b.mantissa <<< (b.exponent - unit).toNat
    let magnitude := Binary.toFloat (dividend % divisor) unit
    if signBit x then -magnitude else magnitude

end ExplicitControl
