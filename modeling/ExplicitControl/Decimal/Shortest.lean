import ExplicitControl.Decimal.Binary

namespace ExplicitControl

/-- A positive decimal number, `digits · 10 ^ exponent`. -/
structure Decimal where
  digits : Nat
  exponent : Int
  deriving DecidableEq, Repr

/-- Which of two equally near decimals is taken. -/
inductive Tie where
  | toEven
  | up
  deriving DecidableEq, Repr

/-- Picks `below` or its successor, given how the distance from `below`
compares with the distance to the successor. -/
def Tie.choose (tie : Tie) (below : Nat) : Ordering → Nat
  | .lt => below
  | .gt => below + 1
  | .eq => if tie = .up ∨ below % 2 = 1 then below + 1 else below

namespace Decimal

/-- A fraction and the two ends of the interval of numbers that round to it,
all over one denominator. The ends belong to the interval iff `closed`. -/
structure Target where
  numerator : Nat
  low : Nat
  high : Nat
  denominator : Nat
  closed : Bool

/-- The rounding interval of a binary number. Everything is counted in
quarters of its unit, so that both half gaps are whole. -/
def Target.ofBinary (b : Binary) : Target :=
  let up := 1 <<< (b.exponent - 2).toNat
  let down := 1 <<< (2 - b.exponent).toNat
  { numerator := 4 * b.mantissa * up
    low := (4 * b.mantissa - if b.narrowBelow then 1 else 2) * up
    high := (4 * b.mantissa + 2) * up
    denominator := down
    closed := b.mantissa % 2 = 0 }

/-- An exponent that is not below that of the leading decimal digit. The
number is less than two to its bit length, and `30103 / 100000` is the
logarithm of two as far as the exponents of doubles can tell. -/
def coarsest (b : Binary) : Int :=
  (b.exponent + b.mantissa.log2 + 1) * 30103 / 100000 + 1

/-- The point of the grid `10 ^ exponent` that lies in the rounding interval
and is nearest to the target. Only the two neighbours of the target can be. -/
def Target.onGrid? (t : Target) (tie : Tie) (exponent : Int) : Option Nat :=
  let fine := Nat.pow 10 (-exponent).toNat
  let unit := t.denominator * Nat.pow 10 exponent.toNat
  let below := t.numerator * fine / unit
  let rest := t.numerator * fine % unit
  let inside (point : Nat) : Bool :=
    if t.closed then t.low * fine ≤ point && point ≤ t.high * fine
    else t.low * fine < point && point < t.high * fine
  match inside (below * unit), inside ((below + 1) * unit) with
  | true, true => some (tie.choose below (compare (2 * rest) unit))
  | true, false => some below
  | false, true => some (below + 1)
  | false, false => none

/-- Drops trailing zeros of the digits. -/
def trim : Nat → Decimal → Decimal
  | 0, d => d
  | fuel + 1, d =>
    if d.digits ≠ 0 ∧ d.digits % 10 = 0 then trim fuel ⟨d.digits / 10, d.exponent + 1⟩ else d

/-- Tries one grid after the other, from coarse to fine. -/
def search (t : Target) (tie : Tie) : Nat → Int → Decimal
  | 0, exponent => ⟨t.numerator / t.denominator, exponent⟩
  | fuel + 1, exponent =>
    match t.onGrid? tie exponent with
    | some digits => trim 20 ⟨digits, exponent⟩
    | none => search t tie fuel (exponent - 1)

/-- The decimal with the fewest digits that rounds to the given positive
double, and the nearest to it among those. Seventeen digits always suffice. -/
def shortest (tie : Tie) (x : Float) : Decimal :=
  let b := Binary.ofFloat x
  search (Target.ofBinary b) tie 20 (coarsest b)

end Decimal

end ExplicitControl
