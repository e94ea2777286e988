import EdgeTemplate.Number.Binary64

/-!
# Shortest decimals

A floating-point number is written with the fewest decimal digits that read back as the same number,
and of the decimals of that length the nearest one is taken.
-/
namespace EdgeTemplate

/-- The decimal `0.d₁d₂…dₙ * 10 ^ point`, without zeros at its end. -/
structure Decimal where
  digits : List Char
  point : Int
deriving DecidableEq, Repr

namespace Decimal

/-- The decimal `coefficient * 10 ^ exponent`. -/
def ofNat (coefficient : Nat) (exponent : Int) : Decimal :=
  let digits := Nat.toDigits 10 coefficient
  { digits := (digits.reverse.dropWhile (· == '0')).reverse
    point := digits.length + exponent }

end Decimal

namespace Binary64

/-- The distance from zero as a quotient of multiples of `10 ^ exponent`. -/
def onGrid (x : Binary64) : Int → Nat × Nat
  | .ofNat exponent => (x.magnitude, unitsPerOne * Nat.pow 10 exponent)
  | .negSucc exponent => (x.magnitude * Nat.pow 10 (exponent + 1), unitsPerOne)

/-- A multiple of `10 ^ exponent` that reads back as the number. Only the two neighbours of the
number on that grid can be such a multiple, and the nearer one is tried first. -/
def multiple? (x : Binary64) (exponent : Int) : Option Nat :=
  let (numerator, denominator) := x.onGrid exponent
  let floor := numerator / denominator
  [roundDiv numerator denominator, floor, floor + 1].find? fun coefficient =>
    ofDecimal? x.negative coefficient exponent == some x

/-- The exponent of the first decimal digit. The least number of the format is above `10 ^ -324`. -/
def leadingExponent (x : Binary64) : Int :=
  let (numerator, denominator) := x.onGrid (-324)
  (Nat.toDigits 10 (numerator / denominator)).length - 325

/-- The shortest decimal that reads back as the number, up to the sign. Seventeen digits always
suffice; the exact expansion completes the definition. -/
def shortest (x : Binary64) : Decimal :=
  let shorter := (List.range 17).findSome? fun (count : Nat) =>
    let exponent := x.leadingExponent - count
    (x.multiple? exponent).map (Decimal.ofNat · exponent)
  shorter.getD (.ofNat (x.magnitude * Nat.pow 5 1074) (-1074))

end Binary64

end EdgeTemplate
