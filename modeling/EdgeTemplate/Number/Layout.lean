import EdgeTemplate.Number.Shortest

/-!
# Layout of decimals

How the digits of a decimal are set out: with a point among them, or with one digit before the point
and a power of ten. A layout fixes which of the two is used and how the power is written.
-/
namespace EdgeTemplate

/-- The choices left open by the digits of a decimal. -/
structure DecimalLayout where
  /-- The least exponent of the first digit that is written with a point alone. -/
  leastExponent : Int
  /-- The least exponent above those that are written with a point alone. -/
  exponentBound : Int
  /-- What follows the digits of a whole number that is written with a point alone. -/
  wholeMark : List Char
  /-- What stands between the digits and the power of ten. -/
  powerMark : List Char
  /-- What stands before a power that is not negative. -/
  plusMark : List Char

namespace DecimalLayout

/-- Puts the point among the digits, and zeros where digits are missing. -/
def positional (layout : DecimalLayout) (decimal : Decimal) : List Char :=
  match decimal.point with
  | .ofNat whole =>
    let count := decimal.digits.length
    if whole = 0 then ['0', '.'] ++ decimal.digits
    else if whole < count then decimal.digits.take whole ++ '.' :: decimal.digits.drop whole
    else decimal.digits ++ List.replicate (whole - count) '0' ++ layout.wholeMark
  | .negSucc zeros => ['0', '.'] ++ List.replicate (zeros + 1) '0' ++ decimal.digits

/-- Puts the point after the first digit, if others follow, and appends the power of ten. -/
def scientific (layout : DecimalLayout) (decimal : Decimal) : List Char :=
  let exponent := decimal.point - 1
  let sign := if exponent < 0 then ['-'] else layout.plusMark
  let digits :=
    match decimal.digits with
    | first :: second :: rest => first :: '.' :: second :: rest
    | digits => digits
  digits ++ layout.powerMark ++ sign ++ Nat.toDigits 10 exponent.natAbs

/-- Writes a floating-point number with its shortest digits. A zero keeps its sign. -/
def write (layout : DecimalLayout) (x : Binary64) : List Char :=
  let sign := if x.negative then ['-'] else []
  if x.isZero then
    sign ++ '0' :: layout.wholeMark
  else
    let decimal := x.shortest
    let exponent := decimal.point - 1
    if layout.leastExponent ≤ exponent ∧ exponent < layout.exponentBound then
      sign ++ layout.positional decimal
    else
      sign ++ layout.scientific decimal

end DecimalLayout

end EdgeTemplate
