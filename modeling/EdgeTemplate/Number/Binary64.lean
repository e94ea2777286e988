/-!
# Finite binary floating-point numbers

The finite numbers of the 64-bit binary format, held exactly: a sign, a significand of at most 53
bits and a scale. The unit of the format is `2 ^ -1074`, its least positive number, so a number
stands for the natural number `significand * 2 ^ scale` of units. Arithmetic rounds an exact
quotient of units once, to the nearest number of the format and from a tie to the one with the
even significand.
-/
namespace EdgeTemplate

/-- The quotient rounded to the nearest natural number, and from a tie to the even one. -/
def roundDiv (numerator denominator : Nat) : Nat :=
  let quotient := numerator / denominator
  match compare (2 * (numerator % denominator)) denominator with
  | .lt => quotient
  | .eq => quotient + quotient % 2
  | .gt => quotient + 1

/-- A significand of the full 53 bits is at least `2 ^ 52`. -/
def Binary64.leastFull : Nat := 4503599627370496

/-- A significand and a scale of the format. Only the least scale has significands of fewer than 53
bits. -/
abbrev Binary64.Bounded (significand scale : Nat) : Prop :=
  significand < 2 * Binary64.leastFull ∧ scale ≤ 2045 ∧
    (scale = 0 ∨ Binary64.leastFull ≤ significand)

/-- A finite number of the 64-bit binary format. Equal numbers have equal parts, except for the two
zeros. -/
structure Binary64 where
  negative : Bool
  significand : Nat
  scale : Nat
  bounded : Binary64.Bounded significand scale
deriving DecidableEq

namespace Binary64

def unitsPerOne : Nat := Nat.pow 2 1074

/-- The distance from zero in units. -/
def magnitude (x : Binary64) : Nat :=
  x.significand * Nat.pow 2 x.scale

/-- The value in units. Both zeros are worth zero. -/
def units (x : Binary64) : Int :=
  if x.negative then -(x.magnitude : Int) else x.magnitude

def isZero (x : Binary64) : Bool :=
  x.significand == 0

def zero (negative : Bool) : Binary64 :=
  ⟨negative, 0, 0, by decide⟩

def neg (x : Binary64) : Binary64 :=
  { x with negative := !x.negative }

def ofParts? (negative : Bool) (significand scale : Nat) : Option Binary64 :=
  if h : Bounded significand scale then
    some ⟨negative, significand, scale, h⟩
  else
    none

/-- The number nearest to a quotient of units. There is none beyond the range of the format. -/
def ofUnits? (negative : Bool) (numerator denominator : Nat) : Option Binary64 :=
  let scale := (numerator / denominator).log2 - 52
  let significand := roundDiv numerator (denominator * Nat.pow 2 scale)
  if significand < 2 * leastFull then
    ofParts? negative significand scale
  else
    ofParts? negative leastFull (scale + 1)

def ofDecimal? (negative : Bool) (coefficient : Nat) : Int → Option Binary64
  | .ofNat exponent => ofUnits? negative (coefficient * Nat.pow 10 exponent * unitsPerOne) 1
  | .negSucc exponent => ofUnits? negative (coefficient * unitsPerOne) (Nat.pow 10 (exponent + 1))

def mul? (x y : Binary64) : Option Binary64 :=
  ofUnits? (x.negative != y.negative) (x.magnitude * y.magnitude) unitsPerOne

/-- The quotient, unless it is out of range or the divisor is zero. -/
def div? (x y : Binary64) : Option Binary64 :=
  if y.isZero then none
  else ofUnits? (x.negative != y.negative) (x.magnitude * unitsPerOne) y.magnitude

inductive Decoded where
  | finite (x : Binary64)
  | infinite (negative : Bool)
  | notANumber
deriving DecidableEq

/-- Decodes the interchange format: a sign bit, 11 exponent bits and 52 significand bits. -/
def decode (bits : UInt64) : Decoded :=
  let negative := bits >>> 63 == 1
  let exponent := ((bits >>> 52) &&& 0x7FF).toNat
  let fraction := (bits &&& 0xFFFFFFFFFFFFF).toNat
  let parts :=
    if exponent = 0 then ofParts? negative fraction 0
    else ofParts? negative (leastFull + fraction) (exponent - 1)
  match parts with
  | some x => .finite x
  | none => if fraction = 0 then .infinite negative else .notANumber

end Binary64

end EdgeTemplate
