import EdgeTemplate.Number

/-!
# Numerals of JSON

A numeral without point and power is an integer as long as 64 bits hold it; every other numeral is
a floating-point number. The digits are gathered into a 64-bit significand and a power of ten, and
the result is the significand times or divided by that power, each rounded to the format. Whole
digits that the significand cannot take raise the power, and such digits of the fraction are dropped.
-/
namespace EdgeTemplate.Json

/-- The parts of a numeral. The fraction is empty if there is no point. -/
structure Numeral where
  negative : Bool
  whole : List Char
  fraction : List Char
  exponent : Option Int
deriving DecidableEq, Repr

namespace Numeral

def digits? (cs : List Char) : Option (List Char × List Char) :=
  let digits := cs.takeWhile Char.isDigit
  if digits.isEmpty then none else some (digits, cs.dropWhile Char.isDigit)

/-- Reads the digits before the point. A zero is not followed by a digit. -/
def whole? (cs : List Char) : Option (List Char × List Char) :=
  (digits? cs).filter fun parts => parts.1.head? != some '0' || parts.1.length == 1

def fraction? : List Char → Option (List Char × List Char)
  | '.' :: rest => digits? rest
  | rest => some ([], rest)

/-- Reads the power of ten, if there is one. -/
def exponent? : List Char → Option (Option Int × List Char)
  | [] => some (none, [])
  | mark :: rest =>
    if mark = 'e' ∨ mark = 'E' then
      let (negative, unsigned) :=
        match rest with
        | '-' :: unsigned => (true, unsigned)
        | '+' :: unsigned => (false, unsigned)
        | unsigned => (false, unsigned)
      (digits? unsigned).map fun (digits, rest) =>
        let size : Int := Nat.ofDigitChars 10 digits 0
        (some (if negative then -size else size), rest)
    else
      some (none, mark :: rest)

def read? (cs : List Char) : Option (Numeral × List Char) := do
  let (negative, unsigned) :=
    match cs with
    | '-' :: unsigned => (true, unsigned)
    | unsigned => (false, unsigned)
  let (whole, rest) ← whole? unsigned
  let (fraction, rest) ← fraction? rest
  let (exponent, rest) ← exponent? rest
  some ({ negative, whole, fraction, exponent }, rest)

/-- The significand takes 64 bits, so it stays below `2 ^ 64`. -/
def significandBound : Nat := 18446744073709551616

/-- Appends digits to a significand as long as it stays below the bound. The digits from the first
one that does not fit are left over. -/
def gather (significand : Nat) : List Char → Nat × List Char
  | [] => (significand, [])
  | digit :: digits =>
    let next := significand * 10 + (digit.toNat - '0'.toNat)
    if next < significandBound then gather next digits else (significand, digit :: digits)

/-- The powers of ten up to the greatest one in range. -/
def power? (exponent : Nat) : Option Binary64 :=
  if exponent ≤ 308 then Binary64.ofDecimal? false 1 exponent else none

/-- A significand times a power of ten. A product out of range has no value. A divisor out of
range is split in two, and one beyond `10 ^ 616` leaves nothing of any significand. -/
def scale? (significand : Nat) (exponent : Int) : Option Binary64 := do
  let value ← Binary64.ofDecimal? false significand 0
  match exponent with
  | .ofNat exponent =>
    if exponent ≤ 308 then value.mul? (← power? exponent)
    else if significand = 0 then some (.zero false)
    else none
  | .negSucc exponent =>
    let divisor := exponent + 1
    if divisor ≤ 308 then value.div? (← power? divisor)
    else if divisor ≤ 616 then
      (← value.div? (← power? 308)).div? (← power? (divisor - 308))
    else some (.zero false)

def toFloat? (numeral : Numeral) : Option Binary64 := do
  let (significand, beyond) := gather 0 numeral.whole
  let (significand, ignored) := gather significand numeral.fraction
  let places : Int := numeral.fraction.length - ignored.length
  let value ← scale? significand (beyond.length - places + numeral.exponent.getD 0)
  some (if numeral.negative then value.neg else value)

/-- The numeral as an integer, if it has neither point nor power. The integer zero has no sign. -/
def toInt? (numeral : Numeral) : Option Int :=
  let size := Nat.ofDigitChars 10 numeral.whole 0
  if numeral.fraction ≠ [] ∨ numeral.exponent ≠ none then none
  else if numeral.negative then
    if size = 0 then none else some (-(size : Int))
  else
    some size

def toNumber? (numeral : Numeral) : Option Number :=
  match numeral.toInt?.bind Number.ofInt? with
  | some value => some value
  | none => numeral.toFloat?.map .float

end Numeral

end EdgeTemplate.Json
