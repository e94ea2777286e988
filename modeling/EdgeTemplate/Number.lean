import EdgeTemplate.Number.Layout

/-!
# Numbers

A number is an integer or a floating-point number, and it stays what it was read as. Comparison
goes by value: two signed 64-bit integers are compared exactly, and any other pair in the
precision of the floating-point format.
-/
namespace EdgeTemplate

/-- The integers of 64 bits, with or without a sign. -/
abbrev Number.Bounded (n : Int) : Prop :=
  -9223372036854775808 ≤ n ∧ n < 18446744073709551616

inductive Number where
  | int (value : Int) (bounded : Number.Bounded value := by decide)
  | float (value : Binary64)
deriving DecidableEq

namespace Number

/-- The least signed 64-bit integer. -/
def minWord : Int := -9223372036854775808

def maxWord : Int := 9223372036854775807

/-- Whether an integer is a signed 64-bit integer. -/
def fitsWord (n : Int) : Bool :=
  minWord ≤ n && n ≤ maxWord

theorem bounded_of_fitsWord {n : Int} (h : fitsWord n = true) : Bounded n := by
  rw [fitsWord, Bool.and_eq_true, decide_eq_true_iff, decide_eq_true_iff, minWord, maxWord] at h
  exact ⟨h.1, by omega⟩

def ofInt? (n : Int) : Option Number :=
  if h : Bounded n then some (.int n h) else none

/-- An integer, provided that it is a signed 64-bit integer. -/
def word? (n : Int) : Option Int :=
  if fitsWord n then some n else none

theorem fitsWord_of_word? {n word : Int} (h : word? n = some word) : fitsWord word = true := by
  unfold word? at h
  split at h
  · rename_i hfits
    exact Option.some.inj h ▸ hfits
  · cases h

/-- Puts a digit behind an integer of the given sign. Neither the shift by one place nor the
addition may leave the range of signed 64-bit integers. -/
def appendDigit? (negative : Bool) (n : Int) (digit : Char) : Option Int := do
  let shifted ← word? (10 * n)
  let size := digit.toNat - '0'.toNat
  word? (if negative then shifted - size else shifted + size)

/-- Reads digits into a signed 64-bit integer, and fails at the first digit that does not fit. -/
def ofDigits? (negative : Bool) (digits : List Char) : Option Int :=
  digits.foldlM (appendDigit? negative) 0

theorem fitsWord_of_foldlM {negative : Bool} {digits : List Char} {n word : Int}
    (hn : fitsWord n = true) (h : digits.foldlM (appendDigit? negative) n = some word) :
    fitsWord word = true := by
  induction digits generalizing n with
  | nil => exact Option.some.inj h ▸ hn
  | cons digit digits ih =>
    obtain ⟨next, hnext, hrest⟩ := Option.bind_eq_some_iff.mp h
    obtain ⟨shifted, -, hword⟩ := Option.bind_eq_some_iff.mp hnext
    exact ih (fitsWord_of_word? hword) hrest

theorem fitsWord_of_ofDigits? {negative : Bool} {digits : List Char} {word : Int}
    (h : ofDigits? negative digits = some word) : fitsWord word = true :=
  fitsWord_of_foldlM (by decide) h

/-- A natural number rounded to 53 significant bits, and from a tie to the even significand. -/
def roundNat (n : Nat) : Nat :=
  let scale := n.log2 - 52
  roundDiv n (Nat.pow 2 scale) * Nat.pow 2 scale

def roundInt (n : Int) : Int :=
  n.sign * roundNat n.natAbs

/-- The value in units of the floating-point format, rounded to its precision. -/
def units : Number → Int
  | .int n _ => roundInt n * Binary64.unitsPerOne
  | .float x => x.units

def compare (a b : Number) : Ordering :=
  match a, b with
  | .int m _, .int n _ =>
    if fitsWord m && fitsWord n then Ord.compare m n else Ord.compare a.units b.units
  | _, _ => Ord.compare a.units b.units

def isZero : Number → Bool
  | .int n _ => n == 0
  | .float x => x.isZero

/-- Floating-point numbers are written with a point from `0.00001` to below `10 ^ 16` and with a
signed power of ten elsewhere. A whole number ends in `.0` where it has no power. -/
def floatLayout : DecimalLayout where
  leastExponent := -5
  exponentBound := 16
  wholeMark := ['.', '0']
  powerMark := ['e']
  plusMark := ['+']

def writeInt (n : Int) : List Char :=
  if n < 0 then '-' :: Nat.toDigits 10 n.natAbs else Nat.toDigits 10 n.natAbs

/-- Writes a number. The text tells floating-point numbers from integers. -/
def write : Number → List Char
  | .int n _ => writeInt n
  | .float x => floatLayout.write x

end Number

end EdgeTemplate
