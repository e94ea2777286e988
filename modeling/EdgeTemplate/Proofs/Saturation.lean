import EdgeTemplate.Proofs.Grammar
import EdgeTemplate.Request.Signals

/-!
# Integers at the start of a text

Digits are read into 64 bits one after another, and reading fails at the first digit that does not
fit. Every further digit leads further away from zero, so reading fails exactly if the number that
all the digits stand for is out of range, and its sign alone tells on which side it is. The integer
at the start of a text is therefore the exact value of its digits, clamped to the range.
-/
namespace EdgeTemplate

namespace Number

/-- The integer of the given size on one side of zero. -/
def withSign : Bool → Nat → Int
  | true, size => -size
  | false, size => size

/-- The greatest size of a signed 64-bit integer on each side of zero. -/
def maxSize : Bool → Nat
  | true => 9223372036854775808
  | false => 9223372036854775807

/-- The signed 64-bit integer that is nearest to an integer. -/
def clamp (n : Int) : Int :=
  max minWord (min maxWord n)

variable {negative : Bool} {size : Nat}

theorem fitsWord_withSign_iff :
    fitsWord (withSign negative size) = true ↔ size ≤ maxSize negative := by
  rw [fitsWord, Bool.and_eq_true, decide_eq_true_iff, decide_eq_true_iff, minWord, maxWord]
  cases negative <;> simp only [withSign, maxSize] <;> omega

theorem word?_of_le (h : size ≤ maxSize negative) :
    word? (withSign negative size) = some (withSign negative size) :=
  if_pos (fitsWord_withSign_iff.mpr h)

theorem word?_of_lt (h : maxSize negative < size) : word? (withSign negative size) = none :=
  if_neg fun hfits => Nat.not_le.mpr h (fitsWord_withSign_iff.mp hfits)

/-! ### Digits -/

theorem mul_withSign (negative : Bool) (size : Nat) :
    10 * withSign negative size = withSign negative (10 * size) := by
  cases negative <;> simp only [withSign] <;> omega

theorem withSign_add (negative : Bool) (size digit : Nat) :
    (if negative then withSign negative size - digit else withSign negative size + digit) =
      withSign negative (size + digit) := by
  cases negative <;> simp only [withSign, Bool.false_eq_true, if_true, if_false] <;> omega

theorem signed_eq_withSign (negative : Bool) (digits : List Char) :
    Condition.signed negative digits = withSign negative (Nat.ofDigitChars 10 digits 0) := by
  cases negative <;> rfl

/-- The shift never fails alone: the digit only makes the number larger. -/
theorem appendDigit?_withSign (digit : Char) :
    appendDigit? negative (withSign negative size) digit =
      word? (withSign negative (10 * size + (digit.toNat - '0'.toNat))) := by
  rw [appendDigit?, mul_withSign]
  by_cases hfits : 10 * size ≤ maxSize negative
  · rw [word?_of_le hfits, Option.bind_eq_bind, Option.bind_some, ← withSign_add]
  · rw [word?_of_lt (by omega), word?_of_lt (by omega)]
    rfl

theorem le_ofDigitChars (digits : List Char) (size : Nat) :
    size ≤ Nat.ofDigitChars 10 digits size := by
  induction digits generalizing size with
  | nil => exact Nat.le_refl size
  | cons digit digits ih =>
    have hnext := ih (10 * size + (digit.toNat - '0'.toNat))
    rw [Nat.ofDigitChars, List.foldl_cons]
    exact Nat.le_trans (by omega) hnext

theorem foldlM_appendDigit? (digits : List Char) (h : size ≤ maxSize negative) :
    digits.foldlM (appendDigit? negative) (withSign negative size) =
      word? (withSign negative (Nat.ofDigitChars 10 digits size)) := by
  induction digits generalizing size with
  | nil => exact (word?_of_le h).symm
  | cons digit digits ih =>
    have hvalue : Nat.ofDigitChars 10 (digit :: digits) size =
        Nat.ofDigitChars 10 digits (10 * size + (digit.toNat - '0'.toNat)) := rfl
    rw [List.foldlM_cons, appendDigit?_withSign, hvalue]
    by_cases hfits : 10 * size + (digit.toNat - '0'.toNat) ≤ maxSize negative
    · rw [word?_of_le hfits]
      exact ih hfits
    · -- What is out of range already stays there, whatever digits follow.
      have hgrows := le_ofDigitChars digits (10 * size + (digit.toNat - '0'.toNat))
      rw [word?_of_lt (by omega), word?_of_lt (by omega)]
      rfl

theorem ofDigits?_eq (negative : Bool) (digits : List Char) :
    ofDigits? negative digits = word? (Condition.signed negative digits) := by
  have hzero : withSign negative 0 = 0 := by cases negative <;> rfl
  rw [ofDigits?, ← hzero, signed_eq_withSign]
  exact foldlM_appendDigit? digits (Nat.zero_le _)

/-- The sign tells which end of the range is nearest to a number that is out of range. -/
theorem getD_word?_signed (negative : Bool) (digits : List Char) :
    (word? (Condition.signed negative digits)).getD (if negative then minWord else maxWord) =
      clamp (Condition.signed negative digits) := by
  rw [signed_eq_withSign]
  generalize Nat.ofDigitChars 10 digits 0 = size
  by_cases h : size ≤ maxSize negative
  · have hfits := fitsWord_withSign_iff.mpr h
    rw [fitsWord, Bool.and_eq_true, decide_eq_true_iff, decide_eq_true_iff] at hfits
    rw [word?_of_le h, Option.getD_some, clamp]
    omega
  · rw [word?_of_lt (by omega), Option.getD_none, clamp, minWord, maxWord]
    cases negative <;>
      simp only [withSign, maxSize, Bool.false_eq_true, if_true, if_false] at h ⊢ <;> omega

end Number

namespace Headers

open Text Condition

/-- At most one sign, and whether it is a minus. -/
inductive OptionalSign : List Char → Bool → Prop
  | none : OptionalSign [] false
  | plus : OptionalSign ['+'] false
  | minus : OptionalSign ['-'] true

/-- The text starts with at most one sign and, right after it, the digits, which are all that stand
there. -/
def LeadingDigits (cs : List Char) (negative : Bool) (digits : List Char) : Prop :=
  ∃ mark rest, OptionalSign mark negative ∧ cs = mark ++ (digits ++ rest) ∧ digits ≠ [] ∧
    Digits digits ∧ Ends Char.isDigit rest

variable {cs mark digits rest : List Char} {negative : Bool} {digit : Char}

theorem splitSign_append (hmark : OptionalSign mark negative) (hdigit : digit.isDigit = true) :
    splitSign (mark ++ digit :: rest) = (negative, digit :: rest) := by
  cases hmark with
  | none =>
    rw [List.nil_append]
    unfold splitSign
    split
    · rename_i heq
      obtain ⟨rfl, -⟩ := List.cons.inj heq
      cases hdigit
    · rename_i heq
      obtain ⟨rfl, -⟩ := List.cons.inj heq
      cases hdigit
    · rfl
  | plus => rfl
  | minus => rfl

theorem exists_append_splitSign (cs : List Char) :
    ∃ mark, OptionalSign mark (splitSign cs).1 ∧ cs = mark ++ (splitSign cs).2 := by
  unfold splitSign
  split
  · exact ⟨['-'], .minus, rfl⟩
  · exact ⟨['+'], .plus, rfl⟩
  · exact ⟨[], .none, rfl⟩

theorem leadingDigits_iff : LeadingDigits cs negative digits ↔
    negative = (splitSign cs).1 ∧ digits = (splitSign cs).2.takeWhile Char.isDigit ∧
      digits ≠ [] := by
  constructor
  · rintro ⟨mark, rest, hmark, rfl, hne, hdigits, hrest⟩
    obtain ⟨digit, others, rfl⟩ := List.exists_cons_of_ne_nil hne
    rw [List.cons_append, splitSign_append hmark (hdigits digit (by simp)), ← List.cons_append]
    exact ⟨rfl, (takeWhile_run hdigits hrest).symm, hne⟩
  · rintro ⟨rfl, rfl, hne⟩
    obtain ⟨mark, hmark, hcs⟩ := exists_append_splitSign cs
    refine ⟨mark, (splitSign cs).2.dropWhile Char.isDigit, hmark, ?_, hne, all_of_mem_takeWhile,
      ends_dropWhile _ _⟩
    rw [List.takeWhile_append_dropWhile]
    exact hcs

/-- A failure is answered by the end of the range on the side of the sign, which is the nearest
integer of 64 bits. -/
theorem leadingInt?_eq (raw : List Char) :
    leadingInt? raw =
      let digits := (splitSign (trim raw)).2.takeWhile Char.isDigit
      if digits = [] then none
      else some (Number.clamp (signed (splitSign (trim raw)).1 digits)) := by
  simp only [leadingInt?, Number.ofDigits?_eq, List.isEmpty_iff]
  split
  · rfl
  · rw [← Number.getD_word?_signed]
    cases Number.word? (signed _ _) with
    | none => rfl
    | some n => rfl

theorem leadingInt?_eq_none_iff (raw : List Char) :
    leadingInt? raw = none ↔ (splitSign (trim raw)).2.takeWhile Char.isDigit = [] := by
  simp only [leadingInt?_eq, ite_eq_left_iff, reduceCtorEq, imp_false, not_not]

/-- No integer is read exactly if no digit stands after the optional sign of the trimmed text.
Otherwise it is the value of all the digits that stand there, clamped to 64 bits. -/
theorem leadingInt?_saturates (raw : List Char) :
    (leadingInt? raw = none ↔ ∀ mark negative digit rest, OptionalSign mark negative →
      trim raw = mark ++ digit :: rest → digit.isDigit = false) ∧
    ∀ n, leadingInt? raw = some n ↔ ∃ negative digits,
      LeadingDigits (trim raw) negative digits ∧ n = Number.clamp (signed negative digits) := by
  constructor
  · rw [leadingInt?_eq_none_iff]
    constructor
    · intro hnone mark negative digit rest hmark hraw
      by_contra hdigit
      rw [Bool.not_eq_false] at hdigit
      rw [hraw, splitSign_append hmark hdigit, List.takeWhile_cons_of_pos hdigit] at hnone
      cases hnone
    · intro h
      obtain ⟨mark, hmark, hraw⟩ := exists_append_splitSign (trim raw)
      cases hunsigned : (splitSign (trim raw)).2 with
      | nil => rfl
      | cons digit rest =>
        rw [hunsigned] at hraw
        exact List.takeWhile_cons_of_neg (by simp [h _ _ _ _ hmark hraw])
  · intro n
    simp only [leadingInt?_eq, leadingDigits_iff]
    constructor
    · intro h
      split at h
      · cases h
      · rename_i hne
        exact ⟨_, _, ⟨rfl, rfl, hne⟩, (Option.some.inj h).symm⟩
    · rintro ⟨negative, digits, ⟨rfl, rfl, hne⟩, rfl⟩
      rw [if_neg hne]

end Headers

end EdgeTemplate
