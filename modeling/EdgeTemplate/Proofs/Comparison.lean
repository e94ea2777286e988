import EdgeTemplate.Condition.Eval
import Mathlib.Algebra.Order.Ring.Int
import Mathlib.Data.Nat.Log

/-!
# Comparing integers

Two signed 64-bit integers are compared exactly. As soon as one of the integers is greater, both are
rounded to 53 significant bits first. Rounding keeps the order but may merge integers: then they
compare as equal, although they are not. Integers of the documents that are merged are at most 2048
apart.
-/
namespace EdgeTemplate

/-! ### Rounded quotients -/

section RoundDiv

variable {d : Nat}

theorem roundDiv_eq (n d : Nat) :
    roundDiv n d = n / d +
      if 2 * (n % d) < d then 0 else if 2 * (n % d) = d then n / d % 2 else 1 := by
  unfold roundDiv
  dsimp only
  split
  · rename_i hlt
    rw [if_pos (Nat.compare_eq_lt.mp hlt), Nat.add_zero]
  · rename_i heq
    have htie := Nat.compare_eq_eq.mp heq
    rw [if_neg (by omega), if_pos htie]
  · rename_i hgt
    have habove := Nat.compare_eq_gt.mp hgt
    rw [if_neg (by omega), if_neg (by omega)]

theorem roundDiv_mul_self (hd : 0 < d) (k : Nat) : roundDiv (k * d) d = k := by
  rw [roundDiv_eq, Nat.mul_mod_left, Nat.mul_div_cancel k hd, if_pos (by omega), Nat.add_zero]

theorem roundDiv_near (hd : 0 < d) (n : Nat) :
    2 * (roundDiv n d * d) ≤ 2 * n + d ∧ 2 * n ≤ 2 * (roundDiv n d * d) + d := by
  have hn := Nat.div_add_mod' n d
  have hmod := Nat.mod_lt n hd
  have hparity := Nat.mod_two_eq_zero_or_one (n / d)
  rw [roundDiv_eq, Nat.add_mul]
  split
  · omega
  · split
    · rcases hparity with hparity | hparity
      · rw [hparity]
        omega
      · rw [hparity]
        omega
    · omega

theorem roundDiv_mono {m n : Nat} (h : m ≤ n) (d : Nat) : roundDiv m d ≤ roundDiv n d := by
  rw [roundDiv_eq, roundDiv_eq]
  rcases Nat.eq_or_lt_of_le (Nat.div_le_div_right (c := d) h) with hdiv | hdiv
  · have hmod : m % d ≤ n % d := by
      have hm := Nat.div_add_mod' m d
      have hn := Nat.div_add_mod' n d
      rw [hdiv] at hm
      omega
    rw [hdiv]
    split_ifs <;> omega
  · split_ifs <;> omega

end RoundDiv

namespace Number

/-! ### Rounded integers -/

/-- A power of two that is not below the last bit kept of a number is a multiple of that bit. -/
theorem roundDiv_two_pow {s k : Nat} (h : s ≤ k) : roundDiv (2 ^ k) (2 ^ s) * 2 ^ s = 2 ^ k := by
  have hsplit : 2 ^ k = 2 ^ (k - s) * 2 ^ s := by rw [← Nat.pow_add, Nat.sub_add_cancel h]
  rw [hsplit, roundDiv_mul_self (Nat.two_pow_pos s)]

theorem roundNat_mono {m n : Nat} (h : m ≤ n) : roundNat m ≤ roundNat n := by
  have hlog : m.log2 ≤ n.log2 := by
    rw [Nat.log2_eq_log_two, Nat.log2_eq_log_two]
    exact Nat.log_mono_right h
  rcases Nat.eq_or_lt_of_le hlog with hlog | hlog
  · unfold roundNat
    rw [hlog]
    exact Nat.mul_le_mul_right _ (roundDiv_mono h _)
  · -- The greatest power of two up to the greater number separates the two rounded numbers.
    have hn : n ≠ 0 := by
      rintro rfl
      simp at hlog
    have hbelow : m ≤ 2 ^ n.log2 :=
      Nat.le_of_lt (Nat.lt_of_lt_of_le Nat.lt_log2_self (Nat.pow_le_pow_right (by decide) hlog))
    calc
      roundNat m ≤ roundDiv (2 ^ n.log2) (2 ^ (m.log2 - 52)) * 2 ^ (m.log2 - 52) :=
        Nat.mul_le_mul_right _ (roundDiv_mono hbelow _)
      _ = 2 ^ n.log2 := roundDiv_two_pow (by omega)
      _ = roundDiv (2 ^ n.log2) (2 ^ (n.log2 - 52)) * 2 ^ (n.log2 - 52) :=
        (roundDiv_two_pow (by omega)).symm
      _ ≤ roundNat n := Nat.mul_le_mul_right _ (roundDiv_mono (Nat.log2_self_le hn) _)

theorem roundNat_near {n : Nat} (h : n < 2 ^ 64) :
    roundNat n ≤ n + 1024 ∧ n ≤ roundNat n + 1024 := by
  have hlog : n.log2 < 64 := by
    by_cases hn : n = 0
    · simp [hn]
    · exact (Nat.log2_lt hn).mpr h
  have hstep : 2 ^ (n.log2 - 52) ≤ 2 ^ 11 := Nat.pow_le_pow_right (by decide) (by omega)
  have hnear := roundDiv_near (Nat.two_pow_pos (n.log2 - 52)) n
  change 2 * roundNat n ≤ _ ∧ _ ≤ 2 * roundNat n + _ at hnear
  omega

theorem roundInt_natCast (n : Nat) : roundInt n = roundNat n := by
  by_cases hn : n = 0
  · rw [hn]
    rfl
  · rw [roundInt, Int.sign_natCast_of_ne_zero hn, Int.one_mul, Int.natAbs_natCast]

theorem roundInt_neg (n : Int) : roundInt (-n) = -roundInt n := by
  rw [roundInt, Int.sign_neg, Int.natAbs_neg, Int.neg_mul, roundInt]

theorem roundInt_mono {a b : Int} (h : a ≤ b) : roundInt a ≤ roundInt b := by
  obtain ⟨m, rfl | rfl⟩ := a.eq_nat_or_neg
  · obtain ⟨n, rfl⟩ := Int.eq_ofNat_of_zero_le (Int.le_trans (Int.natCast_nonneg m) h)
    rw [roundInt_natCast, roundInt_natCast]
    exact Int.ofNat_le.mpr (roundNat_mono (Int.ofNat_le.mp h))
  · obtain ⟨n, rfl | rfl⟩ := b.eq_nat_or_neg
    · rw [roundInt_neg, roundInt_natCast, roundInt_natCast]
      omega
    · have hnm : roundNat n ≤ roundNat m := roundNat_mono (by omega)
      rw [roundInt_neg, roundInt_neg, roundInt_natCast, roundInt_natCast]
      omega

theorem roundInt_near {a : Int} (h : a.natAbs < 2 ^ 64) : (roundInt a - a).natAbs ≤ 1024 := by
  obtain ⟨n, rfl | rfl⟩ := a.eq_nat_or_neg
  · have hnear := roundNat_near (n := n) (by simpa using h)
    rw [roundInt_natCast]
    omega
  · have hnear := roundNat_near (n := n) (by simpa using h)
    rw [roundInt_neg, roundInt_natCast]
    omega

/-! ### Merged integers -/

theorem fitsWord_iff (a : Int) : fitsWord a = true ↔ -2 ^ 63 ≤ a ∧ a < 2 ^ 63 := by
  rw [fitsWord, Bool.and_eq_true, decide_eq_true_iff, decide_eq_true_iff, minWord, maxWord]
  omega

/-- One of the integers is not a signed 64-bit integer, and rounding makes them equal. -/
def Merged (a b : Int) : Prop :=
  ¬ (fitsWord a = true ∧ fitsWord b = true) ∧ roundInt a = roundInt b

instance (a b : Int) : Decidable (Merged a b) :=
  inferInstanceAs (Decidable (_ ∧ _))

theorem compare_mul_right {u : Int} (hu : 0 < u) (a b : Int) :
    Ord.compare (a * u) (b * u) = Ord.compare a b := by
  cases h : Ord.compare a b with
  | lt => exact Int.compare_eq_lt.mpr (Int.mul_lt_mul_of_pos_right (Int.compare_eq_lt.mp h) hu)
  | eq => rw [Int.compare_eq_eq.mp h]; exact Int.compare_eq_eq.mpr rfl
  | gt => exact Int.compare_eq_gt.mpr (Int.mul_lt_mul_of_pos_right (Int.compare_eq_gt.mp h) hu)

theorem compare_roundInt {a b : Int} (h : roundInt a ≠ roundInt b) :
    Ord.compare (roundInt a) (roundInt b) = Ord.compare a b := by
  rcases Int.lt_or_gt_of_ne h with hlt | hgt
  · have hab : a < b := Int.not_le.mp fun hba => Int.not_le.mpr hlt (roundInt_mono hba)
    rw [Int.compare_eq_lt.mpr hlt, Int.compare_eq_lt.mpr hab]
  · have hba : b < a := Int.not_le.mp fun hab => Int.not_le.mpr hgt (roundInt_mono hab)
    rw [Int.compare_eq_gt.mpr hgt, Int.compare_eq_gt.mpr hba]

theorem compare_int {a b : Int} (ha : Bounded a) (hb : Bounded b) :
    compare (.int a ha) (.int b hb) = if Merged a b then .eq else Ord.compare a b := by
  have hunits : (0 : Int) < Binary64.unitsPerOne := by decide +kernel
  have hcompare : compare (.int a ha) (.int b hb) =
      if fitsWord a && fitsWord b then Ord.compare a b
      else Ord.compare (roundInt a) (roundInt b) := by
    rw [← compare_mul_right hunits (roundInt a)]
    rfl
  rw [hcompare]
  by_cases hfits : fitsWord a = true ∧ fitsWord b = true
  · rw [if_pos (by simp [hfits]), if_neg fun hmerged => hmerged.1 hfits]
  · rw [if_neg (by simpa using hfits)]
    by_cases hround : roundInt a = roundInt b
    · rw [if_pos ⟨hfits, hround⟩, hround]
      exact Int.compare_eq_eq.mpr rfl
    · rw [if_neg fun hmerged => hround hmerged.2, compare_roundInt hround]

end Number

namespace Relation

def Between : Relation → Int → Int → Prop
  | eq, a, b => a = b
  | ne, a, b => a ≠ b
  | lt, a, b => a < b
  | le, a, b => a ≤ b
  | gt, a, b => b < a
  | ge, a, b => b ≤ a

instance (relation : Relation) (a b : Int) : Decidable (relation.Between a b) :=
  match relation with
  | eq => inferInstanceAs (Decidable (a = b))
  | ne => inferInstanceAs (Decidable (a ≠ b))
  | lt => inferInstanceAs (Decidable (a < b))
  | le => inferInstanceAs (Decidable (a ≤ b))
  | gt => inferInstanceAs (Decidable (b < a))
  | ge => inferInstanceAs (Decidable (b ≤ a))

theorem holds_compare (relation : Relation) (a b : Int) :
    relation.holds (compare a b) = decide (relation.Between a b) := by
  rw [Bool.eq_iff_iff, decide_eq_true_iff]
  rcases Int.lt_trichotomy a b with h | h | h
  · rw [Int.compare_eq_lt.mpr h]
    cases relation <;> simp [holds, Between] <;> omega
  · rw [Int.compare_eq_eq.mpr h]
    cases relation <;> simp [holds, Between] <;> omega
  · rw [Int.compare_eq_gt.mpr h]
    cases relation <;> simp [holds, Between] <;> omega

theorem apply_number (relation : Relation) (a b : Number) :
    relation.apply (.number a) (.number b) = .ok (relation.holds (a.compare b)) := by
  cases relation <;> rfl

/-- Integers of the documents are compared by their value, unless they are merged: then every
comparison answers as for equal integers. Merged integers are at most 2048 apart, and one of them is
greater than every signed 64-bit integer. -/
theorem apply_integers (relation : Relation) {a b : Int} (ha : Number.Bounded a)
    (hb : Number.Bounded b) :
    let answer := relation.apply (.number (.int a ha)) (.number (.int b hb))
    (¬ Number.Merged a b → answer = .ok (decide (relation.Between a b))) ∧
    (Number.Merged a b → answer = .ok (decide (relation.Between a a)) ∧
      (a - b).natAbs ≤ 2048 ∧ (2 ^ 63 ≤ a ∨ 2 ^ 63 ≤ b)) := by
  intro answer
  have hanswer : answer = .ok (relation.holds (Number.compare (.int a ha) (.int b hb))) :=
    apply_number relation _ _
  rw [Number.compare_int] at hanswer
  constructor
  · intro hmerged
    rw [hanswer, if_neg hmerged, holds_compare]
  · intro hmerged
    refine ⟨?_, ?_⟩
    · rw [hanswer, if_pos hmerged, ← holds_compare, Int.compare_eq_eq.mpr rfl]
    · have hnear := Number.roundInt_near (a := a) (by omega)
      have hnear' := Number.roundInt_near (a := b) (by omega)
      obtain ⟨hwords, hround⟩ := hmerged
      rw [Number.fitsWord_iff, Number.fitsWord_iff] at hwords
      exact ⟨by omega, by omega⟩

/-- The greatest signed 64-bit integer and the next integer are merged, so neither is less. -/
theorem apply_integers_merged :
    Number.Merged 9223372036854775807 9223372036854775808 ∧
      lt.apply (.number (.int 9223372036854775807)) (.number (.int 9223372036854775808)) =
        .ok false := by
  have hmerged : Number.Merged 9223372036854775807 9223372036854775808 := by decide +kernel
  have hbounded : Number.Bounded 9223372036854775807 ∧ Number.Bounded 9223372036854775808 := by
    decide
  obtain ⟨-, hanswer⟩ := apply_integers lt hbounded.1 hbounded.2
  exact ⟨hmerged, (hanswer hmerged).1⟩

theorem apply_eq_distinct :
    (9223372036854775808 : Int) ≠ 9223372036854775809 ∧
      eq.apply (.number (.int 9223372036854775808)) (.number (.int 9223372036854775809)) =
        .ok true := by
  have hholds : eq.holds (Number.compare (.int 9223372036854775808) (.int 9223372036854775809)) =
      true := by decide +kernel
  refine ⟨by decide, ?_⟩
  rw [apply_number, hholds]

end Relation

end EdgeTemplate
