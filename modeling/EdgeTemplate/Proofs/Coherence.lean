import EdgeTemplate.Proofs.Comparison
import EdgeTemplate.Proofs.Reordering

/-!
# Coherence of the comparisons

The six relations answer alike. Whether two values can be compared depends on their kinds only, and
then a relation answers the opposite of its opposite, and the same as its converse on the exchanged
values. Numbers are compared through one order, be they integers or floating-point numbers, so two
numbers are less, equal or greater, and only one of the three.
-/
namespace EdgeTemplate

/-- Exchanging two numbers turns their order around, whether they are compared exactly or in the
precision of the floating-point format. -/
theorem Number.compare_swap (a b : Number) : (a.compare b).swap = b.compare a := by
  cases a with
  | float x => cases b <;> exact Int.compare_swap _ _
  | int m _ =>
    cases b with
    | float y => exact Int.compare_swap _ _
    | int n _ =>
      -- The choice between the two ways of comparing does not depend on the sides.
      simp only [compare, Bool.and_comm (fitsWord m)]
      split
      · exact Int.compare_swap m n
      · exact Int.compare_swap _ _

namespace Relation

def opposite : Relation → Relation
  | eq => ne
  | ne => eq
  | lt => ge
  | le => gt
  | gt => le
  | ge => lt

def converse : Relation → Relation
  | eq => eq
  | ne => ne
  | lt => gt
  | le => ge
  | gt => lt
  | ge => le

theorem opposite_opposite (relation : Relation) : relation.opposite.opposite = relation := by
  cases relation <;> rfl

theorem converse_converse (relation : Relation) : relation.converse.converse = relation := by
  cases relation <;> rfl

/-- Both values have one type, and the relation compares values of it: numbers, and for equality and
its opposite also strings and truth values. -/
def Admits (relation : Relation) (a b : Json) : Prop :=
  ∃ type, a.HasType type ∧ b.HasType type ∧ relation.compares type = true

theorem holds_opposite (relation : Relation) (order : Ordering) :
    relation.opposite.holds order = !relation.holds order := by
  cases relation <;> cases order <;> rfl

theorem holds_converse (relation : Relation) (order : Ordering) :
    relation.converse.holds order.swap = relation.holds order := by
  cases relation <;> cases order <;> rfl

variable {relation : Relation} {a b : Json} {answer : Bool}

theorem exists_apply_eq_ok_iff :
    (∃ answer, relation.apply a b = .ok answer) ↔ relation.Admits a b := by
  constructor
  · rintro ⟨answer, h⟩
    unfold apply at h
    split at h
    · exact ⟨.number, .number _, .number _, by cases relation <;> rfl⟩
    · exact ⟨.string, .string _, .string _, rfl⟩
    · exact ⟨.string, .string _, .string _, rfl⟩
    · exact ⟨.bool, .bool _, .bool _, rfl⟩
    · exact ⟨.bool, .bool _, .bool _, rfl⟩
    · cases h
  · rintro ⟨type, ha, hb, hcompares⟩
    exact apply_ok ha hb hcompares

theorem apply_eq_mismatch_iff :
    relation.apply a b = .error (.mismatch relation a b) ↔ ¬ relation.Admits a b := by
  rw [← exists_apply_eq_ok_iff]
  constructor
  · rintro herror ⟨answer, hok⟩
    rw [herror] at hok
    cases hok
  · intro hnone
    cases h : relation.apply a b with
    | ok answer => exact (hnone ⟨answer, h⟩).elim
    | error cause => rw [eq_mismatch_of_apply h]

theorem apply_opposite (h : relation.apply a b = .ok answer) :
    relation.opposite.apply a b = .ok (!answer) := by
  unfold apply at h
  split at h
  · obtain rfl := Except.ok.inj h
    rw [apply_number, holds_opposite]
  · obtain rfl := Except.ok.inj h
    rfl
  · obtain rfl := Except.ok.inj h
    rw [bne, Bool.not_not]
    rfl
  · obtain rfl := Except.ok.inj h
    rfl
  · obtain rfl := Except.ok.inj h
    rw [bne, Bool.not_not]
    rfl
  · cases h

theorem apply_converse (h : relation.apply a b = .ok answer) :
    relation.converse.apply b a = .ok answer := by
  unfold apply at h
  split at h
  · obtain rfl := Except.ok.inj h
    rw [apply_number, ← Number.compare_swap, holds_converse]
  · obtain rfl := Except.ok.inj h
    exact congrArg Except.ok BEq.comm
  · obtain rfl := Except.ok.inj h
    exact congrArg Except.ok bne_comm
  · obtain rfl := Except.ok.inj h
    exact congrArg Except.ok BEq.comm
  · obtain rfl := Except.ok.inj h
    exact congrArg Except.ok bne_comm
  · cases h

/-- An answer of the opposite relation, and hence its absence, tells that of the relation. -/
theorem apply_opposite_iff :
    relation.opposite.apply a b = .ok (!answer) ↔ relation.apply a b = .ok answer := by
  refine ⟨?_, apply_opposite⟩
  intro h
  have hback := apply_opposite h
  rwa [opposite_opposite, Bool.not_not] at hback

theorem apply_converse_iff :
    relation.converse.apply b a = .ok answer ↔ relation.apply a b = .ok answer := by
  refine ⟨?_, apply_converse⟩
  intro h
  have hback := apply_converse h
  rwa [converse_converse] at hback

theorem existsUnique_apply_number (a b : Number) :
    ∃! relation, relation ∈ [lt, eq, gt] ∧
      relation.apply (.number a) (.number b) = .ok true := by
  simp only [apply_number, Except.ok.injEq]
  cases a.compare b with
  | lt => exact ⟨lt, by decide, fun relation => by cases relation <;> decide⟩
  | eq => exact ⟨eq, by decide, fun relation => by cases relation <;> decide⟩
  | gt => exact ⟨gt, by decide, fun relation => by cases relation <;> decide⟩

/-- A relation answers exactly on the values that it admits, and refuses all others as mismatched.
Its opposite answers the opposite where it answers, and its converse answers the same on the
exchanged values. Of less, equal and greater exactly one holds of two numbers. -/
theorem apply_coherent :
    (∀ relation a b,
      ((∃ answer, apply relation a b = .ok answer) ↔ relation.Admits a b) ∧
      (apply relation a b = .error (.mismatch relation a b) ↔ ¬ relation.Admits a b)) ∧
    (∀ relation a b answer,
      (apply relation.opposite a b = .ok (!answer) ↔ apply relation a b = .ok answer) ∧
      (apply relation.converse b a = .ok answer ↔ apply relation a b = .ok answer)) ∧
    ∀ m n : Number, ∃! relation, relation ∈ [lt, eq, gt] ∧
      apply relation (.number m) (.number n) = .ok true := by
  refine ⟨?_, ?_, existsUnique_apply_number⟩
  · intro relation a b
    exact ⟨exists_apply_eq_ok_iff, apply_eq_mismatch_iff⟩
  · intro relation a b answer
    exact ⟨apply_opposite_iff, apply_converse_iff⟩

end Relation

end EdgeTemplate
