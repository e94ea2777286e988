import EdgeTemplate.Proofs.Agreement
import EdgeTemplate.Proofs.Lookup

/-!
# Defines in another order

Where no key continues another, each definition has its paths to itself, and the order of the
definitions shows in the order of fields only. The fields of a mapping are out of sight for a
condition: a mapping is true, it cannot be compared, and paths go through it by name. So a template
that is processed with the same definitions in another order has the same output, or fails at the
same place. The wording of the failure may differ, since it shows mappings with their fields.
-/
namespace EdgeTemplate

open Outcome

/-! ### Values up to the fields of mappings -/

/-- Equal values, or two mappings. -/
inductive Json.Similar : Json → Json → Prop
  | refl (value : Json) : Similar value value
  | mapping (fields fields' : List (String × Json)) : Similar (.object fields) (.object fields')

/-- The same failure, at operands that are equal up to the fields of mappings. -/
inductive ConditionError.Similar : ConditionError → ConditionError → Prop
  | malformed (cause : SyntaxError) : Similar (.malformed cause) (.malformed cause)
  | undefined (path : List String) : Similar (.undefined path) (.undefined path)
  | mismatch (relation : Relation) {left left' right right' : Json} : left.Similar left' →
      right.Similar right' → Similar (.mismatch relation left right)
        (.mismatch relation left' right')

theorem Relation.apply_object_left (relation : Relation) (fields : List (String × Json))
    (right : Json) :
    relation.apply (.object fields) right = .error (.mismatch relation (.object fields) right) := by
  cases relation <;> rfl

theorem Relation.apply_object_right (relation : Relation) (left : Json)
    (fields : List (String × Json)) :
    relation.apply left (.object fields) = .error (.mismatch relation left (.object fields)) := by
  cases relation <;> cases left <;> rfl

theorem Relation.eq_mismatch_of_apply {relation : Relation} {left right : Json}
    {cause : ConditionError} (h : relation.apply left right = .error cause) :
    cause = .mismatch relation left right := by
  unfold apply at h
  split at h <;> cases h
  rfl

/-- Comparing fails on a mapping whatever its fields are. -/
theorem Relation.related_apply (relation : Relation) {left left' right right' : Json}
    (hleft : left.Similar left') (hright : right.Similar right') :
    Related ConditionError.Similar Eq (relation.apply left right)
      (relation.apply left' right') := by
  cases hleft with
  | mapping fields fields' =>
    rw [apply_object_left, apply_object_left]
    exact .error (.mismatch relation (.mapping fields fields') hright)
  | refl left =>
    cases hright with
    | mapping fields fields' =>
      rw [apply_object_right, apply_object_right]
      exact .error (.mismatch relation (.refl left) (.mapping fields fields'))
    | refl right =>
      cases h : relation.apply left right with
      | ok value => exact .ok rfl
      | error cause =>
        rw [eq_mismatch_of_apply h]
        exact .error (.mismatch relation (.refl left) (.refl right))

theorem indistinct_similar : Indistinct Json.Similar ConditionError.Similar where
  refl := .refl
  truthy h := by cases h <;> rfl
  apply relation _ _ _ _ hleft hright := relation.related_apply hleft hright
  undefined := .undefined
  malformed := .malformed

/-! ### Keys that do not collide -/

namespace Context

open Entries

/-- No key continues another. -/
def PrefixFree (entries : List (String × Scalar)) : Prop :=
  ∀ key ∈ keys entries, ∀ other ∈ keys entries,
    segments key <+: segments other → segments key = segments other

instance (entries : List (String × Scalar)) : Decidable (PrefixFree entries) :=
  inferInstanceAs (Decidable (∀ key ∈ keys entries, ∀ other ∈ keys entries, _ → _))

variable {entries : List (String × Scalar)} {entry last : String × Scalar} {path : List String}
  {result result' : Option Json}

theorem PrefixFree.segments_eq (hfree : PrefixFree entries) (hentry : entry ∈ entries)
    (hlast : last ∈ entries) (h : Comparable (segments entry.1) (segments last.1)) :
    segments entry.1 = segments last.1 := by
  have hkey : entry.1 ∈ keys entries := List.mem_map_of_mem hentry
  have hother : last.1 ∈ keys entries := List.mem_map_of_mem hlast
  rcases h with h | h
  · exact hfree _ hkey _ hother h
  · exact (hfree _ hother _ hkey h).symm

theorem eq_of_segments_eq (hdistinct : (keys entries).Nodup) (hentry : entry ∈ entries)
    (hlast : last ∈ entries) (h : segments entry.1 = segments last.1) : entry = last :=
  List.inj_on_of_nodup_map hdistinct hentry hlast (segments_injective h)

/-- Two keys that are comparable with a path and not with one another lie both above it or both
below it, so they say the same about it. -/
theorem Decided.of_prefixFree (hfree : PrefixFree entries) (hdistinct : (keys entries).Nodup)
    (hentry : entry ∈ entries) (hlast : last ∈ entries)
    (hcomparable : Comparable (segments entry.1) path)
    (hcomparable' : Comparable (segments last.1) path) (h : Decided last path result) :
    Decided entry path result := by
  by_cases heq : segments entry.1 = segments last.1
  · rwa [eq_of_segments_eq hdistinct hentry hlast heq]
  · have hapart : ¬ Comparable (segments entry.1) (segments last.1) :=
      fun hboth => heq (hfree.segments_eq hentry hlast hboth)
    obtain ⟨-, hbelow, habove⟩ := h
    refine ⟨?_, ?_, ?_⟩
    · rintro rfl
      exact (hapart hcomparable'.symm).elim
    · intro hstarts _
      rcases hcomparable' with hlast | hlast
      · apply hbelow hlast
        rintro rfl
        exact hapart (.inl hstarts)
      · exact (hapart (.inl (hstarts.trans hlast))).elim
    · intro hstarts _
      rcases hcomparable' with hlast | hlast
      · exact (hapart (.inr (hlast.trans hstarts))).elim
      · apply habove hlast
        rintro rfl
        exact hapart (.inr hstarts)

theorem decided_of_comparable (hfree : PrefixFree entries) (hdistinct : (keys entries).Nodup)
    (hentry : entry ∈ entries) (hcomparable : Comparable (segments entry.1) path)
    (hpath : path ≠ []) : Decided entry path ((entries.foldl define ⟨[]⟩).resolve path) := by
  cases hlast : lastComparable? entries path with
  | none => exact (lastComparable?_eq_none_iff.mp hlast entry hentry hcomparable).elim
  | some last =>
    have hmem := List.mem_filter.mp (List.mem_of_getLast? hlast)
    have hdecided := (resolve_foldl_define entries hpath).2 last hlast
    exact hdecided.of_prefixFree hfree hdistinct hentry hmem.1 hcomparable (by simpa using hmem.2)

theorem Decided.similar (hcomparable : Comparable (segments entry.1) path)
    (h : Decided entry path result) (h' : Decided entry path result') :
    Option.Rel Json.Similar result result' := by
  by_cases heq : segments entry.1 = path
  · rw [h.1 heq, h'.1 heq]
    exact .some (.refl _)
  · rcases hcomparable with hstarts | hstarts
    · rw [h.2.1 hstarts heq, h'.2.1 hstarts heq]
      exact .none
    · obtain ⟨fields, hfields⟩ := h.2.2 hstarts heq
      obtain ⟨fields', hfields'⟩ := h'.2.2 hstarts heq
      rw [hfields, hfields']
      exact .some (.mapping fields fields')

theorem PrefixFree.perm (hfree : PrefixFree entries) {others : List (String × Scalar)}
    (hperm : others.Perm entries) : PrefixFree others := by
  have hkeys : (keys others).Perm (keys entries) := hperm.map Prod.fst
  intro key hkey other hother
  exact hfree key (hkeys.mem_iff.mp hkey) other (hkeys.mem_iff.mp hother)

theorem similar_resolve_of_perm {defines other : Defines} (hfree : PrefixFree defines.entries)
    (hperm : other.entries.Perm defines.entries) (path : List String) :
    Option.Rel Json.Similar ((build defines).resolve path) ((build other).resolve path) := by
  by_cases hpath : path = []
  · rw [hpath]
    exact .none
  · by_cases hsome : ∃ entry ∈ defines.entries, Comparable (segments entry.1) path
    · obtain ⟨entry, hentry, hcomparable⟩ := hsome
      have hdecided := decided_of_comparable hfree defines.distinct hentry hcomparable hpath
      have hdecided' := decided_of_comparable (hfree.perm hperm) other.distinct
        (hperm.mem_iff.mpr hentry) hcomparable hpath
      exact hdecided.similar hcomparable hdecided'
    · have hnone : ∀ entry ∈ defines.entries, ¬ Comparable (segments entry.1) path :=
        fun entry hentry hcomparable => hsome ⟨entry, hentry, hcomparable⟩
      have hnone' : ∀ entry ∈ other.entries, ¬ Comparable (segments entry.1) path :=
        fun entry hentry => hnone entry (hperm.mem_iff.mp hentry)
      rw [build, build,
        (resolve_foldl_define _ hpath).1 (lastComparable?_eq_none_iff.mpr hnone),
        (resolve_foldl_define _ hpath).1 (lastComparable?_eq_none_iff.mpr hnone')]
      exact .none

end Context

/-! ### Templates -/

namespace Template

/-- Defines without colliding keys may stand in any order: processing gives the same text, or fails
in the same way at the same line and condition. -/
theorem process_of_perm (defines other : Defines) (source : String)
    (hfree : Context.PrefixFree defines.entries) (hperm : other.entries.Perm defines.entries) :
    (∃ output, process defines source = .ok output ∧ process other source = .ok output) ∨
      ∃ error error', process defines source = .error error ∧
        process other source = .error error' ∧ error.kind = error'.kind ∧
        error.line? = error'.line? ∧ error.condition? = error'.condition? := by
  have hprocess : Related (Error.Corresponds ConditionError.Similar) Eq (process defines source)
      (process other source) := by
    apply related_process
    intro line _ text _
    apply Condition.related_test indistinct_similar
    intro _ _ path _
    exact Context.similar_resolve_of_perm hfree hperm path
  rcases hprocess.cases_eq with hok | ⟨error, error', herror, herror', hsame⟩
  · exact .inl hok
  · exact .inr ⟨error, error', herror, herror', hsame.same_place⟩

/-- The mapping `a` has its fields in another order, and comparing it fails in the same place. -/
theorem process_of_perm_mapping :
    let defines : Defines :=
      .ofList [("a.b", .number (.int 1)), ("a.c", .bool true), ("d", .string "x")]
    let other : Defines :=
      .ofList [("d", .string "x"), ("a.c", .bool true), ("a.b", .number (.int 1))]
    Context.PrefixFree defines.entries ∧ other.entries.Perm defines.entries ∧
      ∃ error, process other "/* @if(d && a != d) */" = .error error ∧
        error.kind = .evaluation ∧ error.line? = some 1 ∧
        error.condition? = some "d && a != d" := by
  intro defines other
  have hfree : Context.PrefixFree defines.entries := by decide
  have hperm : other.entries.Perm defines.entries := by decide
  have hfirst : process defines "/* @if(d && a != d) */" =
      .error (.evaluation 1 "d && a != d"
        (.mismatch .ne (.object [("b", .number (.int 1)), ("c", .bool true)]) (.string "x"))
        (.build defines)) := by
    simp only [process, String.reduceToList]
    rfl
  refine ⟨hfree, hperm, ?_⟩
  have hsame := process_of_perm defines other "/* @if(d && a != d) */" hfree hperm
  rw [hfirst] at hsame
  rcases hsame with ⟨output, hok, -⟩ | ⟨error, error', herror, hother, hkind, hline, hcondition⟩
  · cases hok
  · obtain rfl := Except.error.inj herror
    exact ⟨error', hother, hkind.symm, hline.symm, hcondition.symm⟩

end Template

end EdgeTemplate
