import EdgeTemplate.Context
import Mathlib.Data.List.Induction

/-!
# Lookup in a context

Each definition that is stored can turn mappings into leaves and leaves into mappings along its
path. What a path then leads to depends on the path of that definition only: storing decides every
comparable path and leaves every other path alone. So the last comparable definition decides.
-/
namespace EdgeTemplate.Context

/-- One of the two paths continues the other. -/
def Comparable (path other : List String) : Prop :=
  path <+: other ∨ other <+: path

instance (path other : List String) : Decidable (Comparable path other) :=
  inferInstanceAs (Decidable (_ ∨ _))

def lastComparable? (entries : List (String × Scalar)) (path : List String) :
    Option (String × Scalar) :=
  (entries.filter fun entry => Comparable (segments entry.1) path).getLast?

variable {key other : String} {path : List String} {fields : List (String × Json)} {value : Json}

theorem segments_ne_nil (key : String) : segments key ≠ [] := by
  simp [segments, List.splitOn_ne_nil]

/-! ### Fields of a mapping -/

theorem children_put_object (inner : List (String × Json)) :
    children key (Entries.put key (.object inner) fields) = inner := by
  simp [children, Entries.lookup_put_self]

theorem children_put_of_ne (h : other ≠ key) :
    children other (Entries.put key value fields) = children other fields := by
  simp [children, Entries.lookup_put_of_ne h]

theorem children_put_leaf (h : ∀ inner, value ≠ .object inner) :
    children key (Entries.put key value fields) = [] := by
  rw [children, Entries.lookup_put_self]
  cases value with
  | object inner => exact (h inner rfl).elim
  | _ => rfl

theorem descend_nil (path : List String) : descend path [] = none := by
  induction path with
  | nil => rfl
  | cons key path ih =>
    cases path with
    | nil => rfl
    | cons next path => exact ih

/-! ### One definition -/

theorem descend_graft_self (h : path ≠ []) :
    descend path (graft value path fields) = some value := by
  fun_induction graft value path fields with
  | case1 fields => exact (h rfl).elim
  | case2 key fields => exact Entries.lookup_put_self key value fields
  | case3 key next path fields ih =>
    rw [descend, children_put_object]
    exact ih (by simp)

theorem descend_graft_below (hleaf : ∀ inner, value ≠ .object inner) (h : path ≠ [])
    (next : String) (below : List String) :
    descend (path ++ next :: below) (graft value path fields) = none := by
  fun_induction graft value path fields with
  | case1 fields => exact (h rfl).elim
  | case2 key fields =>
    rw [List.singleton_append, descend, children_put_leaf hleaf]
    exact descend_nil _
  | case3 key step path fields ih =>
    rw [List.cons_append, List.cons_append, descend, children_put_object]
    exact ih (by simp)

theorem descend_graft_above (h : path ≠ []) (next : String) (below : List String) :
    ∃ inner, descend path (graft value (path ++ next :: below) fields) = some (.object inner) := by
  induction path generalizing fields with
  | nil => exact (h rfl).elim
  | cons key path ih =>
    cases path with
    | nil =>
      rw [List.singleton_append, graft]
      exact ⟨_, Entries.lookup_put_self key _ fields⟩
    | cons step path =>
      rw [List.cons_append, List.cons_append, graft, descend, children_put_object]
      exact ih (by simp)

theorem descend_graft_of_not_comparable {grafted : List String} (h : ¬ Comparable grafted path) :
    descend path (graft value grafted fields) = descend path fields := by
  induction grafted generalizing path fields with
  | nil => simp [Comparable] at h
  | cons key grafted ih =>
    cases path with
    | nil => simp [Comparable] at h
    | cons first path =>
      by_cases hfirst : first = key
      · subst hfirst
        have hrest : ¬ Comparable grafted path := by
          simpa [Comparable, List.cons_prefix_cons] using h
        cases grafted with
        | nil => simp [Comparable] at hrest
        | cons next grafted =>
          cases path with
          | nil => simp [Comparable] at hrest
          | cons step path =>
            rw [graft, descend, descend, children_put_object]
            exact ih hrest
      · cases grafted with
        | nil =>
          cases path with
          | nil => exact Entries.lookup_put_of_ne hfirst _ _
          | cons step path => rw [graft, descend, descend, children_put_of_ne hfirst]
        | cons next grafted =>
          cases path with
          | nil => exact Entries.lookup_put_of_ne hfirst _ _
          | cons step path => rw [graft, descend, descend, children_put_of_ne hfirst]

theorem toJson_ne_object (scalar : Scalar) (inner : List (String × Json)) :
    scalar.toJson ≠ .object inner := by
  cases scalar <;> simp [Scalar.toJson]

/-! ### All definitions -/

def Decided (entry : String × Scalar) (path : List String) (result : Option Json) : Prop :=
  (segments entry.1 = path → result = some entry.2.toJson) ∧
  (segments entry.1 <+: path → segments entry.1 ≠ path → result = none) ∧
  (path <+: segments entry.1 → segments entry.1 ≠ path → ∃ inner, result = some (.object inner))

theorem decided_define (context : Context) (entry : String × Scalar) (h : path ≠ []) :
    Decided entry path ((context.define entry).resolve path) := by
  unfold Decided resolve define
  refine ⟨?_, ?_, ?_⟩
  · rintro rfl
    exact descend_graft_self h
  · rintro ⟨below, rfl⟩ hne
    cases below with
    | nil => simp at hne
    | cons next below =>
      exact descend_graft_below (toJson_ne_object entry.2) (segments_ne_nil entry.1) next below
  · rintro ⟨below, hbelow⟩ hne
    cases below with
    | nil => simp [← hbelow] at hne
    | cons next below =>
      rw [← hbelow]
      exact descend_graft_above h next below

theorem resolve_foldl_define (entries : List (String × Scalar)) (h : path ≠ []) :
    (lastComparable? entries path = none →
      (entries.foldl define ⟨[]⟩).resolve path = none) ∧
    ∀ entry, lastComparable? entries path = some entry →
      Decided entry path ((entries.foldl define ⟨[]⟩).resolve path) := by
  induction entries using List.reverseRecOn with
  | nil =>
    refine ⟨fun _ => descend_nil path, ?_⟩
    intro entry hentry
    simp [lastComparable?] at hentry
  | append_singleton entries last ih =>
    rw [List.foldl_append, List.foldl_cons, List.foldl_nil]
    by_cases hlast : Comparable (segments last.1) path
    · have hfound : lastComparable? (entries ++ [last]) path = some last := by
        simp [lastComparable?, hlast]
      rw [hfound]
      refine ⟨by simp, ?_⟩
      intro entry hentry
      obtain rfl := Option.some.inj hentry
      exact decided_define _ _ h
    · have hfound : lastComparable? (entries ++ [last]) path = lastComparable? entries path := by
        simp [lastComparable?, hlast]
      have hsame : ((entries.foldl define ⟨[]⟩).define last).resolve path =
          (entries.foldl define ⟨[]⟩).resolve path :=
        descend_graft_of_not_comparable hlast
      rw [hfound, hsame]
      exact ih

/-! ### One definition among others -/

theorem segments_injective {key other : String} (h : segments key = segments other) :
    key = other := by
  have hsplit : key.toList.splitOn '.' = other.toList.splitOn '.' :=
    (List.map_inj_right fun _ _ => String.ofList_inj.mp).mp h
  apply String.toList_inj.mp
  calc key.toList
    _ = ['.'].intercalate (key.toList.splitOn '.') := (List.intercalate_splitOn '.').symm
    _ = ['.'].intercalate (other.toList.splitOn '.') := by rw [hsplit]
    _ = other.toList := List.intercalate_splitOn '.'

theorem lastComparable?_append_cons {front back : List (String × Scalar)}
    {entry : String × Scalar} (hentry : Comparable (segments entry.1) path) :
    lastComparable? (front ++ entry :: back) path =
      some ((lastComparable? back path).getD entry) := by
  rw [lastComparable?, List.filter_append, List.filter_cons_of_pos (by simpa using hentry),
    List.getLast?_append, List.getLast?_cons]
  rfl

theorem lastComparable?_eq_none_iff {entries : List (String × Scalar)} :
    lastComparable? entries path = none ↔
      ∀ entry ∈ entries, ¬ Comparable (segments entry.1) path := by
  simp [lastComparable?]

/-- A definition is found under its key exactly when no comparable key is stored after it. -/
theorem resolve_segments_iff {entries front back : List (String × Scalar)} {scalar : Scalar}
    (hentries : entries = front ++ (key, scalar) :: back) (hnew : key ∉ Entries.keys back) :
    (entries.foldl define ⟨[]⟩).resolve (segments key) = some scalar.toJson ↔
      ∀ later ∈ back, ¬ Comparable (segments later.1) (segments key) := by
  have hlast : lastComparable? entries (segments key) =
      some ((lastComparable? back (segments key)).getD (key, scalar)) := by
    rw [hentries]
    exact lastComparable?_append_cons (.inl (List.prefix_refl _))
  obtain ⟨hself, hbelow, habove⟩ :=
    (resolve_foldl_define entries (segments_ne_nil key)).2 _ hlast
  rw [← lastComparable?_eq_none_iff]
  cases hlater : lastComparable? back (segments key) with
  | none =>
    simp only [hlater, Option.getD_none, forall_const] at hself
    simp [hself]
  | some later =>
    simp only [hlater, Option.getD_some] at hbelow habove
    have hmem := List.mem_filter.mp (List.mem_of_getLast? hlater)
    have hne : segments later.1 ≠ segments key := by
      intro heq
      exact hnew (segments_injective heq ▸ List.mem_map_of_mem hmem.1)
    simp only [reduceCtorEq, iff_false]
    -- The later definition has put a mapping there, or has left nothing there.
    rcases (by simpa using hmem.2 : Comparable (segments later.1) (segments key)) with h | h
    · simp [hbelow h hne]
    · obtain ⟨inner, hinner⟩ := habove h hne
      simp [hinner, (toJson_ne_object scalar inner).symm]

/-- The last definition with a comparable key decides what a path leads to, whatever was stored
before it: its own value at its own path, nothing below that path, and a mapping above it. -/
theorem resolve_build (defines : Defines) (path : List String) (h : path ≠ []) :
    (lastComparable? defines.entries path = none → (build defines).resolve path = none) ∧
    ∀ entry, lastComparable? defines.entries path = some entry →
      (segments entry.1 = path → (build defines).resolve path = some entry.2.toJson) ∧
      (segments entry.1 <+: path → segments entry.1 ≠ path →
        (build defines).resolve path = none) ∧
      (path <+: segments entry.1 → segments entry.1 ≠ path →
        ∃ inner, (build defines).resolve path = some (.object inner)) :=
  resolve_foldl_define defines.entries h

/-- The leaf `a` gives way to a mapping again, and `a..` has empty segments. -/
theorem resolve_build_overwritten :
    let defines : Defines :=
      .ofList [("a.b", .bool true), ("a", .string "leaf"), ("a..", .bool false)]
    lastComparable? defines.entries ["a"] = some ("a..", .bool false) ∧
      ∃ inner, (build defines).resolve ["a"] = some (.object inner) := by
  intro defines
  have hlast : lastComparable? defines.entries ["a"] = some ("a..", .bool false) := by decide
  exact ⟨hlast, ((resolve_build defines ["a"] (by decide)).2 _ hlast).2.2 (by decide) (by decide)⟩

end EdgeTemplate.Context
