import EdgeTemplate.Defines.Collect
import EdgeTemplate.Proofs.Insertion
import EdgeTemplate.Proofs.Lookup
import EdgeTemplate.Proofs.Outcome

/-!
# Overrides

Defines are gathered from a file, a text and pairs, each overriding those before it. An override
replaces the value of its key but leaves the key where it was first defined, while lookup goes by
the last comparable key. So a pair takes effect exactly when no comparable key was first defined
after its own key, wherever that was.
-/
namespace EdgeTemplate.Defines

open Context Entries Outcome

/-- The entries of all sources in their order, before they are merged. -/
def sourceEntries (file text : Option String) (pairs : List String) :
    Except Error (List (String × Scalar)) := do
  let file ← ofText? file
  let text ← ofText? text
  let entries ← pairs.mapM ofPair
  return file.entries ++ text.entries ++ entries

theorem collect_eq_map (file text : Option String) (pairs : List String) :
    collect file text pairs = OrderedMap.ofList <$> sourceEntries file text pairs := by
  unfold collect sourceEntries
  cases ofText? file with
  | error error => rfl
  | ok file =>
    cases ofText? text with
    | error error => rfl
    | ok text =>
      cases pairs.mapM ofPair with
      | error error => rfl
      | ok entries =>
        change Except.ok ((file.extend text).insertAll entries) = .ok _
        rw [OrderedMap.extend, OrderedMap.insertAll_eq_ofList file, OrderedMap.ofList,
          OrderedMap.ofList, OrderedMap.insertAll_append _ (file.entries ++ text.entries)]

/-- The entry of a pair among the entries of all sources. What comes after it stems from later
pairs. -/
theorem exists_sourceEntries_eq_append {file text : Option String} {before after : List String}
    {pair : String} {entries : List (String × Scalar)} {entry : String × Scalar}
    (h : sourceEntries file text (before ++ pair :: after) = .ok entries)
    (hpair : ofPair pair = .ok entry) :
    ∃ front back, entries = front ++ entry :: back ∧
      ∀ later ∈ back, ∃ source ∈ after, ofPair source = .ok later := by
  obtain ⟨fileDefines, -, h⟩ := bind_eq_ok_iff.mp h
  obtain ⟨textDefines, -, h⟩ := bind_eq_ok_iff.mp h
  obtain ⟨pairEntries, hpairs, h⟩ := bind_eq_ok_iff.mp h
  obtain rfl := Except.ok.inj h
  obtain ⟨front, found, back, hfound, hback, rfl⟩ := mapM_append_cons_eq_ok hpairs
  obtain rfl := Except.ok.inj (hpair.symm.trans hfound)
  exact ⟨fileDefines.entries ++ textDefines.entries ++ front, back, by simp,
    fun later hlater => exists_of_mem_mapM hback hlater⟩

/-- A pair that no later pair collides with takes effect exactly when no comparable key is first
defined after its own key, in the order of the file, the text and the pairs. -/
theorem resolve_override_iff (file text : Option String) (before after : List String)
    (pair key : String) (value : Scalar) (defines : Defines)
    (hcollect : collect file text (before ++ pair :: after) = .ok defines)
    (hpair : ofPair pair = .ok (key, value))
    (hlater : ∀ later ∈ after, ∀ entry, ofPair later = .ok entry →
      ¬ Comparable (segments entry.1) (segments key)) :
    ∃ entries, sourceEntries file text (before ++ pair :: after) = .ok entries ∧
      ((build defines).resolve (segments key) = some value.toJson ↔
        ∀ other ∈ keys entries, Comparable (segments other) (segments key) →
          (keys entries).idxOf other ≤ (keys entries).idxOf key) := by
  rw [collect_eq_map] at hcollect
  obtain ⟨entries, hentries, rfl⟩ := map_eq_ok_iff.mp hcollect
  refine ⟨entries, hentries, ?_⟩
  obtain ⟨front, back, hsplit, hback⟩ := exists_sourceEntries_eq_append hentries hpair
  have hlast : key ∉ keys back := by
    intro hmem
    obtain ⟨entry, hentry, heq⟩ := List.mem_map.mp hmem
    obtain ⟨source, hsource, hresult⟩ := hback entry hentry
    exact hlater source hsource entry hresult (heq ▸ .inl (List.prefix_refl _))
  have hget : (OrderedMap.ofList entries).get? key = some value := by
    rw [hsplit]
    exact OrderedMap.get?_ofList front value hlast
  -- The override stands where its key was first defined, with what was first defined later behind.
  obtain ⟨earlier, behind, hmap, -⟩ := List.lookup_eq_some_iff.mp hget
  have hdistinct := (OrderedMap.ofList entries).distinct
  rw [hmap, OrderedMap.keys_append, keys_cons, List.nodup_append, List.nodup_cons] at hdistinct
  rw [build, resolve_segments_iff hmap hdistinct.2.1.1]
  constructor
  · intro hfree other hother hcomparable
    by_contra hlt
    have hmem : other ∈ keys behind :=
      (OrderedMap.mem_keys_behind_iff hmap).mpr ⟨hother, Nat.lt_of_not_le hlt⟩
    obtain ⟨entry, hentry, rfl⟩ := List.mem_map.mp hmem
    exact hfree entry hentry hcomparable
  · intro hfirst later hmem hcomparable
    obtain ⟨hother, hlt⟩ :=
      (OrderedMap.mem_keys_behind_iff hmap).mp (List.mem_map_of_mem hmem)
    exact Nat.not_le_of_lt hlt (hfirst later.1 hother hcomparable)

/-- The pair comes after the key `a.b` of the file that it collides with, and it takes effect. -/
theorem resolve_override_after_file :
    ∃ defines, collect (some "\x7b\"a.b\": 1\x7d") none ["x=y", " a =2", "ab=true"] = .ok defines ∧
      (build defines).resolve ["a"] = some (.number (.int 2)) := by
  have hcollect : collect (some "\x7b\"a.b\": 1\x7d") none ["x=y", " a =2", "ab=true"] =
      .ok (.ofList [("a.b", .number (.int 1)), ("x", .string "y"), ("a", .number (.int 2)),
        ("ab", .bool true)]) := by
    simp only [collect, ofText?, ofText, String.reduceToList]
    rfl
  have hpair : ofPair " a =2" = .ok ("a", .number (.int 2)) := by rfl
  have hlater : ∀ later ∈ ["ab=true"], ∀ entry, ofPair later = .ok entry →
      ¬ Comparable (segments entry.1) (segments "a") := by
    intro later hlater entry hentry
    obtain rfl := List.mem_singleton.mp hlater
    have hother : ofPair "ab=true" = .ok ("ab", .bool true) := by rfl
    obtain rfl := Except.ok.inj (hother.symm.trans hentry)
    decide
  obtain ⟨entries, hentries, hiff⟩ :=
    resolve_override_iff _ none ["x=y"] ["ab=true"] _ _ _ _ hcollect hpair hlater
  have hsource : sourceEntries (some "\x7b\"a.b\": 1\x7d") none ["x=y", " a =2", "ab=true"] =
      .ok [("a.b", .number (.int 1)), ("x", .string "y"), ("a", .number (.int 2)),
        ("ab", .bool true)] := by
    simp only [sourceEntries, ofText?, ofText, String.reduceToList]
    rfl
  obtain rfl := Except.ok.inj (hsource.symm.trans hentries)
  exact ⟨_, hcollect, hiff.mpr (by decide)⟩

/-- The pair gives `a` a new value but leaves it before `a.b`, which turns `a` into a mapping. -/
theorem resolve_override_in_place :
    ∃ defines inner, collect none (some "\x7b\"a\": 1, \"a.b\": 2\x7d") ["a=3"] = .ok defines ∧
      ofPair "a=3" = .ok ("a", .number (.int 3)) ∧
      (build defines).resolve (segments "a") = some (.object inner) := by
  refine ⟨.ofList [("a", .number (.int 3)), ("a.b", .number (.int 2))],
    [("b", .number (.int 2))], ?_, ?_, ?_⟩
  · simp only [collect, ofText?, ofText, String.reduceToList]
    rfl
  · rfl
  · rfl

end EdgeTemplate.Defines
