import EdgeTemplate.Proofs.Overrides
import Mathlib.Data.List.Forall2

/-!
# Merging defines

Maps are merged by inserting the entries of one into the other. That a map holds each key once, at
its first position and with its last value, does not show in a merge: inserting the entries of a map
comes to the same as inserting all the pairs that the map was built up from. So a map is determined
by the list of all insertions that ever went into it, merging is concatenation of these lists, and
the defines of a command are those of its sources in a row.
-/
namespace EdgeTemplate

open Entries

/-! ### Two insertions -/

namespace Entries

variable {α : Type} {key other : String} {entries : List (String × α)}

theorem put_put_self (key : String) (value old : α) (entries : List (String × α)) :
    put key value (put key old entries) = put key value entries := by
  induction entries with
  | nil => simp [put]
  | cons entry rest ih =>
    by_cases h : entry.1 = key
    · simp [put, h]
    · simp [put, h, ih]

theorem put_put_of_mem (hne : key ≠ other) (hmem : key ∈ keys entries) (value : α) (stored : α) :
    put key value (put other stored entries) = put other stored (put key value entries) := by
  induction entries with
  | nil => cases hmem
  | cons entry rest ih =>
    by_cases hkey : entry.1 = key
    · simp [put, hkey, hne]
    · have hrest : key ∈ keys rest := by simpa [Ne.symm hkey] using hmem
      by_cases hother : entry.1 = other
      · simp [put, hother, Ne.symm hne]
      · simp [put, hkey, hother, ih hrest]

end Entries

/-! ### Maps as operands -/

namespace OrderedMap

variable {α : Type} {key : String} {value : α} {pairs : List (String × α)}

theorem eq_of_entries_eq {a b : OrderedMap α} (h : a.entries = b.entries) : a = b := by
  rw [← ofList_entries a, h, ofList_entries]

theorem mem_keys_insert {map : OrderedMap α} {other : String} :
    other ∈ keys (map.insert key value).entries ↔ other ∈ keys map.entries ∨ other = key := by
  rw [insert, keys_put]
  split
  · rename_i hmem
    exact ⟨.inl, fun h => h.elim id fun heq => heq ▸ hmem⟩
  · rw [List.mem_append, List.mem_singleton]

theorem insert_insertAll_of_mem (map : OrderedMap α) (hmem : key ∈ keys map.entries)
    (hnew : key ∉ keys pairs) (value : α) :
    (map.insertAll pairs).insert key value = (map.insert key value).insertAll pairs := by
  induction pairs generalizing map with
  | nil => rfl
  | cons pair pairs ih =>
    rw [keys_cons, List.mem_cons, not_or] at hnew
    have hkept : key ∈ keys (map.insert pair.1 pair.2).entries := mem_keys_insert.mpr (.inl hmem)
    have hswap : (map.insert pair.1 pair.2).insert key value =
        (map.insert key value).insert pair.1 pair.2 :=
      eq_of_entries_eq (put_put_of_mem hnew.1 hmem value pair.2)
    rw [insertAll_cons, ih _ hkept hnew.2, hswap, insertAll_cons]

theorem insertAll_put (map : OrderedMap α) (hdistinct : (keys pairs).Nodup) (key : String)
    (value : α) : map.insertAll (put key value pairs) = (map.insertAll pairs).insert key value := by
  induction pairs generalizing map with
  | nil => rfl
  | cons pair pairs ih =>
    rw [keys_cons, List.nodup_cons] at hdistinct
    by_cases hkey : pair.1 = key
    · -- The pair of the key comes first on both sides; its value is replaced at once or at the end.
      subst hkey
      have hmem : pair.1 ∈ keys (map.insert pair.1 pair.2).entries :=
        mem_keys_insert.mpr (.inr rfl)
      have hlast : (map.insert pair.1 pair.2).insert pair.1 value = map.insert pair.1 value :=
        eq_of_entries_eq (put_put_self pair.1 value pair.2 map.entries)
      rw [put, if_pos rfl, insertAll_cons, insertAll_cons,
        insert_insertAll_of_mem _ hmem hdistinct.1, hlast]
    · rw [put, if_neg hkey, insertAll_cons, insertAll_cons, ih _ hdistinct.2]

/-- Extending by a map comes to the same as inserting all that the map was built up from. -/
theorem extend_ofList (map : OrderedMap α) (pairs : List (String × α)) :
    map.extend (ofList pairs) = map.insertAll pairs := by
  rw [extend]
  induction pairs using List.reverseRecOn with
  | nil => rfl
  | append_singleton pairs pair ih =>
    rw [ofList_append_singleton, insert, insertAll_put map (ofList pairs).distinct, ih,
      insertAll_append]
    rfl

theorem ofList_append (front back : List (String × α)) :
    ofList (front ++ back) = (ofList front).extend (ofList back) := by
  rw [extend_ofList, ofList, insertAll_append, ← ofList]

theorem extend_assoc (a b c : OrderedMap α) : (a.extend b).extend c = a.extend (b.extend c) := by
  have hright : b.extend c = ofList (b.entries ++ c.entries) := insertAll_eq_ofList b c.entries
  rw [hright, extend_ofList, insertAll_append]
  rfl

theorem empty_extend (map : OrderedMap α) : empty.extend map = map :=
  ofList_entries map

theorem extend_empty (map : OrderedMap α) : map.extend empty = map :=
  rfl

/-! ### Constructions -/

/-- How a map is built up: from nothing, by insertions, by extending it, or collected from a list of
pairs, which starts anew. -/
inductive Construction (α : Type) where
  | new
  | insert (map : Construction α) (key : String) (value : α)
  | extend (map other : Construction α)
  | collect (pairs : List (String × α))

namespace Construction

def run : Construction α → OrderedMap α
  | new => .empty
  | insert map key value => map.run.insert key value
  | extend map other => map.run.extend other.run
  | collect pairs => .ofList pairs

/-- All insertions that went into the map, the earliest first. -/
def insertions : Construction α → List (String × α)
  | new => []
  | insert map key value => map.insertions ++ [(key, value)]
  | extend map other => map.insertions ++ other.insertions
  | collect pairs => pairs

/-- However a map is built up, only the insertions count. -/
theorem run_eq_ofList (construction : Construction α) :
    construction.run = ofList construction.insertions := by
  induction construction with
  | new => rfl
  | insert map key value ih => rw [run, insertions, ih, ofList_append_singleton]
  | extend map other ihmap ihother => rw [run, insertions, ihmap, ihother, ofList_append]
  | collect pairs => rfl

end Construction

end OrderedMap

/-! ### Gathering -/

theorem Outcome.mapM_eq_ok_iff {ε α β : Type} {f : α → Except ε β} {xs : List α} {ys : List β} :
    xs.mapM f = .ok ys ↔ List.Forall₂ (fun x y => f x = .ok y) xs ys := by
  induction xs generalizing ys with
  | nil =>
    constructor
    · intro h
      obtain rfl := Except.ok.inj h
      exact .nil
    · rintro ⟨⟩
      rfl
  | cons x xs ih =>
    rw [List.mapM_cons]
    constructor
    · intro h
      obtain ⟨y, hy, h⟩ := bind_eq_ok_iff.mp h
      obtain ⟨others, hothers, h⟩ := bind_eq_ok_iff.mp h
      obtain rfl := Except.ok.inj h
      exact .cons hy (ih.mp hothers)
    · rintro (_ | ⟨hy, hothers⟩)
      rw [hy, ih.mpr hothers]
      rfl

namespace Defines

open Outcome OrderedMap

/-- The pair is a key, the first `=` and a value. Its entry has the key without the blanks around it
and the value as it is read from bare text. -/
def Assigns (pair : String) (entry : String × Scalar) : Prop :=
  ∃ key value, pair.toList = key ++ '=' :: value ∧ '=' ∉ key ∧
    entry = (String.ofList (Text.trim key), .ofLoose value)

theorem ofPair_eq_ok_iff {pair : String} {entry : String × Scalar} :
    ofPair pair = .ok entry ↔ Assigns pair entry := by
  unfold ofPair Assigns
  cases hcut : Text.cut? '=' pair.toList with
  | none =>
    constructor
    · intro h
      cases h
    · rintro ⟨key, value, hpair, hfree, -⟩
      rw [Text.cut?_eq_some_iff.mpr ⟨hpair, hfree⟩] at hcut
      cases hcut
  | some parts =>
    obtain ⟨hpair, hfree⟩ := Text.cut?_eq_some_iff.mp hcut
    constructor
    · intro h
      exact ⟨parts.1, parts.2, hpair, hfree, (Except.ok.inj h).symm⟩
    · rintro ⟨key, value, hpair', hfree', rfl⟩
      obtain rfl := Option.some.inj (hcut.symm.trans (Text.cut?_eq_some_iff.mpr ⟨hpair', hfree'⟩))
      rfl

/-- Gathering succeeds exactly if each source can be read, and it collects the entries of all
sources in their order. -/
theorem collect_eq_ok_iff {file text : Option String} {pairs : List String} {defines : Defines} :
    collect file text pairs = .ok defines ↔
      ∃ fromFile fromText entries, ofText? file = .ok fromFile ∧ ofText? text = .ok fromText ∧
        List.Forall₂ Assigns pairs entries ∧
        defines = .ofList (fromFile.entries ++ fromText.entries ++ entries) := by
  have hpairs : ∀ {entries},
      pairs.mapM ofPair = .ok entries ↔ List.Forall₂ Assigns pairs entries := by
    intro entries
    simp only [mapM_eq_ok_iff, ofPair_eq_ok_iff]
  rw [collect_eq_map]
  constructor
  · intro h
    obtain ⟨all, hall, rfl⟩ := map_eq_ok_iff.mp h
    obtain ⟨fromFile, hfile, hall⟩ := bind_eq_ok_iff.mp hall
    obtain ⟨fromText, htext, hall⟩ := bind_eq_ok_iff.mp hall
    obtain ⟨entries, hentries, hall⟩ := bind_eq_ok_iff.mp hall
    obtain rfl := Except.ok.inj hall
    exact ⟨fromFile, fromText, entries, hfile, htext, hpairs.mp hentries, rfl⟩
  · rintro ⟨fromFile, fromText, entries, hfile, htext, hentries, rfl⟩
    rw [sourceEntries, hfile, htext, hpairs.mpr hentries]
    rfl

/-- However defines are built up, each key stands where it was first inserted and holds what was
inserted last. Collecting turns concatenation into extension, which is associative and has the empty
defines as its unit. Gathering collects the entries of the file, the text and the pairs in a row. -/
theorem merging_laws :
    (∀ construction : Construction Scalar,
      (keys construction.run.entries).Nodup ∧
      keys construction.run.entries = (keys construction.insertions).eraseDups ∧
      ∀ key, construction.run.get? key = construction.insertions.reverse.lookup key) ∧
    (∀ front back : List (String × Scalar),
      ofList (front ++ back) = (ofList front).extend (ofList back)) ∧
    (∀ a b c : Defines, (a.extend b).extend c = a.extend (b.extend c)) ∧
    (∀ a : Defines, OrderedMap.empty.extend a = a ∧ a.extend .empty = a) ∧
    ∀ file text pairs (defines : Defines), collect file text pairs = .ok defines ↔
      ∃ fromFile fromText entries, ofText? file = .ok fromFile ∧ ofText? text = .ok fromText ∧
        List.Forall₂ Assigns pairs entries ∧
        defines = .ofList (fromFile.entries ++ fromText.entries ++ entries) := by
  refine ⟨?_, ofList_append, extend_assoc, ?_, fun _ _ _ _ => collect_eq_ok_iff⟩
  · intro construction
    rw [construction.run_eq_ofList]
    exact ⟨(ofList _).distinct, keys_ofList _, get?_ofList_eq _⟩
  · intro a
    exact ⟨empty_extend a, extend_empty a⟩

end Defines

end EdgeTemplate
