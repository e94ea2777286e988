import EdgeTemplate.OrderedMap
import Mathlib.Data.List.Induction

/-!
# Repeated insertion

What an ordered map holds after a list of insertions: the keys of the list, each once and in the
order in which they first come, and under each key the value that comes last. Order and value of a
key may thus stem from different insertions.
-/
namespace EdgeTemplate.OrderedMap

open Entries

variable {α : Type} {key : String} {value : α} {pairs : List (String × α)}

theorem insertAll_cons (map : OrderedMap α) (pair : String × α) (pairs : List (String × α)) :
    map.insertAll (pair :: pairs) = (map.insert pair.1 pair.2).insertAll pairs :=
  rfl

theorem insertAll_append (map : OrderedMap α) (front back : List (String × α)) :
    map.insertAll (front ++ back) = (map.insertAll front).insertAll back :=
  List.foldl_append

theorem ofList_append_singleton (pairs : List (String × α)) (pair : String × α) :
    ofList (pairs ++ [pair]) = (ofList pairs).insert pair.1 pair.2 :=
  insertAll_append _ _ _

theorem keys_append (front back : List (String × α)) :
    keys (front ++ back) = keys front ++ keys back :=
  List.map_append

/-! ### First occurrences -/

theorem eraseDups_concat (keys : List String) (key : String) :
    (keys ++ [key]).eraseDups =
      if key ∈ keys then keys.eraseDups else keys.eraseDups ++ [key] := by
  rw [List.eraseDups_append, List.removeAll]
  split
  · rename_i hmem
    simp [hmem]
  · rename_i hnew
    simp only [List.elem_eq_mem, List.filter_cons, hnew, decide_false, Bool.not_false, if_true,
      List.filter_nil]
    rfl

theorem nodup_eraseDups (keys : List String) : keys.eraseDups.Nodup := by
  induction keys using List.reverseRecOn with
  | nil => exact .nil
  | append_singleton keys key ih =>
    rw [eraseDups_concat]
    split
    · exact ih
    · rename_i hnew
      refine List.nodup_append.mpr ⟨ih, List.pairwise_singleton _ _, ?_⟩
      rintro other hother _ hkey rfl
      obtain rfl := List.mem_singleton.mp hkey
      exact hnew (List.mem_eraseDups.mp hother)

/-! ### Values -/

theorem get?_insertAll_of_not_mem (map : OrderedMap α) (h : key ∉ keys pairs) :
    (map.insertAll pairs).get? key = map.get? key := by
  induction pairs generalizing map with
  | nil => rfl
  | cons pair pairs ih =>
    rw [keys_cons, List.mem_cons, not_or] at h
    rw [insertAll_cons, ih _ h.2, get?_insert_of_ne map h.1]

theorem get?_ofList (front : List (String × α)) (value : α) {back : List (String × α)}
    (h : key ∉ keys back) : (ofList (front ++ (key, value) :: back)).get? key = some value := by
  rw [ofList, insertAll_append, insertAll_cons, get?_insertAll_of_not_mem _ h, get?_insert_self]

theorem get?_ofList_eq (pairs : List (String × α)) (key : String) :
    (ofList pairs).get? key = pairs.reverse.lookup key := by
  induction pairs using List.reverseRecOn with
  | nil => rfl
  | append_singleton pairs pair ih =>
    rw [ofList_append_singleton, List.reverse_append, List.reverse_singleton, List.singleton_append,
      lookup_cons_eq_if]
    by_cases hkey : pair.1 = key
    · subst hkey
      rw [if_pos rfl, get?_insert_self]
    · rw [if_neg hkey, get?_insert_of_ne _ (Ne.symm hkey), ih]

/-! ### Keys -/

theorem keys_ofList (pairs : List (String × α)) :
    keys (ofList pairs).entries = (keys pairs).eraseDups := by
  induction pairs using List.reverseRecOn with
  | nil => rfl
  | append_singleton pairs pair ih =>
    rw [ofList_append_singleton, insert, keys_put, ih, keys_append, keys_cons, keys_nil,
      eraseDups_concat]
    simp only [List.mem_eraseDups]

theorem mem_keys_ofList : key ∈ keys (ofList pairs).entries ↔ key ∈ keys pairs := by
  rw [keys_ofList, List.mem_eraseDups]

/-- Keys stand in the order of their first insertion. -/
theorem pairwise_keys_ofList (pairs : List (String × α)) :
    (keys (ofList pairs).entries).Pairwise
      fun first second => (keys pairs).idxOf first < (keys pairs).idxOf second := by
  induction pairs using List.reverseRecOn with
  | nil => exact .nil
  | append_singleton pairs pair ih =>
    have hkeys : keys (pairs ++ [pair]) = keys pairs ++ [pair.1] := keys_append pairs [pair]
    have hold : ∀ {key}, key ∈ keys (ofList pairs).entries →
        (keys pairs ++ [pair.1]).idxOf key = (keys pairs).idxOf key := by
      intro key hkey
      rw [List.idxOf_append, if_pos (mem_keys_ofList.mp hkey)]
    have hpairs : (keys (ofList pairs).entries).Pairwise fun first second =>
        (keys pairs ++ [pair.1]).idxOf first < (keys pairs ++ [pair.1]).idxOf second :=
      ih.imp_of_mem fun hfirst hsecond hlt => by rwa [hold hfirst, hold hsecond]
    rw [ofList_append_singleton, insert, keys_put, hkeys]
    split
    · exact hpairs
    · rename_i hnew
      refine List.pairwise_append.mpr ⟨hpairs, List.pairwise_singleton _ _, ?_⟩
      intro first hfirst second hsecond
      obtain rfl := List.mem_singleton.mp hsecond
      rw [hold hfirst, List.idxOf_append, if_neg fun hmem => hnew (mem_keys_ofList.mpr hmem)]
      exact Nat.lt_add_left _ (List.idxOf_lt_length_of_mem (mem_keys_ofList.mp hfirst))

theorem mem_keys_behind_iff {front back : List (String × α)}
    (h : (ofList pairs).entries = front ++ (key, value) :: back) {other : String} :
    other ∈ keys back ↔
      other ∈ keys pairs ∧ (keys pairs).idxOf key < (keys pairs).idxOf other := by
  have horder := pairwise_keys_ofList pairs
  rw [h, keys_append, keys_cons, List.pairwise_append, List.pairwise_cons] at horder
  obtain ⟨-, ⟨hbehind, -⟩, hbefore⟩ := horder
  have hmem : other ∈ keys pairs ↔ other ∈ keys front ∨ other = key ∨ other ∈ keys back := by
    rw [← mem_keys_ofList, h, keys_append, keys_cons, List.mem_append, List.mem_cons]
  rw [hmem]
  constructor
  · intro hother
    exact ⟨.inr (.inr hother), hbehind other hother⟩
  · rintro ⟨hother | rfl | hother, hlt⟩
    · have := hbefore other hother key (by simp)
      omega
    · omega
    · exact hother

/-! ### Maps as lists of insertions -/

theorem entries_insertAll (map : OrderedMap α) (hdistinct : (keys pairs).Nodup)
    (hnew : ∀ key ∈ keys pairs, key ∉ keys map.entries) :
    (map.insertAll pairs).entries = map.entries ++ pairs := by
  induction pairs generalizing map with
  | nil => simp [insertAll]
  | cons pair pairs ih =>
    rw [keys_cons, List.nodup_cons] at hdistinct
    rw [keys_cons, List.forall_mem_cons] at hnew
    have hentries : (map.insert pair.1 pair.2).entries = map.entries ++ [pair] :=
      put_of_not_mem hnew.1 pair.2
    rw [insertAll_cons, ih _ hdistinct.2, hentries, List.append_assoc, List.singleton_append]
    intro key hkey
    rw [hentries, keys_append, List.mem_append, not_or]
    refine ⟨hnew.2 key hkey, ?_⟩
    rintro hmem
    obtain rfl := List.mem_singleton.mp hmem
    exact hdistinct.1 hkey

theorem ofList_entries (map : OrderedMap α) : ofList map.entries = map := by
  have hentries : (ofList map.entries).entries = map.entries :=
    entries_insertAll empty map.distinct fun _ _ => List.not_mem_nil
  cases hmap : ofList map.entries
  cases map
  simp_all

theorem insertAll_eq_ofList (map : OrderedMap α) (pairs : List (String × α)) :
    map.insertAll pairs = ofList (map.entries ++ pairs) := by
  conv_lhs => rw [← ofList_entries map]
  exact (insertAll_append _ _ _).symm

end EdgeTemplate.OrderedMap
