import EdgeTemplate.Proofs.Insertion
import EdgeTemplate.Proofs.Lookup
import Mathlib.Data.List.DropRight

/-!
# Mappings of a context

A mapping of the tree grows while definitions are stored below it, and it is gone as soon as one is
stored at its own path or above. Its fields keep the position in which they first came, also where a
field changes from a leaf to a mapping or back. So the keys of a mapping are read off the
definitions since it was last gone. Each definition stores a scalar and leaves no mapping on its
way without a field, so the tree holds scalars and mappings with fields and nothing else.
-/
namespace EdgeTemplate.Context

open Entries

/-- The mapping at a path. The empty path stands for the root. -/
def mapping? (context : Context) : List String → Option (List (String × Json))
  | [] => some context.root
  | path =>
    match context.resolve path with
    | some (.object fields) => some fields
    | _ => none

/-- The segment that follows a path in a key that properly continues it. -/
def branch? (path : List String) (entry : String × Scalar) : Option String :=
  if path <+: segments entry.1 then (segments entry.1)[path.length]? else none

/-- The definitions after the last one whose key is the path itself or is continued by it. -/
def sinceLeaf (path : List String) (entries : List (String × Scalar)) : List (String × Scalar) :=
  entries.rtakeWhile fun entry => ¬ segments entry.1 <+: path

/-- `Occurs value fields` says that the value stands somewhere below the fields. -/
inductive Occurs : Json → List (String × Json) → Prop
  | field {key value fields} : (key, value) ∈ fields → Occurs value fields
  | inside {key value inner fields} : (key, .object inner) ∈ fields → Occurs value inner →
      Occurs value fields

variable {key next : String} {path : List String} {fields : List (String × Json)} {value : Json}
  {entries : List (String × Scalar)} {entry : String × Scalar}

/-! ### Fields at a path -/

/-- The fields of the mapping at a path, or none if something else or nothing is there. -/
def fieldsAt : List String → List (String × Json) → List (String × Json)
  | [], fields => fields
  | key :: path, fields => fieldsAt path (children key fields)

theorem fieldsAt_nil (path : List String) : fieldsAt path [] = [] := by
  induction path with
  | nil => rfl
  | cons key path ih => exact ih

theorem fieldsAt_concat (path : List String) (key : String) (fields : List (String × Json)) :
    fieldsAt (path ++ [key]) fields = children key (fieldsAt path fields) := by
  induction path generalizing fields with
  | nil => rfl
  | cons first path ih => exact ih (children first fields)

theorem descend_concat (path : List String) (key : String) (fields : List (String × Json)) :
    descend (path ++ [key]) fields = (fieldsAt path fields).lookup key := by
  induction path generalizing fields with
  | nil => rfl
  | cons first path ih =>
    rw [fieldsAt, ← ih]
    cases path with
    | nil => rfl
    | cons step path => rfl

theorem fieldsAt_eq (h : path ≠ []) (fields : List (String × Json)) :
    fieldsAt path fields =
      match descend path fields with
      | some (.object inner) => inner
      | _ => [] := by
  obtain rfl | ⟨front, key, rfl⟩ := path.eq_nil_or_concat
  · exact (h rfl).elim
  · rw [List.concat_eq_append, fieldsAt_concat, descend_concat]
    rfl

theorem fieldsAt_of_mapping? {context : Context} (h : context.mapping? path = some fields) :
    fieldsAt path context.root = fields := by
  cases path with
  | nil => exact Option.some.inj h
  | cons key path =>
    rw [fieldsAt_eq (List.cons_ne_nil key path)]
    change (match descend (key :: path) context.root with
      | some (.object fields) => some fields
      | _ => none) = some fields at h
    split at h
    · exact Option.some.inj h
    · cases h

/-! ### One definition -/

theorem graft_cons (key : String) (h : path ≠ []) (value : Json) (fields : List (String × Json)) :
    graft value (key :: path) fields =
      put key (.object (graft value path (children key fields))) fields := by
  cases path with
  | nil => exact (h rfl).elim
  | cons next path => rfl

theorem keys_graft_cons (key : String) (path : List String) (value : Json)
    (fields : List (String × Json)) :
    keys (graft value (key :: path) fields) =
      if key ∈ keys fields then keys fields else keys fields ++ [key] := by
  cases path with
  | nil => exact keys_put key value fields
  | cons next path => exact keys_put key _ fields

theorem keys_fieldsAt_graft (path : List String) (next : String) (rest : List String)
    (value : Json) (fields : List (String × Json)) :
    keys (fieldsAt path (graft value (path ++ next :: rest) fields)) =
      if next ∈ keys (fieldsAt path fields) then keys (fieldsAt path fields)
      else keys (fieldsAt path fields) ++ [next] := by
  induction path generalizing fields with
  | nil => exact keys_graft_cons next rest value fields
  | cons key path ih =>
    rw [List.cons_append, graft_cons key (by simp), fieldsAt, children_put_object]
    exact ih (children key fields)

theorem branch?_eq_some {rest : List String}
    (h : segments entry.1 = path ++ next :: rest) : branch? path entry = some next := by
  rw [branch?, h, if_pos (List.prefix_append _ _), List.getElem?_append_right (Nat.le_refl _),
    Nat.sub_self]
  rfl

theorem fieldsAt_define_of_ends (context : Context) (h : segments entry.1 <+: path) :
    fieldsAt path (context.define entry).root = [] := by
  have hpath : path ≠ [] := by
    rintro rfl
    exact segments_ne_nil entry.1 (List.prefix_nil.mp h)
  obtain ⟨hself, hbelow, -⟩ := decided_define context entry hpath
  rw [fieldsAt_eq hpath, ← resolve]
  by_cases heq : segments entry.1 = path
  · rw [hself heq]
    cases entry.2 <;> rfl
  · rw [hbelow h heq]

/-- What a definition does to the keys of the mapping at a path: it ends the mapping if its own key
is the path or above it, adds the next segment if it is below, and has no effect elsewhere. -/
theorem keys_fieldsAt_define (context : Context) (entry : String × Scalar) (path : List String) :
    keys (fieldsAt path (context.define entry).root) =
      if segments entry.1 <+: path then []
      else match branch? path entry with
        | some next =>
          if next ∈ keys (fieldsAt path context.root) then keys (fieldsAt path context.root)
          else keys (fieldsAt path context.root) ++ [next]
        | none => keys (fieldsAt path context.root) := by
  by_cases habove : segments entry.1 <+: path
  · rw [if_pos habove, fieldsAt_define_of_ends context habove, keys_nil]
  · rw [if_neg habove]
    by_cases hbelow : path <+: segments entry.1
    · obtain ⟨rest, hrest⟩ := hbelow
      cases rest with
      | nil => exact (habove (by simp [← hrest])).elim
      | cons next rest =>
        rw [branch?_eq_some hrest.symm, define, ← hrest]
        exact keys_fieldsAt_graft path next rest entry.2.toJson context.root
    · -- The definition lies elsewhere, and the path leads where it led before.
      have hpath : path ≠ [] := by
        rintro rfl
        exact hbelow List.nil_prefix
      have hapart : ¬ Comparable (segments entry.1) path := not_or.mpr ⟨habove, hbelow⟩
      rw [branch?, if_neg hbelow, fieldsAt_eq hpath, fieldsAt_eq hpath, define,
        descend_graft_of_not_comparable hapart]

/-! ### All definitions -/

theorem sinceLeaf_concat_of_ends (h : segments entry.1 <+: path) :
    sinceLeaf path (entries ++ [entry]) = [] :=
  List.rtakeWhile_concat_neg _ _ _ (by simpa using h)

theorem sinceLeaf_concat_of_not_ends (h : ¬ segments entry.1 <+: path) :
    sinceLeaf path (entries ++ [entry]) = sinceLeaf path entries ++ [entry] :=
  List.rtakeWhile_concat_pos _ _ _ (by simpa using h)

/-- The keys of the mapping at a path are the segments that follow it in the definitions since it
was last gone, each where it first occurs. -/
theorem keys_fieldsAt_foldl (entries : List (String × Scalar)) (path : List String) :
    keys (fieldsAt path (entries.foldl define ⟨[]⟩).root) =
      ((sinceLeaf path entries).filterMap (branch? path)).eraseDups := by
  induction entries using List.reverseRecOn with
  | nil =>
    rw [List.foldl_nil, fieldsAt_nil, sinceLeaf, List.rtakeWhile_nil]
    rfl
  | append_singleton entries entry ih =>
    rw [List.foldl_append, List.foldl_cons, List.foldl_nil, keys_fieldsAt_define, ih]
    by_cases habove : segments entry.1 <+: path
    · rw [if_pos habove, sinceLeaf_concat_of_ends habove]
      rfl
    · rw [if_neg habove, sinceLeaf_concat_of_not_ends habove, List.filterMap_append]
      cases hbranch : branch? path entry with
      | none => simp [hbranch]
      | some next =>
        simp only [List.filterMap_cons, hbranch, List.filterMap_nil,
          OrderedMap.eraseDups_concat, List.mem_eraseDups]

/-- What comes after the last comparable definition cannot end a mapping. -/
theorem mem_sinceLeaf (hlast : lastComparable? entries path = some entry)
    (h : ¬ segments entry.1 <+: path) : entry ∈ sinceLeaf path entries := by
  induction entries using List.reverseRecOn with
  | nil => cases hlast
  | append_singleton entries last ih =>
    by_cases hcomparable : Comparable (segments last.1) path
    · have hfound : lastComparable? (entries ++ [last]) path = some last := by
        simp [lastComparable?, hcomparable]
      obtain rfl := Option.some.inj (hlast.symm.trans hfound)
      rw [sinceLeaf_concat_of_not_ends h]
      exact List.mem_append_right _ (List.mem_singleton_self _)
    · have hfound : lastComparable? (entries ++ [last]) path = lastComparable? entries path := by
        simp [lastComparable?, hcomparable]
      rw [sinceLeaf_concat_of_not_ends fun habove => hcomparable (.inl habove)]
      exact List.mem_append_left _ (ih (hfound.symm.trans hlast))

theorem fieldsAt_ne_nil (hlast : lastComparable? entries path = some entry)
    (hbelow : path <+: segments entry.1) (hne : segments entry.1 ≠ path) :
    fieldsAt path (entries.foldl define ⟨[]⟩).root ≠ [] := by
  have hmem : entry ∈ sinceLeaf path entries :=
    mem_sinceLeaf hlast fun habove => hne (habove.eq_of_length_le hbelow.length_le)
  obtain ⟨rest, hrest⟩ := hbelow
  cases rest with
  | nil => exact (hne (by simp [← hrest])).elim
  | cons next rest =>
    have hnext : next ∈ keys (fieldsAt path (entries.foldl define ⟨[]⟩).root) := by
      rw [keys_fieldsAt_foldl, List.mem_eraseDups]
      exact List.mem_filterMap.mpr ⟨entry, hmem, branch?_eq_some hrest.symm⟩
    intro hnil
    rw [hnil] at hnext
    cases hnext

/-! ### Values of the tree -/

theorem lookup_of_mem (hdistinct : (keys fields).Nodup) (h : (key, value) ∈ fields) :
    fields.lookup key = some value := by
  obtain ⟨front, back, rfl⟩ := List.append_of_mem h
  rw [OrderedMap.keys_append, keys_cons, List.nodup_append] at hdistinct
  refine List.lookup_eq_some_iff.mpr ⟨front, back, rfl, ?_⟩
  intro entry hentry
  rw [bne_iff_ne]
  exact (hdistinct.2.2 entry.1 (List.mem_map_of_mem hentry) key (by simp)).symm

theorem exists_descend_of_occurs {root : List (String × Json)}
    (hdistinct : ∀ path, (keys (fieldsAt path root)).Nodup) (path : List String)
    (hfields : fieldsAt path root = fields) (h : Occurs value fields) :
    ∃ target, target ≠ [] ∧ descend target root = some value := by
  -- The path grows by one key for each mapping that the value stands in.
  induction h generalizing path with
  | @field key value fields hmem =>
    refine ⟨path ++ [key], by simp, ?_⟩
    rw [descend_concat, hfields]
    exact lookup_of_mem (hfields ▸ hdistinct path) hmem
  | @inside key value inner fields hmem _ ih =>
    have hinner : fieldsAt (path ++ [key]) root = inner := by
      rw [fieldsAt_concat, hfields, children, lookup_of_mem (hfields ▸ hdistinct path) hmem]
    exact ih (path ++ [key]) hinner

theorem nodup_keys_fieldsAt (entries : List (String × Scalar)) (path : List String) :
    (keys (fieldsAt path (entries.foldl define ⟨[]⟩).root)).Nodup := by
  rw [keys_fieldsAt_foldl]
  exact OrderedMap.nodup_eraseDups _

theorem scalar_or_mapping_of_occurs (h : Occurs value (entries.foldl define ⟨[]⟩).root) :
    (∃ scalar : Scalar, value = scalar.toJson) ∨
      ∃ fields, value = .object fields ∧ fields ≠ [] := by
  obtain ⟨path, hpath, hvalue⟩ :=
    exists_descend_of_occurs (nodup_keys_fieldsAt entries) [] rfl h
  obtain ⟨hnone, hsome⟩ := resolve_foldl_define entries hpath
  rw [resolve, hvalue] at hnone hsome
  cases hlast : lastComparable? entries path with
  | none => cases hnone hlast
  | some entry =>
    obtain ⟨hself, hbelow, habove⟩ := hsome entry hlast
    by_cases heq : segments entry.1 = path
    · exact .inl ⟨entry.2, Option.some.inj (hself heq)⟩
    · have hmem := List.mem_filter.mp (List.mem_of_getLast? hlast)
      rcases (by simpa using hmem.2 : Comparable (segments entry.1) path) with hstarts | hstarts
      · cases hbelow hstarts heq
      · -- The deciding definition lies below the path and has given the mapping there a field.
        obtain ⟨fields, hfields⟩ := habove hstarts heq
        obtain rfl := Option.some.inj hfields
        have hne := fieldsAt_ne_nil hlast hstarts heq
        rw [fieldsAt_eq hpath, hvalue] at hne
        exact .inr ⟨fields, rfl, hne⟩

/-- The keys of a mapping of the tree are distinct, and they are the segments that follow its path
in the definitions since the last one at the path or above it, in the order in which they first
occur. No value of the tree is a placeholder, an array or a mapping without fields. -/
theorem keys_build (defines : Defines) :
    (∀ path fields, (build defines).mapping? path = some fields →
      (keys fields).Nodup ∧
      keys fields = ((sinceLeaf path defines.entries).filterMap (branch? path)).eraseDups) ∧
    ∀ value, Occurs value (build defines).root →
      value ≠ .null ∧ (∀ items, value ≠ .array items) ∧ value ≠ .object [] := by
  constructor
  · intro path fields h
    obtain rfl := fieldsAt_of_mapping? h
    exact ⟨nodup_keys_fieldsAt defines.entries path, keys_fieldsAt_foldl defines.entries path⟩
  · intro value h
    rcases scalar_or_mapping_of_occurs h with ⟨scalar, rfl⟩ | ⟨fields, rfl, hne⟩
    · cases scalar <;> simp [Scalar.toJson]
    · simpa using hne

/-- The leaf `a` ends a mapping with the key `b`, and `c` keeps its place in the next one. -/
theorem keys_build_regrown :
    let defines : Defines := .ofList [("a.b", .bool true), ("a", .bool false),
      ("a.c", .string "leaf"), ("a..d", .bool true), ("a.c.e", .bool true)]
    ∃ fields, (build defines).mapping? ["a"] = some fields ∧ keys fields = ["c", ""] ∧
      Occurs (.object fields) (build defines).root ∧ Json.object fields ≠ .object [] := by
  intro defines
  have hmapping : (build defines).mapping? ["a"] = some
      [("c", .object [("e", .bool true)]), ("", .object [("d", .bool true)])] := rfl
  have hoccurs : Occurs (.object [("c", .object [("e", .bool true)]),
      ("", .object [("d", .bool true)])]) (build defines).root := .field List.mem_cons_self
  obtain ⟨hkeys, hvalues⟩ := keys_build defines
  refine ⟨_, hmapping, ?_, hoccurs, (hvalues _ hoccurs).2.2⟩
  rw [(hkeys _ _ hmapping).2]
  decide

end EdgeTemplate.Context
