/-!
# Ordered entries

Lists of keyed values in the order in which the keys first came. Storing a value under a key that is
present replaces the value where it stands; a new key goes to the end.
-/
namespace EdgeTemplate.Entries

variable {α : Type}

def keys (entries : List (String × α)) : List String :=
  entries.map Prod.fst

/-- Stores a value: in place if the key is present, at the end if it is not. -/
def put (key : String) (value : α) : List (String × α) → List (String × α)
  | [] => [(key, value)]
  | entry :: rest => if entry.1 = key then (key, value) :: rest else entry :: put key value rest

@[simp]
theorem keys_nil : keys ([] : List (String × α)) = [] := rfl

@[simp]
theorem keys_cons (entry : String × α) (rest : List (String × α)) :
    keys (entry :: rest) = entry.1 :: keys rest := rfl

theorem put_of_not_mem {key : String} {entries : List (String × α)} (h : key ∉ keys entries)
    (value : α) : put key value entries = entries ++ [(key, value)] := by
  induction entries with
  | nil => rfl
  | cons entry rest ih =>
    simp only [keys_cons, List.mem_cons, not_or] at h
    simp [put, Ne.symm h.1, ih h.2]

theorem keys_put (key : String) (value : α) (entries : List (String × α)) :
    keys (put key value entries) =
      if key ∈ keys entries then keys entries else keys entries ++ [key] := by
  induction entries with
  | nil => simp [put]
  | cons entry rest ih =>
    by_cases h : entry.1 = key
    · simp [put, h]
    · by_cases hr : key ∈ keys rest <;> simp [put, h, hr, ih, Ne.symm h]

theorem nodup_keys_put {entries : List (String × α)} (h : (keys entries).Nodup) (key : String)
    (value : α) : (keys (put key value entries)).Nodup := by
  rw [keys_put]
  split
  · exact h
  · rename_i hk
    exact List.nodup_append.2 ⟨h, by simp, by rintro a ha b hb rfl; simp at hb; exact hk (hb ▸ ha)⟩

theorem lookup_cons_eq_if (key : String) (entry : String × α) (rest : List (String × α)) :
    (entry :: rest).lookup key = if entry.1 = key then some entry.2 else rest.lookup key := by
  obtain ⟨other, value⟩ := entry
  rw [List.lookup_cons]
  by_cases h : other = key
  · simp [h]
  · simp [h, beq_eq_false_iff_ne.2 (Ne.symm h)]

theorem lookup_put_self (key : String) (value : α) (entries : List (String × α)) :
    (put key value entries).lookup key = some value := by
  induction entries with
  | nil => simp [put]
  | cons entry rest ih =>
    by_cases h : entry.1 = key
    · simp [put, h]
    · simp [put, h, lookup_cons_eq_if, ih]

theorem lookup_put_of_ne {key other : String} (h : other ≠ key) (value : α)
    (entries : List (String × α)) :
    (put key value entries).lookup other = entries.lookup other := by
  induction entries with
  | nil => simp [put, lookup_cons_eq_if, Ne.symm h]
  | cons entry rest ih =>
    by_cases he : entry.1 = key
    · simp [put, lookup_cons_eq_if, he, Ne.symm h]
    · simp [put, he, lookup_cons_eq_if, ih]

end EdgeTemplate.Entries
