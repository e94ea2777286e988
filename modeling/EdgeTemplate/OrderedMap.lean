import EdgeTemplate.Entries

/-!
# Ordered maps

Maps that remember in which order their keys first came, with each key at most once.
-/
namespace EdgeTemplate

/-- A map with its entries in the order of first insertion. -/
structure OrderedMap (α : Type) where
  entries : List (String × α)
  distinct : (Entries.keys entries).Nodup
deriving DecidableEq

namespace OrderedMap

variable {α : Type}

def empty : OrderedMap α := ⟨[], List.nodup_nil⟩

instance : Inhabited (OrderedMap α) := ⟨empty⟩

/-- Stores a value. A key that is present keeps its position. -/
def insert (map : OrderedMap α) (key : String) (value : α) : OrderedMap α :=
  ⟨Entries.put key value map.entries, Entries.nodup_keys_put map.distinct key value⟩

def get? (map : OrderedMap α) (key : String) : Option α :=
  map.entries.lookup key

def insertAll (map : OrderedMap α) (pairs : List (String × α)) : OrderedMap α :=
  pairs.foldl (fun map pair => map.insert pair.1 pair.2) map

/-- Stores every entry of another map on top of this one. -/
def extend (map other : OrderedMap α) : OrderedMap α :=
  map.insertAll other.entries

def ofList (pairs : List (String × α)) : OrderedMap α :=
  empty.insertAll pairs

def size (map : OrderedMap α) : Nat :=
  map.entries.length

def isEmpty (map : OrderedMap α) : Bool :=
  map.entries.isEmpty

@[simp]
theorem get?_insert_self (map : OrderedMap α) (key : String) (value : α) :
    (map.insert key value).get? key = some value :=
  Entries.lookup_put_self key value map.entries

theorem get?_insert_of_ne (map : OrderedMap α) {key other : String} (h : other ≠ key) (value : α) :
    (map.insert key value).get? other = map.get? other :=
  Entries.lookup_put_of_ne h value map.entries

end OrderedMap

end EdgeTemplate
