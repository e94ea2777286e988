import EdgeTemplate.Defines.Basic

/-!
# Contexts

A context is the tree in which conditions look up their paths. The key `device.isMobile` is the path
`device`, `isMobile` of the tree. Of two keys of which one continues the other, the later one wins.
-/
namespace EdgeTemplate

structure Context where
  root : List (String × Json)

namespace Context

/-- The path that a dotted key stands for. Segments may be empty. -/
def segments (key : String) : List String :=
  (key.toList.splitOn '.').map String.ofList

/-- The fields of the mapping under a key, or none if something else or nothing is there. -/
def children (key : String) (fields : List (String × Json)) : List (String × Json) :=
  match fields.lookup key with
  | some (.object inner) => inner
  | _ => []

/-- Stores a value at a path. What is no mapping on the way gives way to one. -/
def graft (value : Json) : List String → List (String × Json) → List (String × Json)
  | [], fields => fields
  | [key], fields => Entries.put key value fields
  | key :: next :: path, fields =>
    Entries.put key (.object (graft value (next :: path) (children key fields))) fields

/-- The value at a path. The empty path leads nowhere. -/
def descend : List String → List (String × Json) → Option Json
  | [], _ => none
  | [key], fields => fields.lookup key
  | key :: next :: path, fields => descend (next :: path) (children key fields)

def define (context : Context) (entry : String × Scalar) : Context :=
  ⟨graft entry.2.toJson (segments entry.1) context.root⟩

def build (defines : Defines) : Context :=
  defines.entries.foldl define ⟨[]⟩

def resolve (context : Context) (path : List String) : Option Json :=
  descend path context.root

def toText (context : Context) : String :=
  (Json.object context.root).toText

end Context

end EdgeTemplate
