import EdgeTemplate.Error
import EdgeTemplate.Text.Blank
import EdgeTemplate.Text.Cut

/-!
# Request headers

Headers are found by name without regard to the case of ASCII letters, and a later header replaces
an earlier one of the same name. Cookies stand in the header `cookie` with semicolons between
them.
-/
namespace EdgeTemplate

open Text

/-- Header values under their lower-case names. -/
structure Headers where
  values : OrderedMap String
deriving DecidableEq

namespace Headers

def empty : Headers := ⟨.empty⟩

def lower (cs : List Char) : List Char :=
  cs.map Char.toLower

/-- The name under which a header is stored. -/
def normalName (name : String) : String :=
  String.ofList (lower (trim name.toList))

/-- Stores a header. Blanks around its name do not count. -/
def insert (headers : Headers) (name value : String) : Headers :=
  ⟨headers.values.insert (normalName name) value⟩

def splitLine (line : String) : Except Error (String × String) :=
  match cut? ':' line.toList with
  | none => .error (.config (.headerWithoutColon line))
  | some (name, value) =>
    if (trim name).isEmpty then .error (.config (.headerWithoutName line))
    else .ok (String.ofList name, String.ofList (trim value))

def insertLine (line : String) : ExceptT Error (StateM Headers) Unit := do
  let (name, value) ← splitLine line
  modify (·.insert name value)

/-- The headers of a list of lines, all of which have to be headers. -/
def ofLines (lines : List String) : Except Error Headers :=
  match (lines.forM insertLine).run.run empty with
  | (.ok (), headers) => .ok headers
  | (.error error, _) => .error error

def ofList (pairs : List (String × String)) : Headers :=
  pairs.foldl (fun headers pair => headers.insert pair.1 pair.2) empty

/-- The value of a header. Here blanks around the name do count. -/
def get? (headers : Headers) (name : String) : Option String :=
  headers.values.get? (String.ofList (lower name.toList))

def splitCookie (cookie : List Char) : Option (List Char × List Char) :=
  (cut? '=' (trim cookie)).map fun (name, value) => (trim name, trim value)

/-- The cookies in the value of a header. Parts without an equals sign do not count. -/
def cookies (value : List Char) : List (List Char × List Char) :=
  (value.splitOn ';').filterMap splitCookie

/-- The value of the first cookie with a name. -/
def cookie? (headers : Headers) (name : String) : Option String := do
  let value ← headers.get? "cookie"
  let found ← (cookies value.toList).lookup name.toList
  some (String.ofList found)

end Headers

end EdgeTemplate
