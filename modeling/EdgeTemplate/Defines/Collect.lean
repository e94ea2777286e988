import EdgeTemplate.Error
import EdgeTemplate.Json.Reader
import EdgeTemplate.Text.Blank
import EdgeTemplate.Text.Cut

/-!
# Gathering defines

Defines come from JSON objects whose fields are scalars and from pairs `key=value`. Later sources
override earlier ones.
-/
namespace EdgeTemplate.Defines

def ofField (field : String × Json) : Except Error (String × Scalar) :=
  match Scalar.ofJson? field.2 with
  | some scalar => .ok (field.1, scalar)
  | none => .error (.config (.notScalar field.1 field.2))

/-- The defines that the fields of an object give. The first field that is no scalar is refused. -/
def ofFields (fields : List (String × Json)) : Except Error Defines :=
  OrderedMap.ofList <$> fields.mapM ofField

def ofText (text : String) : Except Error Defines :=
  match Json.ofText? text.toList with
  | some (.object fields) => ofFields fields
  | some value => .error (.config (.unreadableDefines (.notObject value)))
  | none => .error (.config (.unreadableDefines .notJson))

/-- The entry that a pair `key=value` gives. Blanks around the key do not count, and those around
the value do. -/
def ofPair (pair : String) : Except Error (String × Scalar) :=
  match Text.cut? '=' pair.toList with
  | some (key, value) => .ok (String.ofList (Text.trim key), Scalar.ofLoose value)
  | none => .error (.config (.pairWithoutValue pair))

def ofText? : Option String → Except Error Defines
  | some text => ofText text
  | none => .ok .empty

/-- Gathers defines from a file, from a text and from pairs, each overriding those before it. -/
def collect (file text : Option String) (pairs : List String) : Except Error Defines := do
  let file ← ofText? file
  let text ← ofText? text
  let entries ← pairs.mapM ofPair
  return (file.extend text).insertAll entries

end EdgeTemplate.Defines
