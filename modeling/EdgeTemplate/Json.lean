import EdgeTemplate.Number

/-!
# JSON values

The values that defines are written in and that conditions work on. The fields of an object keep
their order.
-/
namespace EdgeTemplate

inductive Json where
  | null
  | bool (value : Bool)
  | number (value : Number)
  | string (value : String)
  | array (items : List Json)
  | object (fields : List (String × Json))

namespace Json

instance : Inhabited Json := ⟨null⟩

/-- The name of a value's kind in messages. -/
def kind : Json → String
  | null => "null"
  | bool _ => "boolean"
  | number _ => "number"
  | string _ => "string"
  | array _ => "array"
  | object _ => "mapping"

/-- How a value counts as a condition: `null`, `false`, zero and the empty string are false, and
all else is true. -/
def truthy : Json → Bool
  | null => false
  | bool value => value
  | number value => !value.isZero
  | string value => !value.isEmpty
  | array _ | object _ => true

end Json

end EdgeTemplate
