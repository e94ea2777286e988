import EdgeTemplate.Json.Printer
import EdgeTemplate.Json.Reader

/-!
# Scalars

The values that can be defined: truth values, numbers and strings.
-/
namespace EdgeTemplate

/-- A value that can be defined. -/
inductive Scalar where
  | bool (value : Bool)
  | number (value : Number)
  | string (value : String)
deriving DecidableEq

namespace Scalar

def toJson : Scalar → Json
  | bool value => .bool value
  | number value => .number value
  | string value => .string value

def ofJson? : Json → Option Scalar
  | .bool value => some (bool value)
  | .number value => some (number value)
  | .string value => some (string value)
  | .null | .array _ | .object _ => none

@[simp]
theorem ofJson?_toJson (scalar : Scalar) : ofJson? scalar.toJson = some scalar := by
  cases scalar <;> rfl

/-- Reads a value given as bare text: as JSON if it is the JSON of a scalar, as a string
otherwise. -/
def ofLoose (raw : List Char) : Scalar :=
  ((Json.ofText? raw).bind ofJson?).getD (string (String.ofList raw))

/-- The scalar for what 64 bits encode. What is not a finite number is named by a string. -/
def ofDecoded : Binary64.Decoded → Scalar
  | .finite value => number (.float value)
  | .infinite true => string "-inf"
  | .infinite false => string "inf"
  | .notANumber => string "NaN"

/-- The text of a scalar, without quotes around a string. -/
def display : Scalar → String
  | bool value => String.ofList (Text.boolWord value)
  | number value => String.ofList value.write
  | string value => value

end Scalar

end EdgeTemplate
