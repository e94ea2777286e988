import EdgeTemplate.Defines.Scalar
import EdgeTemplate.OrderedMap

/-!
# Defines

Flat defines are dotted keys with scalar values, in the order of first definition. They are
written as a JSON object.
-/
namespace EdgeTemplate

/-- Dotted keys with their values. -/
abbrev Defines := OrderedMap Scalar

namespace Defines

def toFields (defines : Defines) : List (String × Json) :=
  defines.entries.map fun entry => (entry.1, entry.2.toJson)

def toText (defines : Defines) : String :=
  (Json.object (toFields defines)).toText

/-- The flat defines with one entry a line. -/
def toIndentedText (defines : Defines) : String :=
  String.ofList (Json.writeIndented (toFields defines))

end Defines

end EdgeTemplate
