import EdgeTemplate.Json
import EdgeTemplate.Json.Quoted
import EdgeTemplate.Text.Word

/-!
# Writing JSON

The compact form has no spaces at all. The indented form of an object has one field a line.
-/
namespace EdgeTemplate.Json

mutual

def write : Json → List Char
  | null => ['n', 'u', 'l', 'l']
  | bool value => Text.boolWord value
  | number value => value.write
  | string value => writeQuoted value.toList
  | array items => '[' :: [','].intercalate (writeItems items) ++ [']']
  | object fields => '{' :: [','].intercalate (writeFields fields) ++ ['}']

def writeItems : List Json → List (List Char)
  | [] => []
  | item :: items => item.write :: writeItems items

def writeFields : List (String × Json) → List (List Char)
  | [] => []
  | field :: fields => writeField field :: writeFields fields

def writeField : String × Json → List Char
  | (key, value) => writeQuoted key.toList ++ ':' :: value.write

end

/-- Writes an object with each field on a line of its own, indented by two spaces. The values of the
fields stay compact. -/
def writeIndented (fields : List (String × Json)) : List Char :=
  let line := fun (field : String × Json) =>
    [' ', ' '] ++ writeQuoted field.1.toList ++ [':', ' '] ++ field.2.write
  if fields.isEmpty then ['{', '}']
  else ['{', '\n'] ++ [',', '\n'].intercalate (fields.map line) ++ ['\n', '}']

def toText (value : Json) : String :=
  String.ofList value.write

end EdgeTemplate.Json
