import EdgeTemplate.Entries
import EdgeTemplate.Json
import EdgeTemplate.Json.Numeral
import EdgeTemplate.Json.Quoted
import EdgeTemplate.Text.Word

/-!
# Reading JSON

Strict JSON: four blanks, no comments, no trailing commas, and at most 127 containers inside one
another. Of the fields with one name the first fixes the position and the last the value.
-/
namespace EdgeTemplate.Json

open Text

/-- The blanks between the tokens of JSON. -/
def isSpace (c : Char) : Bool :=
  c == ' ' || c == '\t' || c == '\n' || c == '\r'

def skipSpaces (cs : List Char) : List Char :=
  cs.dropWhile isSpace

/-- Reads one further item of a list, and declines where no comma stands. -/
def nextItem? {α : Type} (item : Reader α) : Reader (Option α) := fun cs =>
  match skipSpaces cs with
  | ',' :: rest => (item rest).map fun (next, rest) => (some next, rest)
  | _ => some (none, cs)

/-- Reads the items of a list, of which the opening bracket has been read, and its closing
bracket. -/
def items? {α : Type} (item : Reader α) (close : Char) : Reader (List α) := fun cs =>
  match [close].isPrefixOf? (skipSpaces cs) with
  | some rest => some ([], rest)
  | none => do
    let (first, rest) ← item cs
    let (others, rest) ← (readMany get (nextItem? item)).run rest
    let rest ← [close].isPrefixOf? (skipSpaces rest)
    some (first :: others, rest)

def field? (value : Reader Json) : Reader (String × Json) := fun cs => do
  let rest ← ['"'].isPrefixOf? (skipSpaces cs)
  let (key, rest) ← stringBody? rest
  let rest ← [':'].isPrefixOf? (skipSpaces rest)
  let (value, rest) ← value rest
  some ((String.ofList key, value), rest)

def mergeFields (fields : List (String × Json)) : List (String × Json) :=
  fields.foldl (fun merged field => Entries.put field.1 field.2 merged) []

def named : List (List Char × Json) :=
  [(['n', 'u', 'l', 'l'], null), (boolWord true, bool true), (boolWord false, bool false)]

def atom? : Reader Json := fun cs =>
  match named.findSome? fun name => (name.1.isPrefixOf? cs).map (name.2, ·) with
  | some found => some found
  | none => do
    let (numeral, rest) ← Numeral.read? cs
    let value ← numeral.toNumber?
    some (number value, rest)

/-- Reads a value with at most the given number of containers inside one another. -/
def value? : Nat → Reader Json
  | depth, cs =>
    match skipSpaces cs with
    | '[' :: rest =>
      match depth with
      | 0 => none
      | depth + 1 => do
        let (items, rest) ← items? (value? depth) ']' rest
        some (array items, rest)
    | '{' :: rest =>
      match depth with
      | 0 => none
      | depth + 1 => do
        let (fields, rest) ← items? (field? (value? depth)) '}' rest
        some (object (mergeFields fields), rest)
    | '"' :: rest => do
      let (value, rest) ← stringBody? rest
      some (string (String.ofList value), rest)
    | rest => atom? rest

def maxDepth : Nat := 127

/-- The value that a text holds, with nothing but spaces around it. -/
def ofText? (text : List Char) : Option Json := do
  let (value, rest) ← value? maxDepth text
  if (skipSpaces rest).isEmpty then some value else none

end EdgeTemplate.Json
