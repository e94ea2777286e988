import EdgeTemplate.Condition.Literal
import EdgeTemplate.Text.Blank
import EdgeTemplate.Text.Cut

/-!
# Scanning the text of a condition

A scanner stands at a place in a text. It says what it finds there, goes over it, and refuses the
text where it is no condition. How the place is kept is up to the scanner.
-/
namespace EdgeTemplate.Condition

open Text

/-- What reading a condition asks of a text. -/
structure Scanner (m : Type → Type) where
  /-- What is left of the text. -/
  rest : m (List Char)
  /-- The number of bytes before what is left. -/
  position : m Nat
  atEnd : m Bool
  skipBlanks : m Unit
  /-- Goes over a literal, if it comes next. -/
  pass : List Char → m Bool
  passKeyword : List Char → m Bool
  string : m Condition
  number : m Condition
  word : m String
  refuse {α : Type} : SyntaxError → m α
  /-- Reads the inside of a negation or a group. -/
  nested {α : Type} : m α → m α

/-- Goes over what a test finds at the front of a text. -/
def passIf (test : List Char → Option (List Char)) : Reader Bool := fun cs =>
  match test cs with
  | some rest => .ok (true, rest)
  | none => .ok (false, cs)

/-- The scanner that keeps what is left of a text of the given size in bytes. -/
def plain (size : Nat) : Scanner Reader where
  rest := get
  position := do
    let cs ← get
    return size - utf8Length cs
  atEnd := do
    let cs ← get
    return cs.isEmpty
  skipBlanks := modify Text.skipBlanks
  pass literal := passIf literal.isPrefixOf?
  passKeyword keyword := passIf (dropKeyword? keyword)
  string := readString
  number := readNumber
  word := readWord
  refuse cause := throw cause
  nested inner := inner

end EdgeTemplate.Condition
