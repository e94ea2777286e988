import EdgeTemplate.Text.Blank
import EdgeTemplate.Text.Word

/-!
# Inline conditionals

A line such as `if (/* @if(a.b) */ false) {` keeps its text, but the comment and the placeholder
`false` after it give way to the truth value of the condition. The placeholder has to be the whole
test of an `if`, so nothing but blanks may stand between the comment, `false` and the parentheses.
-/
namespace EdgeTemplate

open Text

/-- A line around its placeholder: `before` ends where the comment starts, and `after` starts where
the placeholder `false` ends. -/
structure InlineConditional where
  before : List Char
  condition : List Char
  after : List Char
deriving DecidableEq, Repr

namespace InlineConditional

/-- The line with the comment and its placeholder replaced by a truth value. -/
def fill (line : InlineConditional) (value : Bool) : List Char :=
  line.before ++ boolWord value ++ line.after

/-- Splits a text at the first `)` that the end of a comment follows, and drops both. -/
def splitAtClose : List Char → Option (List Char × List Char)
  | [] => none
  | c :: cs =>
    match if c = ')' then ['*', '/'].isPrefixOf? (skipBlanks cs) else none with
    | some rest => some ([], rest)
    | none => (splitAtClose cs).map fun parts => (c :: parts.1, parts.2)

/-- What follows the placeholder, provided that the test of the `if` ends there. -/
def afterPlaceholder? (cs : List Char) : Option (List Char) :=
  (dropKeyword? (boolWord false) (skipBlanks cs)).filter fun rest =>
    (skipBlanks rest).head? == some ')'

/-- The condition in a comment that a text starts with, and what follows the comment. -/
def comment? (cs : List Char) : Option (List Char × List Char) := do
  let marker ← ['/', '*'].isPrefixOf? cs
  let bracket ← ['@', 'i', 'f'].isPrefixOf? (skipBlanks marker)
  let inner ← ['('].isPrefixOf? (skipBlanks bracket)
  splitAtClose inner

def atStart? (cs : List Char) : Option InlineConditional := do
  let test ← dropKeyword? ['i', 'f'] cs
  let inner ← ['('].isPrefixOf? (skipBlanks test)
  let (condition, rest) ← comment? (skipBlanks inner)
  let after ← afterPlaceholder? rest
  some
    { before := ['i', 'f'] ++ leadingBlanks test ++ '(' :: leadingBlanks inner
      condition := trim condition
      after }

/-- The leftmost inline conditional of a text. The flag says whether the text directly continues a
word, which then cannot end in the keyword `if`. -/
def search (inWord : Bool) : List Char → Option InlineConditional
  | [] => none
  | c :: cs =>
    match if inWord then none else atStart? (c :: cs) with
    | some line => some line
    | none => (search (isWordChar c) cs).map fun line => { line with before := c :: line.before }

def ofLine? (line : List Char) : Option InlineConditional :=
  search false line

end InlineConditional

end EdgeTemplate
