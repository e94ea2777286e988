import EdgeTemplate.Text.Blank
import EdgeTemplate.Text.Cut

/-!
# Block markers

A block marker is a comment that fills its line: `/* @if(condition) */` opens a region and
`/* @endif */` closes the innermost one.
-/
namespace EdgeTemplate

open Text

/-- A comment that opens or closes a region. -/
inductive BlockMarker where
  | opening (condition : List Char)
  | closing
deriving DecidableEq, Repr

namespace BlockMarker

/-- The trimmed inside of a line that is exactly one comment. -/
def commentBody? (line : List Char) : Option (List Char) := do
  let rest ← ['/', '*'].isPrefixOf? (trim line)
  let body ← ['*', '/'].isSuffixOf? rest
  if contains body ['*', '/'] then none else some (trim body)

/-- The condition of an opening marker runs to the last `)` of the comment. -/
def condition? (body : List Char) : Option (List Char) := do
  let rest ← ['@', 'i', 'f'].isPrefixOf? body
  let inner ← ['('].isPrefixOf? (skipBlanks rest)
  let condition ← [')'].isSuffixOf? inner
  some (trim condition)

def ofBody? (body : List Char) : Option BlockMarker :=
  match condition? body with
  | some condition => some (.opening condition)
  | none => if body = ['@', 'e', 'n', 'd', 'i', 'f'] then some .closing else none

def ofLine? (line : List Char) : Option BlockMarker :=
  (commentBody? line).bind ofBody?

end BlockMarker

end EdgeTemplate
