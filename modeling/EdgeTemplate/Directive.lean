import EdgeTemplate.Directive.Block
import EdgeTemplate.Directive.Inline

/-!
# Directives

Each line of a template is a block marker, an inline conditional or plain text. Comments of any
other shape, such as `/* @else */`, are plain text.
-/
namespace EdgeTemplate

/-- The role of a line in a template. -/
inductive Directive where
  | opening (condition : List Char)
  | closing
  | inline (line : InlineConditional)
  | text
deriving DecidableEq, Repr

/-- Classifies a line. A block marker takes precedence over an inline conditional. -/
def Directive.ofLine (line : List Char) : Directive :=
  match BlockMarker.ofLine? line with
  | some (.opening condition) => .opening condition
  | some .closing => .closing
  | none =>
    match InlineConditional.ofLine? line with
    | some conditional => .inline conditional
    | none => .text

end EdgeTemplate
