import EdgeTemplate.Json.Printer

/-!
# Conditions

The tree of a condition, and the reasons why reading or evaluating one fails.
-/
namespace EdgeTemplate

inductive Relation where
  | eq
  | ne
  | lt
  | le
  | gt
  | ge
deriving DecidableEq, Repr

namespace Relation

/-- The spelling of a comparison in messages. -/
def symbol : Relation → String
  | eq => "=="
  | ne => "!="
  | lt => "<"
  | le => "<="
  | gt => ">"
  | ge => ">="

/-- Whether a comparison holds of two values in the given order. -/
def holds : Relation → Ordering → Bool
  | eq, order => order.isEq
  | ne, order => order.isNe
  | lt, order => order.isLT
  | le, order => order.isLE
  | gt, order => order.isGT
  | ge, order => order.isGE

end Relation

/-- A condition. A chain of operands under one connective is a single node. -/
inductive Condition where
  | literal (value : Json)
  | path (segments : List String)
  | not (operand : Condition)
  | all (operands : List Condition)
  | any (operands : List Condition)
  | compare (relation : Relation) (left right : Condition)

instance : Inhabited Condition := ⟨.path []⟩

/-- How deep parentheses and negations may nest. -/
def Condition.maxNesting : Nat := 64

/-- Why a text is not a condition. Offsets count bytes of UTF-8 from the start of the text. -/
inductive SyntaxError where
  | endOfText
  | unexpected (found : Char) (offset : Nat)
  | leftover (rest : List Char) (offset : Nat)
  | nestedTooDeep
  | closeExpected
  | stringExpected
  | quoteExpected
  | unterminatedString
  | numberExpected
  | badNumber (numeral : List Char)
  | wordExpected
deriving DecidableEq, Repr

def SyntaxError.message : SyntaxError → String
  | endOfText => "unexpected end of expression"
  | unexpected found offset => s!"unexpected `{found}` at offset {offset}"
  | leftover rest offset => s!"unexpected `{String.ofList rest}` at offset {offset}"
  | nestedTooDeep => s!"expression nests deeper than {Condition.maxNesting} levels"
  | closeExpected => "expected ')'"
  | stringExpected => "string"
  | quoteExpected => "expected quoted string"
  | unterminatedString => "unterminated string"
  | numberExpected => "number expected"
  | badNumber numeral => s!"bad number `{String.ofList numeral}`"
  | wordExpected => "identifier expected"

inductive ConditionError where
  | malformed (cause : SyntaxError)
  | undefined (segments : List String)
  | mismatch (relation : Relation) (left right : Json)

def ConditionError.message : ConditionError → String
  | malformed cause => s!"syntax error: {cause.message}"
  | undefined segments =>
    let path := ".".intercalate segments
    s!"`{path}` is not defined"
  | mismatch relation left right =>
    s!"type error: cannot apply `{relation.symbol}` to {left.kind} {left.toText} and " ++
      s!"{right.kind} {right.toText}"

end EdgeTemplate
