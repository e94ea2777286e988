import EdgeTemplate.Condition.Scanner
import EdgeTemplate.Text.Repetition

/-!
# Reading conditions

Disjunctions bind weaker than conjunctions, these weaker than comparisons, and these weaker than
negations. Blanks may stand before every token. Comparisons do not chain.
-/
namespace EdgeTemplate.Condition

open Text

/-- The spellings of the comparisons. A spelling comes before those it starts with. -/
def spellings : List (List Char × Relation) :=
  [(['=', '=', '='], .eq), (['!', '=', '='], .ne), (['=', '='], .eq), (['!', '='], .ne),
    (['<', '='], .le), (['>', '='], .ge), (['<'], .lt), (['>'], .gt)]

/-- Joins the operands of a chain. A chain of one operand is that operand. -/
def chain (join : List Condition → Condition) (first : Condition) : List Condition → Condition
  | [] => first
  | others => join (first :: others)

namespace Scanner

variable {m : Type → Type} [Monad m] (scanner : Scanner m)

def relation : List (List Char × Relation) → m (Option Relation)
  | [] => return none
  | (spelling, found) :: others => do
    if ← scanner.pass spelling then return some found else relation others

/-- Reads an operand, or two with a comparison between them. -/
def comparison (operand : m Condition) : m Condition := do
  let left ← operand
  scanner.skipBlanks
  match ← scanner.relation spellings with
  | none => return left
  | some relation =>
    let right ← operand
    return .compare relation left right

/-- Reads a connective and the operand after it, and declines where the connective is missing. -/
def nextOperand (connective : List Char) (operand : m Condition) : m (Option Condition) := do
  scanner.skipBlanks
  if ← scanner.pass connective then
    let next ← operand
    return some next
  else return none

def operands (connective : List Char) (join : List Condition → Condition)
    (operand : m Condition) : m Condition := do
  let first ← operand
  let others ← readMany scanner.rest (scanner.nextOperand connective operand)
  return chain join first others

def conjunction (operand : m Condition) : m Condition :=
  scanner.operands ['&', '&'] .all (scanner.comparison operand)

def disjunction (operand : m Condition) : m Condition :=
  scanner.operands ['|', '|'] .any (scanner.conjunction operand)

/-- Reads a group whose opening parenthesis has been read. -/
def group (operand : m Condition) : m Condition := do
  let inner ← scanner.disjunction operand
  scanner.skipBlanks
  if ← scanner.pass [')'] then return inner else scanner.refuse .closeExpected

/-- Reads a point and the word after it, and declines where no point stands. -/
def nextSegment : m (Option String) := do
  if ← scanner.pass ['.'] then
    let segment ← scanner.word
    return some segment
  else return none

def path : m Condition := do
  let first ← scanner.word
  let others ← readMany scanner.rest scanner.nextSegment
  return .path (first :: others)

/-- Refuses what comes next, which starts no phrase. -/
def unexpected : m Condition := do
  match ← scanner.rest with
  | [] => scanner.refuse .endOfText
  | c :: _ =>
    let offset ← scanner.position
    scanner.refuse (.unexpected c offset)

def leaf (c : Char) : m Condition := do
  if c = '"' ∨ c = '\'' then scanner.string
  else if c = '-' ∨ c.isDigit then scanner.number
  else if ← scanner.passKeyword (boolWord true) then return .literal (.bool true)
  else if ← scanner.passKeyword (boolWord false) then return .literal (.bool false)
  else if isWordStart c then scanner.path
  else scanner.unexpected

def primary (group : m Condition) : m Condition := do
  scanner.skipBlanks
  match ← scanner.rest with
  | [] => scanner.unexpected
  | c :: _ => do
    if ← scanner.pass ['('] then group else scanner.leaf c

/-- Reads a negation whose mark has been read. -/
def negation (operand : m Condition) : m Condition := do
  let inner ← operand
  return .not inner

def negationOr (negated group : m Condition) : m Condition := do
  scanner.skipBlanks
  if ← scanner.pass ['!'] then negated else scanner.primary group

/-- Reads a negation or a primary. The budget is the number of negations and groups that may still
nest. -/
def unary : Nat → m Condition
  | 0 => scanner.negationOr (scanner.refuse .nestedTooDeep) (scanner.refuse .nestedTooDeep)
  | budget + 1 =>
    scanner.negationOr (scanner.nested (negation (unary budget)))
      (scanner.nested (scanner.group (unary budget)))

def finish : m Unit := do
  scanner.skipBlanks
  if ← scanner.atEnd then return ()
  else
    let left ← scanner.rest
    let offset ← scanner.position
    scanner.refuse (.leftover left offset)

def whole (budget : Nat) : m Condition := do
  let condition ← scanner.disjunction (scanner.unary budget)
  scanner.finish
  return condition

end Scanner

def parse (text : List Char) : Except SyntaxError Condition :=
  ((plain (utf8Length text)).whole maxNesting).run' text

end EdgeTemplate.Condition
