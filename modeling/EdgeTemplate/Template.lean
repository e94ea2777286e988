import EdgeTemplate.Condition.Eval
import EdgeTemplate.Directive
import EdgeTemplate.Nesting

/-!
# Templates

A template is processed line by line. Block markers vanish, the text of skipped regions vanishes,
and inline conditionals get the truth value of their condition. The conditions of opening markers
are evaluated in skipped regions too; those of inline conditionals are not. A line ends at a line
feed, so a carriage return before it belongs to the line.
-/
namespace EdgeTemplate.Template

def test (context : Context) (line : Nat) (condition : List Char) : Except Error Bool :=
  (Condition.test context condition).mapError fun cause =>
    .evaluation line (String.ofList condition) cause context

/-- Processes one line, which may change the nesting and may be emitted. -/
def step (context : Context) (nesting : Nesting) (number : Nat) (line : List Char) :
    Except Error (Nesting × Option (List Char)) :=
  match Directive.ofLine line with
  | .opening condition => do
    let value ← test context number condition
    return (nesting.enter value number, none)
  | .closing => do
    let nesting ← nesting.leave number
    return (nesting, none)
  | .inline conditional =>
    if nesting.skipping then
      return (nesting, none)
    else do
      let value ← test context number conditional.condition
      return (nesting, some (conditional.fill value))
  | .text => return (nesting, if nesting.skipping then none else some line)

/-- The lines that are emitted from the given nesting and line number on. -/
def emit (context : Context) (nesting : Nesting) (number : Nat) :
    List (List Char) → Except Error (List (List Char))
  | [] => do
    nesting.finish
    return []
  | line :: lines => do
    let (nesting, emitted) ← step context nesting number line
    let rest ← emit context nesting (number + 1) lines
    return emitted.toList ++ rest

/-- The lines of a text. There is always at least one. -/
def lines (text : List Char) : List (List Char) :=
  text.splitOn '\n'

def unlines (lines : List (List Char)) : List Char :=
  ['\n'].intercalate lines

def expand (context : Context) (text : List Char) : Except Error (List Char) :=
  unlines <$> emit context .start 1 (lines text)

def process (defines : Defines) (source : String) : Except Error String :=
  String.ofList <$> expand (.build defines) source.toList

end EdgeTemplate.Template
