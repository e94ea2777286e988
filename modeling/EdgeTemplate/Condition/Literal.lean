import EdgeTemplate.Condition
import EdgeTemplate.Text.Word

/-!
# Literals and words in conditions

What the leaves of a condition are made of: quoted strings, numbers and the words of a path.
-/
namespace EdgeTemplate.Condition

open Text

abbrev Reader (α : Type) := StateT (List Char) (Except SyntaxError) α

/-- What a backslash and the character after it stand for. A pair without a meaning of its own is
kept as it is. -/
def unescape : Char → List Char
  | 'n' => ['\n']
  | 't' => ['\t']
  | 'r' => ['\r']
  | '\\' => ['\\']
  | '"' => ['"']
  | '\'' => ['\'']
  | c => ['\\', c]

/-- Reads a string whose opening quote has been read, up to the same quote. -/
def quoted? (quote : Char) : List Char → Option (List Char × List Char)
  | [] => none
  | c :: rest =>
    if c = quote then some ([], rest)
    else if c = '\\' then
      match rest with
      | [] => none
      | escaped :: rest =>
        (quoted? quote rest).map fun parts => (unescape escaped ++ parts.1, parts.2)
    else (quoted? quote rest).map fun parts => (c :: parts.1, parts.2)

def readString : Reader Condition
  | [] => .error .stringExpected
  | quote :: cs =>
    if quote = '"' ∨ quote = '\'' then
      match quoted? quote cs with
      | some (value, rest) => .ok (.literal (.string (String.ofList value)), rest)
      | none => .error .unterminatedString
    else .error .quoteExpected

/-- Reads a number. Without a point it is a signed 64-bit integer; with a point it is a
floating-point number, and the digits on one side of the point may be missing. -/
def readNumber : Reader Condition := fun cs =>
  let (negative, unsigned) :=
    match cs with
    | '-' :: unsigned => (true, unsigned)
    | unsigned => (false, unsigned)
  let sign := if negative then ['-'] else []
  let whole := unsigned.takeWhile Char.isDigit
  match unsigned.dropWhile Char.isDigit with
  | '.' :: rest =>
    let fraction := rest.takeWhile Char.isDigit
    let digits := whole ++ fraction
    let coefficient := Nat.ofDigitChars 10 digits 0
    let value :=
      if digits.isEmpty then none
      else Binary64.ofDecimal? negative coefficient (-(fraction.length : Int))
    match value with
    | some value => .ok (.literal (.number (.float value)), rest.dropWhile Char.isDigit)
    | none => .error (.badNumber (sign ++ whole ++ '.' :: fraction))
  | rest =>
    let size : Int := Nat.ofDigitChars 10 whole 0
    let value := if negative then -size else size
    if whole.isEmpty then .error .numberExpected
    else if h : Number.fitsWord value = true then
      .ok (.literal (.number (.int value (Number.bounded_of_fitsWord h))), rest)
    else .error (.badNumber (sign ++ whole))

def readWord : Reader String := fun cs =>
  match word? cs with
  | some (word, rest) => .ok (String.ofList word, rest)
  | none => .error .wordExpected

end EdgeTemplate.Condition
