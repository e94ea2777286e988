import EdgeTemplate.Text.Repetition

/-!
# Quoted strings of JSON

Writing puts a backslash before quotes and backslashes and spells out the control characters of
ASCII. Reading accepts every escape of JSON, among them pairs of surrogates, and refuses control
characters that are not escaped.
-/
namespace EdgeTemplate.Json

open Text

/-- Reads a value off the front of a text, and fails on a text that does not start with one. -/
abbrev Reader (α : Type) := StateT (List Char) Option α

/-- The letters of the two-character escapes that writing uses, with what they stand for. -/
def writtenEscapes : List (Char × Char) :=
  [('"', '"'), ('\\', '\\'), ('b', '\x08'), ('f', '\x0c'), ('n', '\n'), ('r', '\r'), ('t', '\t')]

/-- The letters of the two-character escapes that reading accepts. -/
def readEscapes : List (Char × Char) :=
  ('/', '/') :: writtenEscapes

def isControl (c : Char) : Bool :=
  c.toNat < 0x20

def writeChar (c : Char) : List Char :=
  match writtenEscapes.find? (·.2 = c) with
  | some escape => ['\\', escape.1]
  | none =>
    if isControl c then
      ['\\', 'u', '0', '0', Nat.digitChar (c.toNat / 16), Nat.digitChar (c.toNat % 16)]
    else
      [c]

def writeQuoted (cs : List Char) : List Char :=
  '"' :: cs.flatMap writeChar ++ ['"']

def hexDigit? (c : Char) : Option Nat :=
  if c.isDigit then some (c.toNat - '0'.toNat)
  else if 'a' ≤ c ∧ c ≤ 'f' then some (c.toNat - 'a'.toNat + 10)
  else if 'A' ≤ c ∧ c ≤ 'F' then some (c.toNat - 'A'.toNat + 10)
  else none

def codeUnit? : Reader Nat
  | a :: b :: c :: d :: rest => do
    let digits ← [a, b, c, d].mapM hexDigit?
    some (digits.foldl (fun unit digit => 16 * unit + digit) 0, rest)
  | _ => none

def isHighSurrogate (unit : Nat) : Bool :=
  0xD800 ≤ unit && unit < 0xDC00

def isLowSurrogate (unit : Nat) : Bool :=
  0xDC00 ≤ unit && unit < 0xE000

/-- Reads what follows `\u`. A high surrogate needs the escape of a low one after it, and a low
surrogate cannot come first. -/
def unicodeEscape? : Reader Char := fun cs => do
  let (unit, rest) ← codeUnit? cs
  if isHighSurrogate unit then
    let pair ← ['\\', 'u'].isPrefixOf? rest
    let (low, rest) ← codeUnit? pair
    if isLowSurrogate low then
      some (Char.ofNat (0x10000 + (unit - 0xD800) * 0x400 + (low - 0xDC00)), rest)
    else
      none
  else if isLowSurrogate unit then
    none
  else
    some (Char.ofNat unit, rest)

def escape? : Reader Char
  | [] => none
  | 'u' :: rest => unicodeEscape? rest
  | letter :: rest => (readEscapes.lookup letter).map (·, rest)

/-- Reads one character of a string, and declines at the closing quote. -/
def stringChar? : Reader (Option Char)
  | [] => none
  | '"' :: rest => some (none, '"' :: rest)
  | '\\' :: rest => (escape? rest).map fun (c, rest) => (some c, rest)
  | c :: rest => if isControl c then none else some (some c, rest)

/-- Reads a string whose opening quote has been read. -/
def stringBody? : Reader (List Char) := fun cs => do
  let (value, rest) ← (readMany get stringChar?).run cs
  let rest ← ['"'].isPrefixOf? rest
  some (value, rest)

end EdgeTemplate.Json
