import EdgeTemplate.Condition.Parse
import EdgeTemplate.Proofs.Reading

/-!
# The grammar of conditions

The texts that are conditions, with their trees. The grammar says nothing about how a text is read:
which spelling of a comparison is tried first, where a word or a number ends, or how many rounds a
repetition takes. The number that goes with a phrase bounds how deep negations and groups nest.
-/
namespace EdgeTemplate.Condition

open Text

def escapes : List (Char × Char) :=
  [('n', '\n'), ('t', '\t'), ('r', '\r'), ('\\', '\\'), ('\'', '\''), ('"', '"')]

/-- The inside of a string in the given quotes, with what it stands for. A backslash and a character
without a meaning of its own are both kept. -/
inductive Quoted (quote : Char) : List Char → List Char → Prop
  | nil : Quoted quote [] []
  | plain {c cs value} : c ≠ quote → c ≠ '\\' → Quoted quote cs value →
      Quoted quote (c :: cs) (c :: value)
  | escape {c d cs value} : (c, d) ∈ escapes → Quoted quote cs value →
      Quoted quote ('\\' :: c :: cs) (d :: value)
  | kept {c cs value} : (∀ d, (c, d) ∉ escapes) → Quoted quote cs value →
      Quoted quote ('\\' :: c :: cs) ('\\' :: c :: value)

def Digits (cs : List Char) : Prop :=
  ∀ c ∈ cs, c.isDigit = true

def sign (negative : Bool) : List Char :=
  if negative then ['-'] else []

def signed (negative : Bool) (digits : List Char) : Int :=
  if negative then -(Nat.ofDigitChars 10 digits 0 : Int) else Nat.ofDigitChars 10 digits 0

/-- A number as it is written, with its value. Without a point it is an integer of 64 bits. With a
point it is a finite floating-point number; there the digits before the point may be missing only
between a sign and digits. -/
inductive Numeral : List Char → Number → Prop
  | int {negative digits} : digits ≠ [] → Digits digits →
      (fits : Number.fitsWord (signed negative digits) = true) →
      Numeral (sign negative ++ digits)
        (.int (signed negative digits) (Number.bounded_of_fitsWord fits))
  | float {negative whole fraction value} : Digits whole → Digits fraction →
      (whole ≠ [] ∨ negative = true ∧ fraction ≠ []) →
      Binary64.ofDecimal? negative (Nat.ofDigitChars 10 (whole ++ fraction) 0)
        (-(fraction.length : Int)) = some value →
      Numeral (sign negative ++ whole ++ '.' :: fraction) (.float value)

/-- The tokens that are conditions by themselves. -/
inductive Leaf : List Char → Condition → Prop
  | string {quote cs value} : quote = '"' ∨ quote = '\'' → Quoted quote cs value →
      Leaf (quote :: (cs ++ [quote])) (.literal (.string (String.ofList value)))
  | number {cs value} : Numeral cs value → Leaf cs (.literal (.number value))
  | bool (value : Bool) : Leaf (boolWord value) (.literal (.bool value))
  | path {first : List Char} {others : List (List Char)} : Word first →
      first ≠ boolWord true → first ≠ boolWord false → (∀ word ∈ others, Word word) →
      Leaf (first ++ others.flatMap fun word => '.' :: word)
        (.path ((first :: others).map String.ofList))

/-- The phrases of a condition, from the loosest to the tightest. -/
inductive Phrase where
  | disjunction
  | conjunction
  | comparison
  | unary
  | primary
deriving DecidableEq, Repr

/-- An operand after the first one of a chain, and the blanks before its connective. -/
structure Link where
  blanks : List Char
  text : List Char
  operand : Condition

def Link.source (connective : List Char) (link : Link) : List Char :=
  link.blanks ++ connective ++ link.text

/-- `Derives phrase n cs condition` says that the text is a phrase of the given kind with the given
tree, in which negations and groups nest at most `n` deep. -/
inductive Derives : Phrase → Nat → List Char → Condition → Prop
  | conjunction {n cs e} : Derives .conjunction n cs e → Derives .disjunction n cs e
  | any {n cs e} {links : List Link} : Derives .conjunction n cs e → links ≠ [] →
      (∀ link ∈ links, Blank link.blanks) →
      (∀ link ∈ links, Derives .conjunction n link.text link.operand) →
      Derives .disjunction n (cs ++ links.flatMap (Link.source ['|', '|']))
        (.any (e :: links.map Link.operand))
  | comparison {n cs e} : Derives .comparison n cs e → Derives .conjunction n cs e
  | all {n cs e} {links : List Link} : Derives .comparison n cs e → links ≠ [] →
      (∀ link ∈ links, Blank link.blanks) →
      (∀ link ∈ links, Derives .comparison n link.text link.operand) →
      Derives .conjunction n (cs ++ links.flatMap (Link.source ['&', '&']))
        (.all (e :: links.map Link.operand))
  | unary {n cs e} : Derives .unary n cs e → Derives .comparison n cs e
  | compare {n left right l r blanks spelling relation} : Derives .unary n left l →
      Blank blanks → (spelling, relation) ∈ spellings → Derives .unary n right r →
      Derives .comparison n (left ++ (blanks ++ spelling ++ right)) (.compare relation l r)
  | not {n cs e blanks} : Blank blanks → Derives .unary n cs e →
      Derives .unary (n + 1) (blanks ++ '!' :: cs) (.not e)
  | primary {n cs e} : Derives .primary n cs e → Derives .unary n cs e
  | group {n cs e blanks inner} : Blank blanks → Derives .disjunction n cs e → Blank inner →
      Derives .primary (n + 1) (blanks ++ '(' :: (cs ++ (inner ++ [')']))) e
  | leaf {n cs e blanks} : Blank blanks → Leaf cs e → Derives .primary n (blanks ++ cs) e

/-- The text is a condition with the given tree and nesting, apart from blanks at its end. -/
def Derivable (n : Nat) (text : List Char) (condition : Condition) : Prop :=
  ∃ cs blanks, text = cs ++ blanks ∧ Derives .disjunction n cs condition ∧ Blank blanks

end EdgeTemplate.Condition
