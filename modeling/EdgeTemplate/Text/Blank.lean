/-!
# Blank characters

Blanks separate the words of directives, conditions and headers. They are the characters with the
Unicode property White_Space, which is wider than the blanks of ASCII.
-/
namespace EdgeTemplate.Text

/-- The inclusive code point ranges of the property White_Space, in increasing order. -/
def blankRanges : List (Nat × Nat) :=
  [(0x0009, 0x000D), (0x0020, 0x0020), (0x0085, 0x0085), (0x00A0, 0x00A0), (0x1680, 0x1680),
    (0x2000, 0x200A), (0x2028, 0x2029), (0x202F, 0x202F), (0x205F, 0x205F), (0x3000, 0x3000)]

def isBlank (c : Char) : Bool :=
  blankRanges.any fun range => range.1 ≤ c.toNat && c.toNat ≤ range.2

theorem isBlank_iff (c : Char) :
    isBlank c = true ↔ ∃ range ∈ blankRanges, range.1 ≤ c.toNat ∧ c.toNat ≤ range.2 := by
  simp [isBlank]

def skipBlanks (cs : List Char) : List Char :=
  cs.dropWhile isBlank

def leadingBlanks (cs : List Char) : List Char :=
  cs.takeWhile isBlank

@[simp]
theorem leadingBlanks_append_skipBlanks (cs : List Char) :
    leadingBlanks cs ++ skipBlanks cs = cs :=
  List.takeWhile_append_dropWhile

def trimEnd (cs : List Char) : List Char :=
  (skipBlanks cs.reverse).reverse

def trim (cs : List Char) : List Char :=
  trimEnd (skipBlanks cs)

@[simp]
theorem skipBlanks_nil : skipBlanks [] = [] := rfl

theorem skipBlanks_cons_of_not_blank {c : Char} (h : isBlank c = false) (cs : List Char) :
    skipBlanks (c :: cs) = c :: cs := by
  simp [skipBlanks, h]

end EdgeTemplate.Text
