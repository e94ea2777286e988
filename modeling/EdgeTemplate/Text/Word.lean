/-!
# Words

A word is a run of ASCII letters, digits, `_` and `$` that does not start with a digit. Keywords and
the segments of a path are words, and a keyword counts only where no longer word stands.
-/
namespace EdgeTemplate.Text

def isWordStart (c : Char) : Bool :=
  c == '_' || c == '$' || c.isAlpha

def isWordChar (c : Char) : Bool :=
  c == '_' || c == '$' || c.isAlphanum

theorem isWordChar_of_isWordStart {c : Char} (h : isWordStart c = true) : isWordChar c = true := by
  simp only [isWordStart, isWordChar, Char.isAlphanum, Bool.or_eq_true] at *
  rcases h with h | h
  · exact .inl h
  · exact .inr (.inl h)

def word? : List Char → Option (List Char × List Char)
  | [] => none
  | c :: cs =>
    if isWordStart c then some (c :: cs.takeWhile isWordChar, cs.dropWhile isWordChar) else none

def boolWord : Bool → List Char
  | true => ['t', 'r', 'u', 'e']
  | false => ['f', 'a', 'l', 's', 'e']

/-- What follows a keyword, provided that no character of a word follows it directly. -/
def dropKeyword? (keyword cs : List Char) : Option (List Char) :=
  (keyword.isPrefixOf? cs).filter fun rest => !rest.head?.any isWordChar

theorem word?_append {cs w rest : List Char} (h : word? cs = some (w, rest)) : w ++ rest = cs := by
  cases cs with
  | nil => simp [word?] at h
  | cons c cs =>
    simp only [word?] at h
    split at h
    · obtain ⟨rfl, rfl⟩ := Prod.mk.inj (Option.some.inj h)
      simp
    · cases h

end EdgeTemplate.Text
