/-!
# Cutting, searching and measuring text

Cutting at the first occurrence of a mark, finding a text inside another, and the length of a text
in UTF-8, in which positions are reported.
-/
namespace EdgeTemplate.Text

/-- What stands before and after the first occurrence of a mark. -/
def cut? (mark : Char) (cs : List Char) : Option (List Char × List Char) :=
  match cs.dropWhile (· != mark) with
  | [] => none
  | _ :: after => some (cs.takeWhile (· != mark), after)

theorem cut?_cons_self (mark : Char) (cs : List Char) : cut? mark (mark :: cs) = some ([], cs) := by
  simp [cut?]

theorem cut?_cons_of_ne {mark c : Char} (h : c ≠ mark) (cs : List Char) :
    cut? mark (c :: cs) = (cut? mark cs).map fun parts => (c :: parts.1, parts.2) := by
  have hc : (c != mark) = true := by simp [h]
  simp only [cut?, List.dropWhile_cons, List.takeWhile_cons, hc, if_true]
  split <;> simp

/-- Cutting splits a text at the one occurrence of the mark that has no other before it. -/
theorem cut?_eq_some_iff {mark : Char} {cs before after : List Char} :
    cut? mark cs = some (before, after) ↔ cs = before ++ mark :: after ∧ mark ∉ before := by
  induction cs generalizing before with
  | nil => simp [cut?]
  | cons c cs ih =>
    by_cases hc : c = mark
    · subst hc
      rw [cut?_cons_self]
      cases before with
      | nil => simp [eq_comm]
      | cons first before =>
        simp only [List.cons_append, List.cons.injEq, List.mem_cons]
        grind
    · rw [cut?_cons_of_ne hc]
      cases before with
      | nil => simp [hc]
      | cons first before =>
        have hmark : mark ≠ c := Ne.symm hc
        simp only [Option.map_eq_some_iff, Prod.exists]
        grind

def contains (cs part : List Char) : Bool :=
  match cs with
  | [] => part.isEmpty
  | c :: rest => part.isPrefixOf (c :: rest) || contains rest part

theorem contains_iff {cs part : List Char} : contains cs part = true ↔ part <:+: cs := by
  induction cs with
  | nil => simp [contains]
  | cons c rest ih => simp [contains, ih, List.infix_cons_iff]

def utf8Length : List Char → Nat
  | [] => 0
  | c :: cs => c.utf8Size + utf8Length cs

@[simp]
theorem utf8Length_nil : utf8Length [] = 0 := rfl

@[simp]
theorem utf8Length_append (cs ds : List Char) :
    utf8Length (cs ++ ds) = utf8Length cs + utf8Length ds := by
  induction cs with
  | nil => simp
  | cons c cs ih => simp [utf8Length, ih, Nat.add_assoc]

end EdgeTemplate.Text
