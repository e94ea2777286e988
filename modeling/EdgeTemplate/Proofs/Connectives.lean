import EdgeTemplate.Proofs.Propagation

/-!
# Laws of the connectives

A chain stops at its first operand that decides or fails. Two chains are therefore equal as soon as
they look at the same operands in the same order: grouping a chain does not matter, and a negation
moves inside by exchanging the connectives. Values, errors and chains without operands are all
covered, since each law is an equation between results.
-/
namespace EdgeTemplate.Condition

variable (context : Context)

/-! ### Grouping -/

/-- A chain that comes first in a chain of its own kind may be opened. -/
theorem evalChain_chained_cons (decisive : Bool) (operands rest : List Condition) :
    evalChain context decisive (chained decisive operands :: rest) =
      evalChain context decisive (operands ++ rest) := by
  rw [evalChain_append, evalChain, eval_chained]
  cases evalChain context decisive operands with
  | error cause => rfl
  | ok value => rfl

theorem eval_chained_append (decisive : Bool) (front back : List Condition) :
    eval context (chained decisive (front ++ back)) =
      eval context (chained decisive [chained decisive front, chained decisive back]) := by
  have hback : evalChain context decisive [chained decisive back] =
      evalChain context decisive back := by
    rw [evalChain_chained_cons, List.append_nil]
  rw [eval_chained, eval_chained, evalChain_chained_cons, evalChain_append, evalChain_append, hback]

/-! ### Negation -/

theorem evalChain_map_not (decisive : Bool) (operands : List Condition) :
    evalChain context (!decisive) (operands.map .not) =
      (!·) <$> evalChain context decisive operands := by
  induction operands with
  | nil => rfl
  | cons operand operands ih =>
    rw [List.map_cons, evalChain, evalChain, eval, ih]
    cases operand.eval context with
    | error cause => rfl
    | ok value =>
      have hstops : (!value.truthy) = (!decisive) ↔ value.truthy = decisive := Bool.not_inj_iff
      change (if (!value.truthy) = (!decisive) then pure (!decisive) else
          (!·) <$> evalChain context decisive operands) =
        (!·) <$> if value.truthy = decisive then pure decisive else
          evalChain context decisive operands
      simp only [hstops]
      split
      · rfl
      · rfl

theorem eval_not_chained (decisive : Bool) (operands : List Condition) :
    eval context (.not (chained decisive operands)) =
      eval context (chained (!decisive) (operands.map .not)) := by
  rw [eval, eval_chained, eval_chained, evalChain_map_not]
  cases evalChain context decisive operands with
  | error cause => rfl
  | ok value => rfl

/-- Chains may be grouped, and negations may be moved inside: value and error stay the same. -/
theorem eval_connectives (front back : List Condition) :
    eval context (.all (front ++ back)) = eval context (.all [.all front, .all back]) ∧
    eval context (.any (front ++ back)) = eval context (.any [.any front, .any back]) ∧
    eval context (.not (.all front)) = eval context (.any (front.map .not)) ∧
    eval context (.not (.any front)) = eval context (.all (front.map .not)) :=
  ⟨eval_chained_append context false front back, eval_chained_append context true front back,
    eval_not_chained context false front, eval_not_chained context true front⟩

end EdgeTemplate.Condition
