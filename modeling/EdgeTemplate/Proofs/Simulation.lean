import EdgeTemplate.Proofs.Phrases

/-!
# Reading with two scanners

Conditions are read in one way, whatever the scanner. So where each step of one scanner is related
to the same step of another, what is read with them is related as well. Any relation between
computations will do that goes through composition.
-/
namespace EdgeTemplate.Condition

open Text

/-- A relation between the computations of two monads that goes through composition. -/
structure Simulation (m n : Type → Type) [Monad m] [Monad n] where
  Rel {α : Type} : m α → n α → Prop
  pure {α : Type} (a : α) : Rel (pure a) (pure a)
  bind {α β : Type} {x : m α} {y : n α} {f : α → m β} {g : α → n β} :
    Rel x y → (∀ a, Rel (f a) (g a)) → Rel (x >>= f) (y >>= g)

variable {m n : Type → Type} [Monad m] [Monad n]

namespace Simulation

variable (R : Simulation m n) {α : Type}

theorem ite {x x' : m α} {y y' : n α} {found : Bool} (h : R.Rel x y) (h' : R.Rel x' y') :
    R.Rel (if found then x else x') (if found then y else y') := by
  cases found with
  | true => exact h
  | false => exact h'

theorem collect {step : m (Option α)} {step' : n (Option α)} (h : R.Rel step step')
    (rounds : Nat) : R.Rel (Text.collect step rounds) (Text.collect step' rounds) := by
  induction rounds with
  | zero => exact R.pure []
  | succ rounds ih =>
    refine R.bind h fun found => ?_
    cases found with
    | none => exact R.pure []
    | some item => exact R.bind ih fun items => R.pure (item :: items)

theorem readMany {rest : m (List Char)} {rest' : n (List Char)} {step : m (Option α)}
    {step' : n (Option α)} (hrest : R.Rel rest rest') (h : R.Rel step step') :
    R.Rel (Text.readMany rest step) (Text.readMany rest' step') :=
  R.bind hrest fun cs => R.collect h cs.length

end Simulation

variable {R : Simulation m n}

namespace Scanner

/-- Each step of one scanner is related to the same step of another. How deep they nest is left
open, and errors are compared where reading makes them. -/
structure Simulated (R : Simulation m n) (s : Scanner m) (t : Scanner n) : Prop where
  rest : R.Rel s.rest t.rest
  skipBlanks : R.Rel s.skipBlanks t.skipBlanks
  pass (literal : List Char) : R.Rel (s.pass literal) (t.pass literal)
  passKeyword (keyword : List Char) : R.Rel (s.passKeyword keyword) (t.passKeyword keyword)
  string : R.Rel s.string t.string
  number : R.Rel s.number t.number
  word : R.Rel s.word t.word
  unexpected : R.Rel s.unexpected t.unexpected
  unclosed : R.Rel (s.refuse (α := Condition) .closeExpected) (t.refuse .closeExpected)
  finish : R.Rel s.finish t.finish

namespace Simulated

variable {s : Scanner m} {t : Scanner n} (h : s.Simulated R t)
include h

theorem relation (table : List (List Char × Relation)) :
    R.Rel (s.relation table) (t.relation table) := by
  induction table with
  | nil => exact R.pure none
  | cons entry others ih => exact R.bind (h.pass entry.1) fun _ => R.ite (R.pure (some entry.2)) ih

theorem path : R.Rel s.path t.path := by
  have hsegment : R.Rel s.nextSegment t.nextSegment := by
    refine R.bind (h.pass ['.']) fun _ => R.ite ?_ (R.pure none)
    exact R.bind h.word fun segment => R.pure (some segment)
  refine R.bind h.word fun first => ?_
  exact R.bind (R.readMany h.rest hsegment) fun others => R.pure _

theorem leaf (c : Char) : R.Rel (s.leaf c) (t.leaf c) := by
  unfold Scanner.leaf
  split
  · exact h.string
  split
  · exact h.number
  refine R.bind (h.passKeyword _) fun _ => R.ite (R.pure _) ?_
  refine R.bind (h.passKeyword _) fun _ => R.ite (R.pure _) ?_
  exact R.ite h.path h.unexpected

section Levels

variable {operand : m Condition} {operand' : n Condition} (hoperand : R.Rel operand operand')
include hoperand

theorem comparison : R.Rel (s.comparison operand) (t.comparison operand') := by
  refine R.bind hoperand fun left => R.bind h.skipBlanks fun _ => ?_
  refine R.bind (h.relation spellings) fun found => ?_
  cases found with
  | none => exact R.pure left
  | some relation => exact R.bind hoperand fun right => R.pure _

theorem operands (connective : List Char) (join : List Condition → Condition) :
    R.Rel (s.operands connective join operand) (t.operands connective join operand') := by
  have hnext : R.Rel (s.nextOperand connective operand) (t.nextOperand connective operand') := by
    refine R.bind h.skipBlanks fun _ => R.bind (h.pass connective) fun _ => R.ite ?_ (R.pure none)
    exact R.bind hoperand fun next => R.pure (some next)
  refine R.bind hoperand fun first => ?_
  exact R.bind (R.readMany h.rest hnext) fun others => R.pure (chain join first others)

theorem conjunction : R.Rel (s.conjunction operand) (t.conjunction operand') :=
  h.operands (h.comparison hoperand) _ _

theorem disjunction : R.Rel (s.disjunction operand) (t.disjunction operand') :=
  h.operands (h.conjunction hoperand) _ _

theorem group : R.Rel (s.group operand) (t.group operand') := by
  refine R.bind (h.disjunction hoperand) fun inner => R.bind h.skipBlanks fun _ => ?_
  exact R.bind (h.pass [')']) fun _ => R.ite (R.pure inner) h.unclosed

end Levels

section Budget

variable {negated grouped : m Condition} {negated' grouped' : n Condition}

theorem primary (hgrouped : R.Rel grouped grouped') :
    R.Rel (s.primary grouped) (t.primary grouped') := by
  refine R.bind h.skipBlanks fun _ => R.bind h.rest fun cs => ?_
  cases cs with
  | nil => exact h.unexpected
  | cons c cs => exact R.bind (h.pass ['(']) fun _ => R.ite hgrouped (h.leaf c)

theorem negationOr (hnegated : R.Rel negated negated') (hgrouped : R.Rel grouped grouped') :
    R.Rel (s.negationOr negated grouped) (t.negationOr negated' grouped') :=
  R.bind h.skipBlanks fun _ => R.bind (h.pass ['!']) fun _ => R.ite hnegated (h.primary hgrouped)

/-- Budgets need not be the same, as long as operands and groups are related. -/
theorem phrase {budget budget' : Nat} (hunary : R.Rel (s.unary budget) (t.unary budget'))
    (hgrouped : R.Rel (s.grouped budget) (t.grouped budget')) (kind : Phrase) :
    R.Rel (s.phrase budget kind) (t.phrase budget' kind) := by
  cases kind with
  | disjunction => exact h.disjunction hunary
  | conjunction => exact h.conjunction hunary
  | comparison => exact h.comparison hunary
  | unary => exact hunary
  | primary => exact h.primary hgrouped

theorem whole {budget budget' : Nat} (hunary : R.Rel (s.unary budget) (t.unary budget')) :
    R.Rel (s.whole budget) (t.whole budget') :=
  R.bind (h.disjunction hunary) fun condition => R.bind h.finish fun _ => R.pure condition

end Budget

end Simulated

end Scanner

end EdgeTemplate.Condition
