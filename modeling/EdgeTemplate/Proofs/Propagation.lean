import EdgeTemplate.Condition.Eval

/-!
# Errors inside conditions

A condition with a hole is given by the nodes around the hole. A node either never looks at the
hole, because an operand to the left of it decides or fails, or it hands on whatever error the hole
has. No node turns an error into a value or into another error, so this holds at every depth.
-/
namespace EdgeTemplate.Condition

/-- A node of a condition with a hole in place of one operand. -/
inductive Frame where
  | not
  | all (before after : List Condition)
  | any (before after : List Condition)
  | left (relation : Relation) (other : Condition)
  | right (relation : Relation) (other : Condition)

def Frame.plug : Frame → Condition → Condition
  | not, hole => .not hole
  | all before after, hole => .all (before ++ hole :: after)
  | any before after, hole => .any (before ++ hole :: after)
  | left relation other, hole => .compare relation hole other
  | right relation other, hole => .compare relation other hole

/-- The condition that nodes with holes make up around a condition, the outermost node first. -/
def plug : List Frame → Condition → Condition
  | [], hole => hole
  | frame :: frames, hole => frame.plug (plug frames hole)

/-- The result does not depend on what fills the hole. -/
def Constant (result : Condition → Except ConditionError Json) : Prop :=
  ∃ fixed, ∀ hole, result hole = fixed

/-- An error of what fills the hole is the error of the whole. -/
def Transmits (context : Context) (result : Condition → Except ConditionError Json) : Prop :=
  ∀ hole cause, hole.eval context = .error cause → result hole = .error cause

variable {context : Context}

/-! ### Chains -/

/-- The node of a chain with the given decisive truth value: a disjunction or a conjunction. -/
def chained (decisive : Bool) (operands : List Condition) : Condition :=
  match decisive with
  | false => .all operands
  | true => .any operands

theorem eval_chained (context : Context) (decisive : Bool) (operands : List Condition) :
    eval context (chained decisive operands) = Json.bool <$> evalChain context decisive operands := by
  cases decisive <;> rfl

/-- The second part of a chain is evaluated only if the first part does not decide. -/
theorem evalChain_append (context : Context) (decisive : Bool) (front back : List Condition) :
    evalChain context decisive (front ++ back) = (do
      if (← evalChain context decisive front) = decisive then return decisive
      else evalChain context decisive back) := by
  induction front with
  | nil => cases decisive <;> rfl
  | cons operand front ih =>
    rw [List.cons_append, evalChain, evalChain, ih]
    cases operand.eval context with
    | error cause => rfl
    | ok value =>
      by_cases h : value.truthy = decisive <;> simp [bind, Except.bind, pure, Except.pure, h]

/-! ### Single nodes -/

/-- What is evaluated before the hole either fails, and then nothing else matters, or leaves the
result to what comes after it. -/
theorem constant_or_transmits_bind {α : Type} (first : Except ConditionError α)
    {next : α → Condition → Except ConditionError Json}
    (hnext : ∀ value, Constant (next value) ∨ Transmits context (next value)) :
    Constant (fun hole => first >>= (next · hole)) ∨
      Transmits context (fun hole => first >>= (next · hole)) := by
  cases first with
  | error cause => exact .inl ⟨.error cause, fun _ => rfl⟩
  | ok value => exact hnext value

theorem constant_or_transmits_chained (decisive : Bool) (before after : List Condition) :
    Constant (fun hole => eval context (chained decisive (before ++ hole :: after))) ∨
      Transmits context (fun hole => eval context (chained decisive (before ++ hole :: after))) := by
  simp only [eval_chained, evalChain_append, map_bind]
  apply constant_or_transmits_bind
  intro value
  by_cases hvalue : value = decisive
  · simp only [if_pos hvalue]
    exact .inl ⟨.ok (.bool decisive), fun _ => rfl⟩
  · simp only [if_neg hvalue, evalChain]
    refine .inr ?_
    intro hole cause h
    simp only [h]
    rfl

/-- One case per node: only chains and the right side of a comparison have something before the
hole that can keep it from being evaluated. -/
theorem Frame.constant_or_transmits (context : Context) (frame : Frame) :
    Constant (fun hole => (frame.plug hole).eval context) ∨
      Transmits context (fun hole => (frame.plug hole).eval context) := by
  cases frame with
  | not =>
    refine .inr ?_
    intro hole cause h
    simp only [plug, eval, h]
    rfl
  | all before after => exact constant_or_transmits_chained false before after
  | any before after => exact constant_or_transmits_chained true before after
  | left relation other =>
    refine .inr ?_
    intro hole cause h
    simp only [plug, eval, h]
    rfl
  | right relation other =>
    simp only [plug, eval]
    apply constant_or_transmits_bind
    intro value
    refine .inr ?_
    intro hole cause h
    simp only [h]
    rfl

/-! ### Conditions with a hole -/

theorem Frame.eval_plug_congr (frame : Frame) {first second : Condition}
    (h : first.eval context = second.eval context) :
    (frame.plug first).eval context = (frame.plug second).eval context := by
  cases frame with
  | not => simp only [plug, eval, h]
  | all before after => simp only [plug, eval, evalChain_append, evalChain, h]
  | any before after => simp only [plug, eval, evalChain_append, evalChain, h]
  | left relation other => simp only [plug, eval, h]
  | right relation other => simp only [plug, eval, h]

/-- Around any hole, either what fills it has no influence on the result, or its error comes out as
it is. -/
theorem eval_plug_constant_or_error (context : Context) (frames : List Frame) :
    (∃ fixed, ∀ hole, (plug frames hole).eval context = fixed) ∨
      ∀ hole cause, hole.eval context = .error cause →
        (plug frames hole).eval context = .error cause := by
  induction frames with
  | nil => exact .inr fun _ _ h => h
  | cons frame frames ih =>
    rcases ih with ⟨fixed, hfixed⟩ | hinner
    · -- With a constant inside, the outer node sees the same result whatever fills the hole.
      refine .inl ⟨(frame.plug (plug frames default)).eval context, ?_⟩
      intro hole
      exact frame.eval_plug_congr ((hfixed hole).trans (hfixed default).symm)
    · rcases frame.constant_or_transmits context with ⟨fixed, hfixed⟩ | houter
      · exact .inl ⟨fixed, fun hole => hfixed _⟩
      · refine .inr ?_
        intro hole cause h
        exact houter _ cause (hinner hole cause h)

end EdgeTemplate.Condition
