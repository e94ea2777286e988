import EdgeTemplate.Proofs.Typing

/-!
# Templates in two contexts

One template is processed in two contexts. Evaluation reads a context only through the paths of a
condition, so what the two contexts have in common along those paths carries over to the results.
What they have in common is a relation between values: equality, or a coarser one that evaluation
cannot see through. Each step of processing takes related results to related results; an error then
keeps its kind, its line and its condition, and the relation decides how far its cause may differ.
-/
namespace EdgeTemplate

open Outcome

/-! ### Conditions -/

/-- A relation between values that evaluation cannot see through, with the relation between causes
of failure that it leads to. -/
structure Indistinct (values : Json → Json → Prop)
    (causes : ConditionError → ConditionError → Prop) : Prop where
  refl (value : Json) : values value value
  truthy {a b : Json} : values a b → a.truthy = b.truthy
  apply (relation : Relation) {a b a' b' : Json} : values a b → values a' b' →
    Related causes Eq (relation.apply a a') (relation.apply b b')
  undefined (path : List String) : causes (.undefined path) (.undefined path)
  malformed (cause : SyntaxError) : causes (.malformed cause) (.malformed cause)

namespace Condition

mutual

def paths : Condition → List (List String)
  | literal _ => []
  | path segments => [segments]
  | not operand => operand.paths
  | all operands => chainPaths operands
  | any operands => chainPaths operands
  | compare _ left right => left.paths ++ right.paths

def chainPaths : List Condition → List (List String)
  | [] => []
  | operand :: operands => operand.paths ++ chainPaths operands

end

variable {values : Json → Json → Prop} {causes : ConditionError → ConditionError → Prop}
  {first second : Context}

mutual

theorem related_eval (hrel : Indistinct values causes) (condition : Condition)
    (h : ∀ path ∈ condition.paths, Option.Rel values (first.resolve path) (second.resolve path)) :
    Related causes values (condition.eval first) (condition.eval second) := by
  cases condition with
  | literal value => exact .ok (hrel.refl value)
  | path segments =>
    have hresolve := h segments (by simp [paths])
    rw [eval, eval]
    generalize first.resolve segments = found, second.resolve segments = found' at hresolve ⊢
    cases hresolve with
    | some hvalues => exact .ok hvalues
    | none => exact .error (hrel.undefined segments)
  | not operand =>
    rw [paths] at h
    rw [eval, eval]
    apply (related_eval hrel operand h).bind
    intro a b hab
    rw [hrel.truthy hab]
    exact .ok (hrel.refl _)
  | all operands =>
    rw [paths] at h
    rw [eval, eval]
    apply (related_evalChain hrel false operands h).map
    rintro a b rfl
    exact hrel.refl _
  | any operands =>
    rw [paths] at h
    rw [eval, eval]
    apply (related_evalChain hrel true operands h).map
    rintro a b rfl
    exact hrel.refl _
  | compare relation left right =>
    rw [paths, List.forall_mem_append] at h
    rw [eval, eval]
    apply (related_eval hrel left h.1).bind
    intro a b hab
    apply (related_eval hrel right h.2).bind
    intro a' b' hab'
    apply (hrel.apply relation hab hab').bind
    rintro result _ rfl
    exact .ok (hrel.refl _)

theorem related_evalChain (hrel : Indistinct values causes) (decisive : Bool)
    (operands : List Condition)
    (h : ∀ path ∈ chainPaths operands,
      Option.Rel values (first.resolve path) (second.resolve path)) :
    Related causes Eq (evalChain first decisive operands)
      (evalChain second decisive operands) := by
  cases operands with
  | nil => exact .ok rfl
  | cons operand operands =>
    rw [chainPaths, List.forall_mem_append] at h
    rw [evalChain, evalChain]
    apply (related_eval hrel operand h.1).bind
    intro a b hab
    -- The first operand decides in both contexts or in neither.
    rw [hrel.truthy hab]
    split
    · exact .ok rfl
    · exact related_evalChain hrel decisive operands h.2

end

theorem related_test (hrel : Indistinct values causes) {text : List Char}
    (h : ∀ condition, parse text = .ok condition → ∀ path ∈ condition.paths,
      Option.Rel values (first.resolve path) (second.resolve path)) :
    Related causes Eq (test first text) (test second text) := by
  have hevaluate : Related causes values (evaluate first text) (evaluate second text) := by
    rw [evaluate, evaluate]
    cases hparse : parse text with
    | error cause => exact .error (hrel.malformed cause)
    | ok condition => exact related_eval hrel condition (h condition hparse)
  exact hevaluate.map fun _ _ => hrel.truthy

end Condition

/-! ### Templates -/

namespace Error

def condition? : Error → Option String
  | evaluation _ condition _ _ => some condition
  | unmatchedClose _ | unclosed _ _ | config _ | file _ => none

/-- Errors of processing that differ at most in the cause of a failed evaluation, where the causes
are related, and in its context. -/
inductive Corresponds (causes : ConditionError → ConditionError → Prop) : Error → Error → Prop
  | unmatchedClose (line : Nat) : Corresponds causes (.unmatchedClose line) (.unmatchedClose line)
  | unclosed (count line : Nat) : Corresponds causes (.unclosed count line) (.unclosed count line)
  | evaluation (line : Nat) (condition : String) {cause cause' : ConditionError}
      (context context' : Context) : causes cause cause' →
      Corresponds causes (.evaluation line condition cause context)
        (.evaluation line condition cause' context')

variable {causes : ConditionError → ConditionError → Prop} {error other : Error}

theorem Corresponds.same_place (h : Corresponds causes error other) :
    error.kind = other.kind ∧ error.line? = other.line? ∧ error.condition? = other.condition? := by
  cases h <;> exact ⟨rfl, rfl, rfl⟩

theorem Corresponds.detail_eq (h : Corresponds Eq error other) : error.detail = other.detail := by
  cases h with
  | unmatchedClose line => rfl
  | unclosed count line => rfl
  | evaluation line condition context context' hcause => rw [detail, detail, hcause]

end Error

namespace Template

variable {causes : ConditionError → ConditionError → Prop} {first second : Context}

/-- The conditions of a line have related results in two contexts. -/
def Tested (causes : ConditionError → ConditionError → Prop) (first second : Context)
    (line : List Char) : Prop :=
  ∀ text, (Directive.ofLine line).condition? = some text →
    Related causes Eq (Condition.test first text) (Condition.test second text)

theorem related_test_at {text : List Char}
    (h : Related causes Eq (Condition.test first text) (Condition.test second text))
    (number : Nat) :
    Related (Error.Corresponds causes) Eq (test first number text) (test second number text) :=
  h.mapError fun _ _ => .evaluation number _ first second

theorem related_leave (nesting : Nesting) (number : Nat) :
    Related (Error.Corresponds causes) Eq (nesting.leave number) (nesting.leave number) := by
  rw [Nesting.leave]
  split
  · exact .error (.unmatchedClose number)
  · exact .ok rfl

theorem related_finish (nesting : Nesting) :
    Related (Error.Corresponds causes) Eq nesting.finish nesting.finish := by
  rw [Nesting.finish]
  split
  · exact .ok rfl
  · exact .error (.unclosed _ _)

theorem related_step {line : List Char} (htested : Tested causes first second line)
    (nesting : Nesting) (number : Nat) :
    Related (Error.Corresponds causes) Eq (step first nesting number line)
      (step second nesting number line) := by
  unfold Tested at htested
  unfold step
  cases hd : Directive.ofLine line with
  | opening condition =>
    have htest := htested condition (by rw [hd, Directive.condition?])
    apply (related_test_at htest number).bind
    rintro value _ rfl
    exact .ok rfl
  | closing =>
    apply (related_leave nesting number).bind
    rintro next _ rfl
    exact .ok rfl
  | inline conditional =>
    have htest := htested conditional.condition (by rw [hd, Directive.condition?])
    dsimp only
    split
    · exact .ok rfl
    · apply (related_test_at htest number).bind
      rintro value _ rfl
      exact .ok rfl
  | text => exact .ok rfl

theorem related_emit {lines : List (List Char)}
    (htested : ∀ line ∈ lines, Tested causes first second line) (nesting : Nesting)
    (number : Nat) :
    Related (Error.Corresponds causes) Eq (emit first nesting number lines)
      (emit second nesting number lines) := by
  induction lines generalizing nesting number with
  | nil =>
    apply (related_finish nesting).bind
    rintro _ _ rfl
    exact .ok rfl
  | cons line lines ih =>
    rw [List.forall_mem_cons] at htested
    apply (related_step htested.1 nesting number).bind
    rintro ⟨next, emitted⟩ _ rfl
    apply (ih htested.2 next (number + 1)).bind
    rintro rest _ rfl
    exact .ok rfl

theorem related_process {defines other : Defines} {source : String}
    (htested : ∀ line ∈ lines source.toList, Tested causes (.build defines) (.build other) line) :
    Related (Error.Corresponds causes) Eq (process defines source) (process other source) := by
  have hemit := related_emit htested .start 1
  have hexpand : Related (Error.Corresponds causes) Eq (expand (.build defines) source.toList)
      (expand (.build other) source.toList) :=
    hemit.map fun _ _ => congrArg unlines
  exact hexpand.map fun _ _ => congrArg String.ofList

end Template

/-! ### Dependence on the defines -/

theorem indistinct_eq : Indistinct Eq Eq where
  refl _ := rfl
  truthy h := by rw [h]
  apply _ _ _ _ _ h h' := by
    rw [h, h']
    exact related_refl Eq.refl Eq.refl _
  undefined _ := rfl
  malformed _ := rfl

namespace Template

/-- Processing depends on the defines only through the paths that the conditions of the template
mention. Defines that agree on those paths give the same text, or errors that differ in nothing but
the context they show. -/
theorem process_determined_by_paths (defines other : Defines) (source : String)
    (hpaths : ∀ line ∈ lines source.toList, ∀ text,
      (Directive.ofLine line).condition? = some text →
        ∀ condition, Condition.parse text = .ok condition → ∀ path ∈ condition.paths,
          (Context.build defines).resolve path = (Context.build other).resolve path) :
    (∃ output, process defines source = .ok output ∧ process other source = .ok output) ∨
      ∃ error error', process defines source = .error error ∧
        process other source = .error error' ∧ error.kind = error'.kind ∧
        error.line? = error'.line? ∧ error.condition? = error'.condition? ∧
        error.detail = error'.detail := by
  have hprocess : Related (Error.Corresponds Eq) Eq (process defines source)
      (process other source) := by
    apply related_process
    intro line hline text htext
    apply Condition.related_test indistinct_eq
    intro condition hparse path hpath
    rw [hpaths line hline text htext condition hparse path hpath]
    cases (Context.build other).resolve path with
    | none => exact .none
    | some value => exact .some rfl
  rcases hprocess.cases_eq with hok | ⟨error, error', herror, herror', hsame⟩
  · exact .inl hok
  · obtain ⟨hkind, hline, hcondition⟩ := hsame.same_place
    exact .inr ⟨error, error', herror, herror', hkind, hline, hcondition, hsame.detail_eq⟩

/-- The two defines agree on `a`, and both lack `b`. They have nothing else in common. -/
theorem process_determined_by_paths_undefined :
    let defines : Defines := .ofList [("a", .number (.int 1)), ("c", .bool true)]
    let other : Defines := .ofList [("c.d", .string "x"), ("a", .number (.int 1))]
    ∃ error, process other "text\n/* @if(a == 1 && b) */" = .error error ∧
      error.line? = some 2 ∧ error.condition? = some "a == 1 && b" ∧
      process defines "text\n/* @if(a == 1 && b) */" =
        .error (.evaluation 2 "a == 1 && b" (.undefined ["b"]) (.build defines)) := by
  intro defines other
  have hfirst : process defines "text\n/* @if(a == 1 && b) */" =
      .error (.evaluation 2 "a == 1 && b" (.undefined ["b"]) (.build defines)) := by
    simp only [process, String.reduceToList]
    rfl
  have hlines : (lines "text\n/* @if(a == 1 && b) */".toList).map Directive.ofLine =
      [.text, .opening "a == 1 && b".toList] := by decide
  have hparse : Condition.parse "a == 1 && b".toList =
      .ok (.all [.compare .eq (.path ["a"]) (.literal (.number (.int 1))), .path ["b"]]) := by
    simp only [String.reduceToList]
    rfl
  have hagree := process_determined_by_paths defines other "text\n/* @if(a == 1 && b) */" (by
    intro line hline text htext condition hcondition path hpath
    have hmem : Directive.ofLine line ∈ [.text, .opening "a == 1 && b".toList] :=
      hlines ▸ List.mem_map_of_mem hline
    rcases List.mem_cons.mp hmem with h | h
    · rw [h] at htext
      cases htext
    · rw [List.mem_singleton.mp h] at htext
      obtain rfl := Option.some.inj htext
      obtain rfl := Except.ok.inj (hparse.symm.trans hcondition)
      rcases List.mem_cons.mp hpath with rfl | hpath
      · rfl
      · obtain rfl := List.mem_singleton.mp hpath
        rfl)
  rw [hfirst] at hagree
  rcases hagree with ⟨output, hok, -⟩ | ⟨error, error', herror, hother, -, hline, hcondition, -⟩
  · cases hok
  · obtain rfl := Except.error.inj herror
    exact ⟨error', hother, hline.symm, hcondition.symm, hfirst⟩

end Template

end EdgeTemplate
