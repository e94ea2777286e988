import EdgeTemplate.Proofs.Processing
import EdgeTemplate.Request.Signals

/-!
# Typed conditions

A signature gives types to paths. A condition that is well typed against a signature has a value of
its type in every context that conforms to the signature. The signals of a request conform to one
fixed signature whatever the headers are, so a template written against that signature is processed
for every request.
-/
namespace EdgeTemplate

inductive ValueType where
  | bool
  | number
  | string
  | mapping
deriving DecidableEq, Repr

inductive Json.HasType : Json → ValueType → Prop
  | bool (value : Bool) : HasType (.bool value) .bool
  | number (value : Number) : HasType (.number value) .number
  | string (value : String) : HasType (.string value) .string
  | mapping (fields : List (String × Json)) : HasType (.object fields) .mapping

/-- Whether a relation compares two values of a type: all relations compare numbers, and only
equality and its opposite compare truth values and strings. -/
def Relation.compares : Relation → ValueType → Bool
  | _, .number => true
  | .eq, .bool | .ne, .bool | .eq, .string | .ne, .string => true
  | _, _ => false

abbrev Signature := List (List String × ValueType)

/-- Every path of the signature leads to a value of its type. -/
def Context.Conforms (context : Context) (signature : Signature) : Prop :=
  ∀ entry ∈ signature, ∃ value, context.resolve entry.1 = some value ∧ value.HasType entry.2

/-- The types of the signals of a request, and of the mappings that they stand in. -/
def Headers.signature : Signature :=
  [(["device"], .mapping), (["device", "isMobile"], .bool), (["device", "screenWidth"], .number),
    (["user"], .mapping), (["user", "language"], .string), (["user", "isLoggedIn"], .bool),
    (["experiment"], .mapping), (["experiment", "group"], .string),
    (["featureFlags"], .mapping), (["featureFlags", "newUserProfile"], .bool)]

namespace Condition

mutual

/-- `HasType signature condition type` says that the condition is well typed and has the type. -/
inductive HasType (signature : Signature) : Condition → ValueType → Prop
  | literal {value type} : value.HasType type → HasType signature (.literal value) type
  | path {segments type} : (segments, type) ∈ signature → HasType signature (.path segments) type
  | not {operand type} : HasType signature operand type → HasType signature (.not operand) .bool
  | all {operands} : Typed signature operands → HasType signature (.all operands) .bool
  | any {operands} : Typed signature operands → HasType signature (.any operands) .bool
  | compare {relation left right type} : HasType signature left type →
      HasType signature right type → relation.compares type = true →
      HasType signature (.compare relation left right) .bool

/-- Each operand of a chain has some type. -/
inductive Typed (signature : Signature) : List Condition → Prop
  | nil : Typed signature []
  | cons {operand operands type} : HasType signature operand type → Typed signature operands →
      Typed signature (operand :: operands)

end

end Condition

/-! ### Evaluation -/

theorem Relation.apply_ok {relation : Relation} {type : ValueType} {left right : Json}
    (hleft : left.HasType type) (hright : right.HasType type)
    (h : relation.compares type = true) : ∃ result, relation.apply left right = .ok result := by
  cases hleft with
  | bool a =>
    cases hright
    cases relation with
    | eq | ne => exact ⟨_, rfl⟩
    | lt | le | gt | ge => cases h
  | number a =>
    cases hright
    exact ⟨_, rfl⟩
  | string a =>
    cases hright
    cases relation with
    | eq | ne => exact ⟨_, rfl⟩
    | lt | le | gt | ge => cases h
  | mapping fields => cases relation <;> cases h

namespace Condition

variable {signature : Signature} {context : Context}

mutual

theorem HasType.eval (hcontext : context.Conforms signature) {condition : Condition}
    {type : ValueType} (h : HasType signature condition type) :
    ∃ value, Condition.eval context condition = .ok value ∧ value.HasType type := by
  cases h with
  | literal hvalue => exact ⟨_, rfl, hvalue⟩
  | path hmem =>
    obtain ⟨value, hvalue, htype⟩ := hcontext _ hmem
    exact ⟨value, by rw [Condition.eval, hvalue], htype⟩
  | not hoperand =>
    obtain ⟨value, hvalue, -⟩ := hoperand.eval hcontext
    exact ⟨_, by rw [Condition.eval, hvalue]; rfl, .bool _⟩
  | all hoperands =>
    obtain ⟨value, hvalue⟩ := hoperands.eval hcontext false
    exact ⟨_, by rw [Condition.eval, hvalue]; rfl, .bool _⟩
  | any hoperands =>
    obtain ⟨value, hvalue⟩ := hoperands.eval hcontext true
    exact ⟨_, by rw [Condition.eval, hvalue]; rfl, .bool _⟩
  | compare hleft hright hcompares =>
    obtain ⟨left, hl, hltype⟩ := hleft.eval hcontext
    obtain ⟨right, hr, hrtype⟩ := hright.eval hcontext
    obtain ⟨result, hresult⟩ := Relation.apply_ok hltype hrtype hcompares
    refine ⟨.bool result, ?_, .bool result⟩
    simp [Condition.eval, hl, hr, hresult, bind, Except.bind, pure, Except.pure]

theorem Typed.eval (hcontext : context.Conforms signature) {operands : List Condition}
    (h : Typed signature operands) (decisive : Bool) :
    ∃ value, evalChain context decisive operands = .ok value := by
  cases h with
  | nil => exact ⟨!decisive, rfl⟩
  | cons hoperand hoperands =>
    obtain ⟨value, hvalue, -⟩ := hoperand.eval hcontext
    rw [evalChain, hvalue]
    by_cases hdecides : value.truthy = decisive
    · exact ⟨decisive, if_pos hdecides⟩
    · obtain ⟨others, hothers⟩ := hoperands.eval hcontext decisive
      exact ⟨others, (if_neg hdecides).trans hothers⟩

end

theorem test_ok (hcontext : context.Conforms signature) {text : List Char}
    {condition : Condition} {type : ValueType} (hparse : parse text = .ok condition)
    (htype : HasType signature condition type) : ∃ value, test context text = .ok value := by
  obtain ⟨value, hvalue, -⟩ := htype.eval hcontext
  exact ⟨value.truthy, by rw [test, evaluate, hparse]; exact congrArg (Json.truthy <$> ·) hvalue⟩

end Condition

/-! ### Signals -/

theorem Headers.root_build_signals (headers : Headers) :
    (Context.build headers.signals).root =
      [("device", .object
          [("isMobile", .bool headers.isMobile),
            ("screenWidth", .number headers.width)]),
        ("user", .object
          [("language", .string headers.language), ("isLoggedIn", .bool headers.isLoggedIn)]),
        ("experiment", .object [("group", .string headers.experimentGroup)]),
        ("featureFlags", .object [("newUserProfile", .bool headers.wantsNewProfile)])] := by
  have hentries : headers.signals.entries =
      [("device.isMobile", .bool headers.isMobile),
        ("device.screenWidth", .number headers.width),
        ("user.language", .string headers.language),
        ("user.isLoggedIn", .bool headers.isLoggedIn),
        ("experiment.group", .string headers.experimentGroup),
        ("featureFlags.newUserProfile", .bool headers.wantsNewProfile)] := rfl
  have hsegments : Context.segments "device.isMobile" = ["device", "isMobile"] ∧
      Context.segments "device.screenWidth" = ["device", "screenWidth"] ∧
      Context.segments "user.language" = ["user", "language"] ∧
      Context.segments "user.isLoggedIn" = ["user", "isLoggedIn"] ∧
      Context.segments "experiment.group" = ["experiment", "group"] ∧
      Context.segments "featureFlags.newUserProfile" = ["featureFlags", "newUserProfile"] := by
    decide
  simp only [Context.build, hentries, List.foldl_cons, List.foldl_nil, Context.define, hsegments]
  rfl

theorem Headers.conforms_signals (headers : Headers) :
    (Context.build headers.signals).Conforms Headers.signature := by
  simp only [Context.Conforms, Headers.signature, Context.resolve, Headers.root_build_signals,
    List.forall_mem_cons, List.not_mem_nil, false_implies, implies_true, and_true]
  exact ⟨⟨_, rfl, .mapping _⟩, ⟨_, rfl, .bool _⟩, ⟨_, rfl, .number _⟩, ⟨_, rfl, .mapping _⟩,
    ⟨_, rfl, .string _⟩, ⟨_, rfl, .bool _⟩, ⟨_, rfl, .mapping _⟩, ⟨_, rfl, .string _⟩,
    ⟨_, rfl, .mapping _⟩, ⟨_, rfl, .bool _⟩⟩

/-! ### Templates -/

def Directive.condition? : Directive → Option (List Char)
  | .opening condition => some condition
  | .inline conditional => some conditional.condition
  | .closing | .text => none

namespace Template

open Mark

/-- A balanced template is processed if all its conditions have values, visible or not. -/
theorem process_ok_of_tests {defines : Defines} {source : String}
    (hbalanced : Balanced (marks (lines source.toList)))
    (htests : ∀ line ∈ lines source.toList, ∀ text,
      (Directive.ofLine line).condition? = some text →
        ∃ value, Condition.test (.build defines) text = .ok value) :
    ∃ output, process defines source = .ok output := by
  have habsurd : ∀ {j : Nat} {line text cause}, (lines source.toList)[j]? = some line →
      (Directive.ofLine line).condition? = some text →
        Condition.test (.build defines) text ≠ .error cause := by
    intro j line text cause hline htext herror
    obtain ⟨value, hvalue⟩ := htests line (List.mem_of_getElem? hline) text htext
    rw [herror] at hvalue
    cases hvalue
  cases h : process defines source with
  | ok output => exact ⟨output, rfl⟩
  | error error =>
    exfalso
    rcases process_eq_error h with ⟨k, hfault, -⟩ | ⟨-, i, hi, -⟩
    · cases hfault with
      | opening hline hd ht => exact habsurd hline (by rw [hd, Directive.condition?]) ht
      | inline hline hd _ ht => exact habsurd hline (by rw [hd, Directive.condition?]) ht
      | closing hline hd hnone =>
        obtain ⟨i, hi⟩ := hbalanced.exists_encloses (k := k)
          (by rw [getElem?_marks hline, hd, Directive.mark])
        exact hnone i hi
    · rw [unclosed_eq_nil_of_balanced hbalanced] at hi
      cases hi

/-- A balanced template whose conditions are well typed against the signature of the signals is
processed for every request. -/
theorem process_signals_ok (headers : Headers) (source : String)
    (hbalanced : Balanced (marks (lines source.toList)))
    (htyped : ∀ line ∈ lines source.toList, ∀ text,
      (Directive.ofLine line).condition? = some text →
        ∃ condition type, Condition.parse text = .ok condition ∧
          Condition.HasType Headers.signature condition type) :
    ∃ output, process headers.signals source = .ok output := by
  apply process_ok_of_tests hbalanced
  intro line hline text htext
  obtain ⟨condition, type, hparse, htype⟩ := htyped line hline text htext
  exact Condition.test_ok headers.conforms_signals hparse htype

/-- A request whose screen width is no number, and a template with a block and an inline
conditional. -/
theorem process_signals_ok_malformed_width :
    let source := "/* @if(device.screenWidth < 600 && !user) */\nsmall();\n/* @endif */\n" ++
      "if (/* @if(user.language == experiment.group) */ false) go();"
    Balanced (marks (lines source.toList)) ∧
      ∃ output, process (Headers.empty.insert " X-Screen-Width" "wide").signals source =
        .ok output := by
  intro source
  have hdirectives : (lines source.toList).map Directive.ofLine =
      [.opening "device.screenWidth < 600 && !user".toList, .text, .closing,
        .inline ⟨"if (".toList, "user.language == experiment.group".toList, ") go();".toList⟩] := by
    decide +kernel
  have hbalanced : Balanced (marks (lines source.toList)) := by
    have hmarks : marks (lines source.toList) =
        ((lines source.toList).map Directive.ofLine).map Directive.mark := by simp [marks]
    rw [hmarks, hdirectives]
    decide
  have hblock : Condition.parse "device.screenWidth < 600 && !user".toList =
      .ok (.all
        [.compare .lt (.path ["device", "screenWidth"]) (.literal (.number (.int 600))),
          .not (.path ["user"])]) := by
    simp only [String.reduceToList]
    rfl
  have hinline : Condition.parse "user.language == experiment.group".toList =
      .ok (.compare .eq (.path ["user", "language"]) (.path ["experiment", "group"])) := by
    simp only [String.reduceToList]
    rfl
  refine ⟨hbalanced, process_signals_ok _ source hbalanced ?_⟩
  intro line hline text htext
  have hmem : Directive.ofLine line ∈ (lines source.toList).map Directive.ofLine :=
    List.mem_map_of_mem hline
  rw [hdirectives] at hmem
  simp only [List.mem_cons, List.not_mem_nil, or_false] at hmem
  rcases hmem with h | h | h | h <;> rw [h] at htext
  · obtain rfl := Option.some.inj htext
    have hwidth : (["device", "screenWidth"], ValueType.number) ∈ Headers.signature := by decide
    have huser : (["user"], ValueType.mapping) ∈ Headers.signature := by decide
    exact ⟨_, .bool, hblock,
      .all (.cons (.compare (.path hwidth) (.literal (.number _)) rfl)
        (.cons (.not (.path huser)) .nil))⟩
  · cases htext
  · cases htext
  · obtain rfl := Option.some.inj htext
    have hlanguage : (["user", "language"], ValueType.string) ∈ Headers.signature := by decide
    have hgroup : (["experiment", "group"], ValueType.string) ∈ Headers.signature := by decide
    exact ⟨_, .bool, hinline, .compare (.path hlanguage) (.path hgroup) rfl⟩

end Template

end EdgeTemplate
