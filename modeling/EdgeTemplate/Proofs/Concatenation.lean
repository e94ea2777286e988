import EdgeTemplate.Proofs.Processing

/-!
# Templates one after the other

A template is put together from two others with a line feed between them. Processing the first part
leads to a nesting and to output; the second part is then processed from that nesting and from a
later line on. A first part that is processed on its own leaves no region open, so the second part
starts as if it stood alone, except that its lines have greater numbers. Those numbers come back in
errors only, where they are greater by the number of lines of the first part.
-/
namespace EdgeTemplate

open Outcome

/-! ### Greater line numbers -/

def Error.shift (count : Nat) : Error → Error
  | unmatchedClose line => .unmatchedClose (line + count)
  | unclosed depth line => .unclosed depth (line + count)
  | evaluation line condition cause context => .evaluation (line + count) condition cause context
  | config cause => .config cause
  | file cause => .file cause

abbrev Error.Shifted (count : Nat) (error error' : Error) : Prop :=
  error' = error.shift count

def Nesting.shift (count : Nat) (nesting : Nesting) : Nesting :=
  { nesting with regions := nesting.regions.map fun region =>
      { region with line := region.line + count } }

theorem Error.line?_shift (count : Nat) (error : Error) :
    (error.shift count).line? = error.line?.map (· + count) := by
  cases error <;> rfl

namespace Nesting

theorem shift_enter (count : Nat) (nesting : Nesting) (condition : Bool) (line : Nat) :
    (nesting.enter condition line).shift count =
      (nesting.shift count).enter condition (line + count) := rfl

theorem related_leave_shift (count : Nat) (nesting : Nesting) (line : Nat) :
    Related (Error.Shifted count)
      (fun next next' => next' = next.shift count)
      (nesting.leave line) ((nesting.shift count).leave (line + count)) := by
  obtain ⟨regions, skipping⟩ := nesting
  cases regions with
  | nil => exact .error rfl
  | cons region regions => exact .ok rfl

theorem related_finish_shift (count : Nat) (nesting : Nesting) :
    Related (Error.Shifted count) Eq
      nesting.finish (nesting.shift count).finish := by
  unfold finish depth shift
  rw [List.getLast?_map, List.length_map]
  cases nesting.regions.getLast? with
  | none => exact .ok rfl
  | some region => exact .error rfl

end Nesting

namespace Template

variable {context : Context}

theorem related_test_shift (count number : Nat) (condition : List Char) :
    Related (Error.Shifted count) Eq
      (test context number condition) (test context (number + count) condition) := by
  apply (related_refl Eq.refl Eq.refl (Condition.test context condition)).mapError
  rintro cause _ rfl
  rfl

theorem related_step_shift (count : Nat) (nesting : Nesting) (number : Nat) (line : List Char) :
    Related (Error.Shifted count)
      (fun result result' => result' = (result.1.shift count, result.2))
      (step context nesting number line)
      (step context (nesting.shift count) (number + count) line) := by
  unfold step
  cases Directive.ofLine line with
  | opening condition =>
    apply (related_test_shift count number condition).bind
    rintro value _ rfl
    rw [← Nesting.shift_enter]
    exact .ok rfl
  | closing =>
    apply (nesting.related_leave_shift count number).bind
    rintro next _ rfl
    exact .ok rfl
  | inline conditional =>
    have hskipping : (nesting.shift count).skipping = nesting.skipping := rfl
    dsimp only
    rw [hskipping]
    split
    · exact .ok rfl
    · apply (related_test_shift count number conditional.condition).bind
      rintro value _ rfl
      exact .ok rfl
  | text => exact .ok rfl

theorem related_emit_shift (count : Nat) (nesting : Nesting) (number : Nat)
    (lines : List (List Char)) :
    Related (Error.Shifted count) Eq
      (emit context nesting number lines)
      (emit context (nesting.shift count) (number + count) lines) := by
  induction lines generalizing nesting number with
  | nil =>
    apply (nesting.related_finish_shift count).bind
    rintro _ _ rfl
    exact .ok rfl
  | cons line lines ih =>
    apply (related_step_shift count nesting number line).bind
    rintro ⟨next, emitted⟩ _ rfl
    rw [Nat.add_right_comm]
    apply (ih next (number + 1)).bind
    rintro rest _ rfl
    exact .ok rfl

theorem emit_start_add (count : Nat) (lines : List (List Char)) :
    emit context .start (1 + count) lines =
      (emit context .start 1 lines).mapError (Error.shift count) := by
  have hshift : Related (Error.Shifted count) Eq
      (emit context .start 1 lines) (emit context .start (1 + count) lines) :=
    related_emit_shift count .start 1 lines
  rcases hshift.cases_eq with ⟨output, hfirst, hlater⟩ | ⟨error, error', hfirst, hlater, rfl⟩
  · rw [hfirst, hlater]
    rfl
  · rw [hfirst, hlater]
    rfl

/-! ### Resuming -/

/-- Processes lines without the check at the end. The result is the nesting after them and what
they add to the output. -/
def advance (context : Context) (nesting : Nesting) (number : Nat) :
    List (List Char) → Except Error (Nesting × List (List Char))
  | [] => .ok (nesting, [])
  | line :: lines => do
    let (nesting, emitted) ← step context nesting number line
    let (nesting, rest) ← advance context nesting (number + 1) lines
    return (nesting, emitted.toList ++ rest)

/-- Processing can be interrupted between two lines. -/
theorem emit_append (nesting : Nesting) (number : Nat) (front back : List (List Char)) :
    emit context nesting number (front ++ back) = (do
      let (next, emitted) ← advance context nesting number front
      let rest ← emit context next (number + front.length) back
      return emitted ++ rest) := by
  induction front generalizing nesting number with
  | nil =>
    change _ = (do return [] ++ (← emit context nesting number back))
    simp only [List.nil_append, bind_pure]
  | cons line front ih =>
    have hnumber : number + (line :: front).length = number + 1 + front.length := by
      rw [List.length_cons]
      omega
    simp only [List.cons_append, emit, advance, bind_assoc, pure_bind, ih, hnumber,
      List.append_assoc]

theorem exists_advance_of_emit {nesting : Nesting} {number : Nat}
    {lines output : List (List Char)} (h : emit context nesting number lines = .ok output) :
    ∃ next, advance context nesting number lines = .ok (next, output) ∧ next.finish = .ok () := by
  rw [← List.append_nil lines, emit_append] at h
  obtain ⟨⟨next, emitted⟩, hadvance, h⟩ := bind_eq_ok_iff.mp h
  obtain ⟨rest, hrest, h⟩ := bind_eq_ok_iff.mp h
  obtain ⟨_, hfinish, hrest⟩ := bind_eq_ok_iff.mp hrest
  obtain rfl := Except.ok.inj hrest
  obtain rfl := Except.ok.inj h
  rw [List.append_nil]
  exact ⟨next, hadvance, hfinish⟩

theorem finish_error {nesting : Nesting} {error : Error} (h : nesting.finish = .error error) :
    ∃ depth line, error = .unclosed depth line := by
  unfold Nesting.finish at h
  split at h
  · cases h
  · exact ⟨_, _, (Except.error.inj h).symm⟩

/-- What fails before the end of the lines fails whatever comes after them. -/
theorem emit_append_error {nesting : Nesting} {number : Nat} {front : List (List Char)}
    {error : Error} (h : emit context nesting number front = .error error)
    (hearly : ∀ depth line, error ≠ .unclosed depth line) (back : List (List Char)) :
    emit context nesting number (front ++ back) = .error error := by
  rw [← List.append_nil front, emit_append] at h
  rcases bind_eq_error_iff.mp h with hadvance | ⟨⟨next, emitted⟩, -, h⟩
  · rw [emit_append, hadvance]
    rfl
  · -- The lines were all processed, so it must be the check at the end that failed.
    exfalso
    rcases bind_eq_error_iff.mp h with h | ⟨rest, -, h⟩
    · rcases bind_eq_error_iff.mp h with h | ⟨_, -, h⟩
      · obtain ⟨depth, line, rfl⟩ := finish_error h
        exact hearly depth line rfl
      · cases h
    · cases h

theorem tracks_advance {lines rest output : List (List Char)} {j : Nat} {nesting next : Nesting}
    (htracks : Tracks context lines j nesting) (hrest : lines.drop j = rest)
    (h : advance context nesting (j + 1) rest = .ok (next, output)) :
    ∃ stack, Mark.Pending (marks lines) stack ∧ next = nestingOf context lines stack := by
  induction rest generalizing j nesting output with
  | nil =>
    obtain ⟨rfl, -⟩ := Prod.mk.inj (Except.ok.inj h)
    exact tracks_end htracks hrest
  | cons line rest ih =>
    obtain ⟨hline, hrest⟩ := getElem?_of_drop_eq_cons hrest
    obtain ⟨⟨middle, emitted⟩, hstep, h⟩ := bind_eq_ok_iff.mp h
    obtain ⟨⟨final, others⟩, hothers, h⟩ := bind_eq_ok_iff.mp h
    obtain ⟨rfl, -⟩ := Prod.mk.inj (Except.ok.inj h)
    exact ih (step_ok hline htracks hstep).1 hrest hothers

theorem advance_start {lines output : List (List Char)}
    (h : emit context .start 1 lines = .ok output) :
    advance context .start 1 lines = .ok (.start, output) := by
  obtain ⟨next, hadvance, hfinish⟩ := exists_advance_of_emit h
  obtain ⟨stack, -, rfl⟩ := tracks_advance tracks_start List.drop_zero hadvance
  rw [finish_nestingOf] at hfinish
  cases hstack : stack.getLast? with
  | some i => simp [hstack] at hfinish
  | none => rwa [List.getLast?_eq_none_iff.mp hstack] at hadvance

/-- After lines that are processed on their own, further lines are processed as if they stood
alone, but for the lines of their errors. -/
theorem emit_append_ok {front output : List (List Char)}
    (h : emit context .start 1 front = .ok output) (back : List (List Char)) :
    emit context .start 1 (front ++ back) =
      (output ++ ·) <$> (emit context .start 1 back).mapError (Error.shift front.length) := by
  rw [emit_append, advance_start h, ← emit_start_add]
  rfl

/-! ### Texts -/

theorem lines_append (front back : List Char) :
    lines (front ++ '\n' :: back) = lines front ++ lines back :=
  List.splitOn_append_cons_self front back

theorem unlines_append {front back : List (List Char)} (hfront : front ≠ []) (hback : back ≠ []) :
    unlines (front ++ back) = unlines front ++ '\n' :: unlines back := by
  unfold unlines
  induction front with
  | nil => exact (hfront rfl).elim
  | cons line front ih =>
    cases front with
    | nil => simp [List.intercalate_cons_of_ne_nil hback]
    | cons next front =>
      have hrest := ih (by simp)
      rw [List.cons_append, List.cons_append, List.intercalate_cons_cons, ← List.cons_append, hrest,
        List.intercalate_cons_cons, List.append_assoc, List.append_assoc, List.append_assoc]

theorem ofList_unlines_append {front back : List (List Char)} (hfront : front ≠ [])
    (hback : back ≠ []) :
    String.ofList (unlines (front ++ back)) =
      String.ofList (unlines front) ++ "\n" ++ String.ofList (unlines back) := by
  rw [unlines_append hfront hback, ← String.toList_inj]
  simp

theorem lines_toList_append (front back : String) :
    lines (front ++ "\n" ++ back).toList = lines front.toList ++ lines back.toList := by
  rw [← lines_append]
  simp

theorem process_eq_map (defines : Defines) (source : String) :
    process defines source =
      (fun output => String.ofList (unlines output)) <$>
        emit (.build defines) .start 1 (lines source.toList) := by
  rw [process, expand, Functor.map_map]

/-! ### Templates -/

theorem process_append_early {defines : Defines} {front : String} {error : Error}
    (h : process defines front = .error error)
    (hearly : ∀ depth line, error ≠ .unclosed depth line) (back : String) :
    process defines (front ++ "\n" ++ back) = .error error := by
  rw [process_eq_map] at h
  rw [process_eq_map, lines_toList_append, emit_append_error (map_eq_error_iff.mp h) hearly]
  rfl

theorem process_append_ok {defines : Defines} {front back : String}
    {output output' : List (List Char)}
    (h : emit (.build defines) .start 1 (lines front.toList) = .ok output)
    (h' : emit (.build defines) .start 1 (lines back.toList) = .ok output') :
    process defines (front ++ "\n" ++ back) =
      .ok (String.ofList (unlines (output ++ output'))) := by
  rw [process_eq_map, lines_toList_append, emit_append_ok h, h']
  rfl

theorem process_append_late {defines : Defines} {front back first : String} {error : Error}
    (h : process defines front = .ok first) (h' : process defines back = .error error) :
    process defines (front ++ "\n" ++ back) =
      .error (error.shift (lines front.toList).length) := by
  rw [process_eq_map] at h h'
  obtain ⟨output, houtput, -⟩ := map_eq_ok_iff.mp h
  rw [process_eq_map, lines_toList_append, emit_append_ok houtput, map_eq_error_iff.mp h']
  rfl

theorem line?_of_process_error {defines : Defines} {source : String} {error : Error}
    (h : process defines source = .error error) : ∃ line, error.line? = some line := by
  rcases process_eq_error h with ⟨k, hfault, -⟩ | ⟨-, i, -, rfl⟩
  · cases hfault with
    | opening => exact ⟨_, rfl⟩
    | closing => exact ⟨_, rfl⟩
    | inline => exact ⟨_, rfl⟩
  · exact ⟨_, rfl⟩

/-- A template that is put together from two parts. An error of the first part comes out unless it
is a region left open at the end. If the first part is processed, so is the second, after it: their
outputs are joined by a line feed where both have lines, and an error of the second part moves down
by the number of lines of the first. -/
theorem process_append (defines : Defines) (front back : String) :
    let emitted (text : String) := emit (.build defines) .start 1 (lines text.toList)
    let whole := process defines (front ++ "\n" ++ back)
    let count := (lines front.toList).length
    (∀ error, process defines front = .error error →
      (error.kind = .evaluation ∨ ∃ line, error = .unmatchedClose line) →
        whole = .error error) ∧
    (∀ first second, process defines front = .ok first → process defines back = .ok second →
      (emitted front ≠ .ok [] → emitted back ≠ .ok [] → whole = .ok (first ++ "\n" ++ second)) ∧
      (emitted front = .ok [] → whole = .ok second) ∧
      (emitted back = .ok [] → whole = .ok first)) ∧
    (∀ first error, process defines front = .ok first → process defines back = .error error →
      ∃ k, error.line? = some k ∧ whole = .error (error.shift count) ∧
        (error.shift count).line? = some (k + count)) := by
  intro emitted whole count
  refine ⟨?_, ?_, ?_⟩
  · intro error herror hearly
    apply process_append_early herror
    rintro depth line rfl
    rcases hearly with hkind | ⟨line', hclose⟩
    · cases hkind
    · cases hclose
  · intro first second hfirst hsecond
    rw [process_eq_map] at hfirst hsecond
    obtain ⟨output, houtput, rfl⟩ := map_eq_ok_iff.mp hfirst
    obtain ⟨output', houtput', rfl⟩ := map_eq_ok_iff.mp hsecond
    have hwhole : whole = .ok (String.ofList (unlines (output ++ output'))) :=
      process_append_ok houtput houtput'
    rw [hwhole]
    refine ⟨?_, ?_, ?_⟩
    · intro hfront hback
      have hne : output ≠ [] := fun hnil => hfront (houtput.trans (congrArg _ hnil))
      have hne' : output' ≠ [] := fun hnil => hback (houtput'.trans (congrArg _ hnil))
      exact congrArg Except.ok (ofList_unlines_append hne hne')
    · intro hfront
      obtain rfl := Except.ok.inj (houtput.symm.trans hfront)
      rfl
    · intro hback
      obtain rfl := Except.ok.inj (houtput'.symm.trans hback)
      rw [List.append_nil]
  · intro first error hfirst herror
    obtain ⟨k, hk⟩ := line?_of_process_error herror
    refine ⟨k, hk, process_append_late hfirst herror, ?_⟩
    rw [Error.line?_shift, hk, Option.map_some]

/-- The second part leaves a region open at its second line, which is the fifth of the whole. -/
theorem process_append_unclosed :
    process .empty ("a\n/* @if(false) */\n/* @endif */" ++ "\n" ++ "b\n/* @if(true) */") =
      .error (.unclosed 1 5) := by
  have hfront : process .empty "a\n/* @if(false) */\n/* @endif */" = .ok "a" := by
    simp only [process, String.reduceToList]
    rfl
  have hback : process .empty "b\n/* @if(true) */" = .error (.unclosed 1 2) := by
    simp only [process, String.reduceToList]
    rfl
  have hcount : (lines "a\n/* @if(false) */\n/* @endif */".toList).length = 3 := by decide
  obtain ⟨-, -, hlater⟩ :=
    process_append .empty "a\n/* @if(false) */\n/* @endif */" "b\n/* @if(true) */"
  obtain ⟨k, -, hwhole, -⟩ := hlater _ _ hfront hback
  rwa [hcount] at hwhole

end Template

end EdgeTemplate
