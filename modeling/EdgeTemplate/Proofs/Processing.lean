import EdgeTemplate.Proofs.Regions

/-!
# Processing a template

The results of processing, in terms of regions: it succeeds exactly when the marks are balanced and
no line has a fault, and the output then consists of the visible lines. Otherwise the first fault is
reported, and if no line has one, the first of the opening markers that are never closed.
-/
namespace EdgeTemplate.Template

open Mark Outcome

def unclosed (lines : List (List Char)) : List Nat :=
  unmatched (marks lines)

variable {context : Context} {lines : List (List Char)}

theorem unclosed_eq_reverse {stack : List Nat} (h : Pending (marks lines) stack) :
    unclosed lines = stack.reverse :=
  h.unmatched_eq

theorem depth_nestingOf (stack : List Nat) :
    (nestingOf context lines stack).depth = stack.length := by
  have hlines : ((nestingOf context lines stack).regions.map Region.line).length =
      (stack.map (· + 1)).length := by rw [map_line_nestingOf]
  simpa [Nesting.depth] using hlines

theorem finish_nestingOf (stack : List Nat) :
    (nestingOf context lines stack).finish =
      match stack.getLast? with
      | none => .ok ()
      | some i => .error (.unclosed stack.length (i + 1)) := by
  have hlast : (nestingOf context lines stack).regions.getLast?.map Region.line =
      stack.getLast?.map (· + 1) := by
    rw [← List.getLast?_map, map_line_nestingOf, List.getLast?_map]
  unfold Nesting.finish
  rw [depth_nestingOf]
  cases hs : stack.getLast? with
  | none =>
    rw [hs] at hlast
    rw [Option.map_eq_none_iff.mp hlast]
  | some i =>
    rw [hs] at hlast
    obtain ⟨region, hregion, hline⟩ := Option.map_eq_some_iff.mp hlast
    rw [hregion]
    simp [hline]

/-! ### Whole runs -/

theorem getElem?_of_drop_eq_cons {j : Nat} {line : List Char} {rest : List (List Char)}
    (h : lines.drop j = line :: rest) : lines[j]? = some line ∧ lines.drop (j + 1) = rest := by
  constructor
  · rw [← Nat.add_zero j, ← List.getElem?_drop, h, List.getElem?_cons_zero]
  · rw [← List.drop_drop, h, List.drop_one, List.tail_cons]

theorem tracks_end {j : Nat} {nesting : Nesting} (htracks : Tracks context lines j nesting)
    (hrest : lines.drop j = []) :
    ∃ stack, Pending (marks lines) stack ∧ nesting = nestingOf context lines stack := by
  obtain ⟨stack, hstack, rfl⟩ := htracks
  refine ⟨stack, ?_, rfl⟩
  have hle : (marks lines).length ≤ j := by simpa [marks] using hrest
  rwa [List.take_of_length_le hle] at hstack

theorem emit_ok {j : Nat} {nesting : Nesting} {rest output : List (List Char)}
    (htracks : Tracks context lines j nesting) (hrest : lines.drop j = rest)
    (h : emit context nesting (j + 1) rest = .ok output) :
    (∀ k, j ≤ k → ∀ error, ¬ Fault context lines k error) ∧ Balanced (marks lines) ∧
      output = (rest.zipIdx j).filterMap fun item => shown context lines item.1 item.2 := by
  induction rest generalizing j nesting output with
  | nil =>
    obtain ⟨stack, hstack, rfl⟩ := tracks_end htracks hrest
    obtain ⟨_, hfinish, houtput⟩ := bind_eq_ok_iff.mp h
    rw [finish_nestingOf] at hfinish
    cases hs : stack.getLast? with
    | some i => simp [hs] at hfinish
    | none =>
      rw [List.getLast?_eq_none_iff.mp hs] at hstack
      refine ⟨?_, Pending.nil_iff.mp hstack, (Except.ok.inj houtput).symm⟩
      intro k hk
      exact not_fault_of_length_le (Nat.le_trans (List.drop_eq_nil_iff.mp hrest) hk)
  | cons line rest ih =>
    obtain ⟨hline, hrest⟩ := getElem?_of_drop_eq_cons hrest
    obtain ⟨⟨next, emitted⟩, hstep, h⟩ := bind_eq_ok_iff.mp h
    obtain ⟨others, hothers, houtput⟩ := bind_eq_ok_iff.mp h
    obtain ⟨hnext, hnone, hemitted⟩ := step_ok hline htracks hstep
    obtain ⟨hfaults, hbalanced, rfl⟩ := ih hnext hrest hothers
    refine ⟨?_, hbalanced, ?_⟩
    · intro k hk
      rcases Nat.eq_or_lt_of_le hk with rfl | hk
      · exact hnone
      · exact hfaults k hk
    · rw [← Except.ok.inj houtput, hemitted, List.zipIdx_cons, List.filterMap_cons]
      cases hs : shown context lines line j <;> simp

theorem emit_error {j : Nat} {nesting : Nesting} {rest : List (List Char)} {error : Error}
    (htracks : Tracks context lines j nesting) (hrest : lines.drop j = rest)
    (h : emit context nesting (j + 1) rest = .error error) :
    (∃ k, Fault context lines k error ∧ ∀ m, j ≤ m → m < k → ∀ e, ¬ Fault context lines m e) ∨
      ((∀ k, j ≤ k → ∀ e, ¬ Fault context lines k e) ∧ ∃ i, (unclosed lines).head? = some i ∧
        error = .unclosed (unclosed lines).length (i + 1)) := by
  induction rest generalizing j nesting with
  | nil =>
    obtain ⟨stack, hstack, rfl⟩ := tracks_end htracks hrest
    refine .inr ⟨?_, ?_⟩
    · intro k hk
      exact not_fault_of_length_le (Nat.le_trans (List.drop_eq_nil_iff.mp hrest) hk)
    · rw [unclosed_eq_reverse hstack, List.head?_reverse, List.length_reverse]
      rcases bind_eq_error_iff.mp h with h | ⟨_, _, h⟩
      · rw [finish_nestingOf] at h
        cases hs : stack.getLast? with
        | none => simp [hs] at h
        | some i =>
          simp only [hs] at h
          exact ⟨i, rfl, (Except.error.inj h).symm⟩
      · cases h
  | cons line rest ih =>
    obtain ⟨hline, hrest⟩ := getElem?_of_drop_eq_cons hrest
    rcases bind_eq_error_iff.mp h with h | ⟨⟨next, emitted⟩, hstep, h⟩
    · exact .inl ⟨j, step_error hline htracks h, fun m hm hlt => by omega⟩
    · obtain ⟨hnext, hnone, -⟩ := step_ok hline htracks hstep
      have hemit : emit context next (j + 1 + 1) rest = .error error := by
        rcases bind_eq_error_iff.mp h with h | ⟨_, _, h⟩
        · exact h
        · cases h
      rcases ih hnext hrest hemit with ⟨k, hfault, hfirst⟩ | ⟨hfaults, hend⟩
      · refine .inl ⟨k, hfault, ?_⟩
        intro m hm hlt
        rcases Nat.eq_or_lt_of_le hm with rfl | hm
        · exact hnone
        · exact hfirst m hm hlt
      · refine .inr ⟨?_, hend⟩
        intro k hk
        rcases Nat.eq_or_lt_of_le hk with rfl | hk
        · exact hnone
        · exact hfaults k hk

theorem process_eq_ok {defines : Defines} {source output : String}
    (h : process defines source = .ok output) :
    (∀ k error, ¬ Fault (.build defines) (Template.lines source.toList) k error) ∧
      Balanced (marks (Template.lines source.toList)) ∧
      output = String.ofList
        (unlines (visibleLines (.build defines) (Template.lines source.toList))) := by
  obtain ⟨text, htext, rfl⟩ := map_eq_ok_iff.mp h
  obtain ⟨emitted, hemitted, rfl⟩ := map_eq_ok_iff.mp htext
  obtain ⟨hfaults, hbalanced, rfl⟩ := emit_ok tracks_start List.drop_zero hemitted
  exact ⟨fun k => hfaults k (Nat.zero_le k), hbalanced, rfl⟩

theorem process_eq_error {defines : Defines} {source : String} {error : Error}
    (h : process defines source = .error error) :
    (∃ k, Fault (.build defines) (Template.lines source.toList) k error ∧
        ∀ m < k, ∀ e, ¬ Fault (.build defines) (Template.lines source.toList) m e) ∨
      ((∀ k e, ¬ Fault (.build defines) (Template.lines source.toList) k e) ∧
        ∃ i, (unclosed (Template.lines source.toList)).head? = some i ∧
          error = .unclosed (unclosed (Template.lines source.toList)).length (i + 1)) := by
  have hemit := map_eq_error_iff.mp (map_eq_error_iff.mp h)
  rcases emit_error tracks_start List.drop_zero hemit with ⟨k, hk, hfirst⟩ | ⟨hnone, hend⟩
  · exact .inl ⟨k, hk, fun m => hfirst m (Nat.zero_le m)⟩
  · exact .inr ⟨fun k => hnone k (Nat.zero_le k), hend⟩

theorem unclosed_eq_nil_of_balanced (h : Balanced (marks lines)) : unclosed lines = [] :=
  unclosed_eq_reverse (.balanced h)

/-- Processing succeeds exactly when the block markers are balanced, every opening condition has a
value, and so has every visible inline condition. The output is then made of the visible lines. -/
theorem process_eq_ok_iff (defines : Defines) (source output : String) :
    let context := Context.build defines
    let lines := source.toList.splitOn '\n'
    process defines source = .ok output ↔
      Balanced (marks lines) ∧
      (∀ (j : Nat) (condition : List Char),
        (lines[j]?).map Directive.ofLine = some (.opening condition) →
          ∃ value, Condition.test context condition = .ok value) ∧
      (∀ (j : Nat) (conditional : InlineConditional),
        (lines[j]?).map Directive.ofLine = some (.inline conditional) →
          Visible context lines j →
            ∃ value, Condition.test context conditional.condition = .ok value) ∧
      output = String.ofList (List.intercalate ['\n'] (visibleLines context lines)) := by
  intro context lines
  constructor
  · intro h
    obtain ⟨hfaults, hbalanced, houtput⟩ := process_eq_ok h
    refine ⟨hbalanced, ?_, ?_, houtput⟩
    · intro j condition hj
      obtain ⟨line, hline, hd⟩ := Option.map_eq_some_iff.mp hj
      cases ht : Condition.test context condition with
      | ok value => exact ⟨value, rfl⟩
      | error cause => exact (hfaults j _ (.opening hline hd ht)).elim
    · intro j conditional hj hvisible
      obtain ⟨line, hline, hd⟩ := Option.map_eq_some_iff.mp hj
      cases ht : Condition.test context conditional.condition with
      | ok value => exact ⟨value, rfl⟩
      | error cause => exact (hfaults j _ (.inline hline hd hvisible ht)).elim
  · rintro ⟨hbalanced, hopening, hinline, houtput⟩
    -- An error would have to be a fault, which the conditions exclude, or an unclosed region.
    cases h : process defines source with
    | ok text =>
      obtain ⟨-, -, htext⟩ := process_eq_ok h
      exact congrArg Except.ok (htext.trans houtput.symm)
    | error error =>
      exfalso
      rcases process_eq_error h with ⟨k, hfault, -⟩ | ⟨-, i, hi, -⟩
      · change Fault context lines k error at hfault
        cases hfault with
        | opening hline hd ht =>
          obtain ⟨value, hvalue⟩ := hopening k _ (by rw [hline, Option.map_some, hd])
          rw [ht] at hvalue
          cases hvalue
        | closing hline hd hnone =>
          obtain ⟨i, hi⟩ := hbalanced.exists_encloses (k := k)
            (by rw [getElem?_marks hline, hd, Directive.mark])
          exact hnone i hi
        | inline hline hd hvisible ht =>
          obtain ⟨value, hvalue⟩ := hinline k _ (by rw [hline, Option.map_some, hd]) hvisible
          rw [ht] at hvalue
          cases hvalue
      · have hnil : unclosed lines = [] := unclosed_eq_nil_of_balanced hbalanced
        cases hnil ▸ hi

/-- Processing fails exactly with the first fault or, if there is none, with the number of regions
that are left open and the line of the first of them. Nothing but nesting and evaluation fails. -/
theorem process_eq_error_iff (defines : Defines) (source : String) (error : Error) :
    let context := Context.build defines
    let lines := source.toList.splitOn '\n'
    (process defines source = .error error ↔
      (∃ k, Fault context lines k error ∧ ∀ m < k, ∀ e, ¬ Fault context lines m e) ∨
      ((∀ k e, ¬ Fault context lines k e) ∧ ∃ i, (unclosed lines).head? = some i ∧
        error = .unclosed (unclosed lines).length (i + 1))) ∧
    (process defines source = .error error →
      error.kind = .nesting ∨ error.kind = .evaluation) := by
  intro context lines
  refine ⟨⟨process_eq_error, ?_⟩, ?_⟩
  · intro hcause
    cases h : process defines source with
    | ok text =>
      exfalso
      obtain ⟨hfaults, hbalanced, -⟩ := process_eq_ok h
      rcases hcause with ⟨k, hfault, -⟩ | ⟨-, i, hi, -⟩
      · exact hfaults k _ hfault
      · have hnil : unclosed lines = [] := unclosed_eq_nil_of_balanced hbalanced
        cases hnil ▸ hi
    | error error' =>
      congr 1
      rcases process_eq_error h with ⟨k', hfault', hfirst'⟩ | ⟨hnone', i', hi', rfl⟩
      · rcases hcause with ⟨k, hfault, hfirst⟩ | ⟨hnone, -⟩
        · -- Both lines are the first with a fault.
          have hle : k ≤ k' := Nat.le_of_not_lt fun hlt => hfirst k' hlt _ hfault'
          have hge : k' ≤ k := Nat.le_of_not_lt fun hlt => hfirst' k hlt _ hfault
          obtain rfl := Nat.le_antisymm hle hge
          exact hfault'.unique hfault
        · exact (hnone k' _ hfault').elim
      · rcases hcause with ⟨k, hfault, -⟩ | ⟨-, i, hi, rfl⟩
        · exact (hnone' k _ hfault).elim
        · rw [Option.some.inj (hi'.symm.trans hi)]
          rfl
  · intro h
    rcases process_eq_error h with ⟨k, hfault, -⟩ | ⟨-, i, -, rfl⟩
    · cases hfault with
      | opening => exact .inr rfl
      | closing => exact .inl rfl
      | inline => exact .inr rfl
    · exact .inl rfl

end EdgeTemplate.Template
