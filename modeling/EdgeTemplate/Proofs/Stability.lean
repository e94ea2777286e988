import EdgeTemplate.Proofs.Concatenation
import EdgeTemplate.Proofs.Rewriting

/-!
# Finished texts

A text whose lines are all plain is finished: processing hands it back, whatever is defined. The
visible lines of a template without inline conditionals are plain lines that come out as they are,
and joining lines and splitting the result again gives the same lines, so that the output of such a
template is finished. An output without lines is one empty line when it is read again, and that line
is plain too.
-/
namespace EdgeTemplate.Template

variable {context : Context}

theorem step_text {line : List Char} (h : Directive.ofLine line = .text) (number : Nat) :
    step context .start number line = .ok (.start, some line) := by
  rw [step, h]
  rfl

theorem emit_text {lines : List (List Char)} (h : ∀ line ∈ lines, Directive.ofLine line = .text)
    (number : Nat) : emit context .start number lines = .ok lines := by
  induction lines generalizing number with
  | nil => rfl
  | cons line lines ih =>
    obtain ⟨hline, hlines⟩ := List.forall_mem_cons.mp h
    rw [emit, step_text hline]
    change (do return [line] ++ (← emit context .start (number + 1) lines)) = _
    rw [ih hlines]
    rfl

theorem process_text (defines : Defines) {text : String}
    (h : ∀ line ∈ lines text.toList, Directive.ofLine line = .text) :
    process defines text = .ok text := by
  have hjoined : unlines (lines text.toList) = text.toList := List.intercalate_splitOn '\n'
  rw [process_eq_map, emit_text h]
  change Except.ok (String.ofList (unlines (lines text.toList))) = _
  rw [hjoined, String.ofList_toList]

theorem text_of_mem_lines_output {defines : Defines} {source output : String}
    (hsource : ∀ line ∈ lines source.toList, ∀ conditional,
      Directive.ofLine line ≠ .inline conditional)
    (h : process defines source = .ok output) :
    ∀ line ∈ lines output.toList, Directive.ofLine line = .text := by
  rw [forall_mem_lines_output (by decide) h]
  intro line hline
  obtain ⟨j, original, horiginal, -, hrendered⟩ := mem_visibleLines_iff.mp hline
  rcases rendered_cases hrendered with ⟨conditional, hd, -⟩ | ⟨hd, rfl⟩
  · exact (hsource original (List.mem_of_getElem? horiginal) conditional hd).elim
  · exact hd

/-- The output of a template without inline conditionals is finished: processing it again, with any
defines, changes nothing. -/
theorem process_output_eq_self (defines : Defines) (source output : String)
    (hsource : ∀ line ∈ lines source.toList, ∀ conditional,
      Directive.ofLine line ≠ .inline conditional)
    (h : process defines source = .ok output) (defines' : Defines) :
    process defines' output = .ok output :=
  process_text defines' (text_of_mem_lines_output hsource h)

/-- A template of which one line is left or none, as the defines say, and either output is finished
for the other defines. -/
theorem process_output_eq_self_region :
    process (.ofList [("a", .bool false)]) "b" = .ok "b" ∧
      process (.ofList [("a", .bool true)]) "" = .ok "" := by
  have hkept : process (.ofList [("a", .bool true)]) "/* @if(a) */\nb\n/* @endif */" = .ok "b" := by
    simp only [process, String.reduceToList]
    rfl
  have hskipped : process (.ofList [("a", .bool false)]) "/* @if(a) */\nb\n/* @endif */" = .ok "" := by
    simp only [process, String.reduceToList]
    rfl
  have hsource : ∀ line ∈ lines "/* @if(a) */\nb\n/* @endif */".toList, ∀ conditional,
      Directive.ofLine line ≠ .inline conditional := by
    intro line hline conditional hd
    have hmem := List.mem_map_of_mem (f := Directive.ofLine) hline
    have hkinds : (lines "/* @if(a) */\nb\n/* @endif */".toList).map Directive.ofLine =
        [.opening ['a'], .text, .closing] := by decide
    rw [hkinds, hd] at hmem
    simp at hmem
  exact ⟨process_output_eq_self _ _ _ hsource hkept _,
    process_output_eq_self _ _ _ hsource hskipped _⟩

end EdgeTemplate.Template
