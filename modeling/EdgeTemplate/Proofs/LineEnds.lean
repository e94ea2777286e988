import EdgeTemplate.Proofs.Concatenation
import EdgeTemplate.Proofs.Rewriting

/-!
# Line ends

A line feed ends a line, so a carriage return before it is part of the line. It is a blank, and
blanks at the end of a line change nothing about the directive that the line is: a block marker
stays the same, and an inline conditional only gets a longer text after its placeholder. A template
with a carriage return before each line feed is therefore processed like the one without, and its
output has the carriage returns too. Only the last line has no line feed: when it is a closing
marker, the last line of the output is one that had a line feed, and it keeps its carriage return.
-/
namespace EdgeTemplate

open Outcome

/-! ### Blanks at the end of a line -/

namespace Text

variable {blanks : List Char}

/-- What has no blanks in it is not found among the blanks behind a text. -/
theorem isPrefixOf?_append_blanks (part : List Char) (hpart : part.any isBlank = false)
    (h : Blank blanks) (cs : List Char) :
    part.isPrefixOf? (cs ++ blanks) = (part.isPrefixOf? cs).map (· ++ blanks) := by
  induction part generalizing cs with
  | nil => rfl
  | cons c part ih =>
    rw [List.any_cons, Bool.or_eq_false_iff] at hpart
    obtain ⟨hc, hpart⟩ := hpart
    cases cs with
    | nil =>
      cases blanks with
      | nil => rfl
      | cons b blanks =>
        have hne : c ≠ b := by
          rintro rfl
          exact not_mem_of_blank hc h (by simp)
        simp [List.isPrefixOf?, hne]
    | cons d cs =>
      by_cases hcd : c = d
      · simp [List.isPrefixOf?, hcd, ih hpart]
      · simp [List.isPrefixOf?, hcd]

theorem dropKeyword?_append_blanks (keyword : List Char)
    (hkeyword : keyword.any isBlank = false) (h : Blank blanks) (cs : List Char) :
    dropKeyword? keyword (cs ++ blanks) = (dropKeyword? keyword cs).map (· ++ blanks) := by
  have hends : ∀ rest, (!(rest ++ blanks).head?.any isWordChar) = !rest.head?.any isWordChar := by
    intro rest
    cases rest with
    | cons c rest => rfl
    | nil =>
      cases blanks with
      | nil => rfl
      | cons b blanks =>
        have hb : isWordChar b = false := by
          by_contra hword
          have hblank := isBlank_eq_false (toNat_of_isWordChar (by simpa using hword))
          exact not_mem_of_blank hblank h (by simp)
        simp [hb]
  simp only [dropKeyword?, isPrefixOf?_append_blanks keyword hkeyword h, Option.filter_map,
    Function.comp_def, hends]

/-- A reader that starts at the first character that is not blank, and that finds nothing at the
end of a text, may go on reading from a text with blanks behind it. -/
theorem skipBlanks_append_blanks {α : Type} {read : List Char → Option α} {extend : α → α}
    (hnil : read [] = none) (h : Blank blanks)
    (hread : ∀ cs, read (cs ++ blanks) = (read cs).map extend) (cs : List Char) :
    read (skipBlanks (cs ++ blanks)) = (read (skipBlanks cs)).map extend := by
  by_cases hcs : Blank cs
  · rw [skipBlanks_append hcs, skipBlanks_eq_nil_iff.mpr h, skipBlanks_eq_nil_iff.mpr hcs, hnil]
    rfl
  · rw [skipBlanks_append_right hcs, hread]

end Text

namespace InlineConditional

open Text

variable {blanks : List Char}

/-- The inline conditional with more text after its placeholder. -/
def trail (blanks : List Char) (conditional : InlineConditional) : InlineConditional :=
  { conditional with after := conditional.after ++ blanks }

theorem fill_trail (blanks : List Char) (conditional : InlineConditional) (value : Bool) :
    (conditional.trail blanks).fill value = conditional.fill value ++ blanks := by
  simp [fill, trail]

theorem splitAtClose_blank (h : Blank blanks) : splitAtClose blanks = none := by
  induction blanks with
  | nil => rfl
  | cons b blanks ih =>
    obtain ⟨hb, hblanks⟩ := List.forall_mem_cons.mp h
    have hne : b ≠ ')' := by
      rintro rfl
      exact absurd hb (by decide)
    simp [splitAtClose, hne, ih hblanks]

theorem splitAtClose_append_blanks (h : Blank blanks) (cs : List Char) :
    splitAtClose (cs ++ blanks) =
      (splitAtClose cs).map fun parts => (parts.1, parts.2 ++ blanks) := by
  induction cs with
  | nil => exact splitAtClose_blank h
  | cons c cs ih =>
    have hclose : (if c = ')' then ['*', '/'].isPrefixOf? (skipBlanks (cs ++ blanks)) else none) =
        (if c = ')' then ['*', '/'].isPrefixOf? (skipBlanks cs) else none).map (· ++ blanks) := by
      split
      · exact skipBlanks_append_blanks rfl h (isPrefixOf?_append_blanks _ (by decide) h) cs
      · rfl
    rw [List.cons_append, splitAtClose, hclose, ih, splitAtClose]
    cases if c = ')' then ['*', '/'].isPrefixOf? (skipBlanks cs) else none with
    | some rest => rfl
    | none => cases splitAtClose cs <;> rfl

theorem afterPlaceholder?_append_blanks (h : Blank blanks) (cs : List Char) :
    afterPlaceholder? (cs ++ blanks) = (afterPlaceholder? cs).map (· ++ blanks) := by
  have hclose : ∀ rest, ((skipBlanks (rest ++ blanks)).head? == some ')') =
      ((skipBlanks rest).head? == some ')') := by
    intro rest
    by_cases hrest : Blank rest
    · rw [skipBlanks_append hrest, skipBlanks_eq_nil_iff.mpr h, skipBlanks_eq_nil_iff.mpr hrest]
    · rw [skipBlanks_append_right hrest, List.head?_append]
      cases hs : skipBlanks rest with
      | nil => exact (hrest (skipBlanks_eq_nil_iff.mp hs)).elim
      | cons c rest => rfl
  have hplaceholder := skipBlanks_append_blanks rfl h
    (dropKeyword?_append_blanks (boolWord false) (by decide) h) cs
  simp only [afterPlaceholder?, hplaceholder, Option.filter_map, Function.comp_def, hclose]

theorem comment?_append_blanks (h : Blank blanks) (cs : List Char) :
    comment? (cs ++ blanks) = (comment? cs).map fun parts => (parts.1, parts.2 ++ blanks) := by
  have hmarker := isPrefixOf?_append_blanks ['/', '*'] (by decide) h
  have hbracket := skipBlanks_append_blanks rfl h
    (isPrefixOf?_append_blanks ['@', 'i', 'f'] (by decide) h)
  have hinner := skipBlanks_append_blanks rfl h
    (isPrefixOf?_append_blanks ['('] (by decide) h)
  simp only [comment?, Option.bind_eq_bind, hmarker, Option.bind_map, Function.comp_def, hbracket,
    hinner, splitAtClose_append_blanks h, Option.map_bind]

theorem atStart?_append_blanks (h : Blank blanks) (cs : List Char) :
    atStart? (cs ++ blanks) = (atStart? cs).map (trail blanks) := by
  have htest := dropKeyword?_append_blanks ['i', 'f'] (by decide) h cs
  have hinner := skipBlanks_append_blanks rfl h
    (isPrefixOf?_append_blanks ['('] (by decide) h)
  have hcomment := skipBlanks_append_blanks rfl h (comment?_append_blanks h)
  simp only [atStart?, Option.bind_eq_bind, htest, Option.bind_map, Function.comp_def, hinner,
    hcomment, afterPlaceholder?_append_blanks h, Option.map_bind, Option.map_some]
  -- The parts agree except where the text before the comment is measured: there it goes on.
  refine Option.bind_congr fun test _ => Option.bind_congr fun inner hinner =>
    Option.bind_congr fun parts hparts => ?_
  have htest : ¬ Blank test := by
    intro hblank
    rw [skipBlanks_eq_nil_iff.mpr hblank] at hinner
    cases hinner
  have hinner : ¬ Blank inner := by
    intro hblank
    rw [skipBlanks_eq_nil_iff.mpr hblank] at hparts
    cases hparts
  rw [leadingBlanks_append_right htest, leadingBlanks_append_right hinner]
  rfl

theorem search_blank (h : Blank blanks) (inWord : Bool) : search inWord blanks = none := by
  induction blanks generalizing inWord with
  | nil => rfl
  | cons b blanks ih =>
    obtain ⟨hb, hblanks⟩ := List.forall_mem_cons.mp h
    have hne : 'i' ≠ b := by
      rintro rfl
      exact absurd hb (by decide)
    have hstart : atStart? (b :: blanks) = none := by
      simp [atStart?, dropKeyword?, List.isPrefixOf?, hne]
    simp [search, hstart, ih hblanks]

theorem search_append_blanks (h : Blank blanks) (inWord : Bool) (cs : List Char) :
    search inWord (cs ++ blanks) = (search inWord cs).map (trail blanks) := by
  induction cs generalizing inWord with
  | nil => exact search_blank h inWord
  | cons c cs ih =>
    have hstart : (if inWord then none else atStart? (c :: cs ++ blanks)) =
        (if inWord then none else atStart? (c :: cs)).map (trail blanks) := by
      split
      · rfl
      · exact atStart?_append_blanks h (c :: cs)
    rw [List.cons_append] at hstart
    rw [List.cons_append, search, hstart, ih, search]
    cases if inWord then none else atStart? (c :: cs) with
    | some found => rfl
    | none => cases search (isWordChar c) cs <;> rfl

end InlineConditional

namespace Directive

def trail (blanks : List Char) : Directive → Directive
  | inline conditional => .inline (conditional.trail blanks)
  | directive => directive

theorem ofLine_append_blanks {blanks : List Char} (h : Text.Blank blanks) (line : List Char) :
    ofLine (line ++ blanks) = (ofLine line).trail blanks := by
  have htrim : Text.trim (line ++ blanks) = Text.trim line :=
    Text.trim_append (List.forall_mem_nil _) h line
  have hmarker : BlockMarker.ofLine? (line ++ blanks) = BlockMarker.ofLine? line := by
    simp only [BlockMarker.ofLine?, BlockMarker.commentBody?, htrim]
  have hinline := InlineConditional.search_append_blanks h false line
  simp only [ofLine, hmarker, InlineConditional.ofLine?, hinline]
  cases BlockMarker.ofLine? line with
  | some marker => cases marker <;> rfl
  | none => cases InlineConditional.search false line <;> rfl

end Directive

/-! ### Runs -/

theorem Nesting.regions_eq_nil_of_finish {nesting : Nesting} (h : nesting.finish = .ok ()) :
    nesting.regions = [] := by
  unfold finish at h
  split at h
  · rename_i hlast
    exact List.getLast?_eq_none_iff.mp hlast
  · cases h

namespace Template

variable {context : Context} {blanks : List Char}

theorem step_append_blanks (h : Text.Blank blanks) (nesting : Nesting) (number : Nat)
    (line : List Char) :
    step context nesting number (line ++ blanks) =
      Prod.map id (Option.map (· ++ blanks)) <$> step context nesting number line := by
  unfold step
  rw [Directive.ofLine_append_blanks h]
  cases Directive.ofLine line with
  | opening condition =>
    simp only [Directive.trail, map_bind, map_pure, Prod.map, Option.map_none, id]
  | closing => simp only [Directive.trail, map_bind, map_pure, Prod.map, Option.map_none, id]
  | inline conditional =>
    have hcondition : (conditional.trail blanks).condition = conditional.condition := rfl
    simp only [Directive.trail, hcondition, InlineConditional.fill_trail]
    split
    · rfl
    · simp only [map_bind, map_pure, Prod.map, Option.map_some, id]
  | text => cases hs : nesting.skipping <;> rfl

theorem advance_map_append_blanks (h : Text.Blank blanks) (nesting : Nesting) (number : Nat)
    (lines : List (List Char)) :
    advance context nesting number (lines.map (· ++ blanks)) =
      Prod.map id (List.map (· ++ blanks)) <$> advance context nesting number lines := by
  induction lines generalizing nesting number with
  | nil => rfl
  | cons line lines ih =>
    have hemitted : ∀ emitted : Option (List Char),
        (emitted.map (· ++ blanks)).toList = emitted.toList.map (· ++ blanks) := by
      intro emitted
      cases emitted <;> rfl
    simp only [List.map_cons, advance, step_append_blanks h, ih, bind_map_left, map_bind, map_pure,
      Prod.map, id, hemitted, List.map_append]

/-- The last line of a template that is processed is emitted unless it closes a region. -/
theorem emit_last {front rest : List (List Char)} {stack : List Nat} {number : Nat}
    {last : List Char} (h : emit context (nestingOf context front stack) number [last] = .ok rest) :
    if Directive.ofLine last = .closing then rest = [] else ∃ line, rest = [line] := by
  obtain ⟨⟨next, emitted⟩, hstep, h⟩ := bind_eq_ok_iff.mp h
  obtain ⟨others, hothers, h⟩ := bind_eq_ok_iff.mp h
  obtain ⟨_, hfinish, hothers⟩ := bind_eq_ok_iff.mp hothers
  obtain rfl := Except.ok.inj hothers
  obtain rfl := Except.ok.inj h
  -- Nothing is open after the last line, so it is not skipped if the nesting has not changed.
  have hclosed : next.regions = [] := Nesting.regions_eq_nil_of_finish hfinish
  have hvisible : next = nestingOf context front stack →
      (nestingOf context front stack).skipping = false := by
    rintro rfl
    have hdepth : (nestingOf context front stack).depth = 0 := by rw [Nesting.depth, hclosed]; rfl
    rw [depth_nestingOf] at hdepth
    rw [List.length_eq_zero_iff.mp hdepth]
    rfl
  unfold step at hstep
  cases hd : Directive.ofLine last with
  | opening condition =>
    simp only [hd] at hstep
    obtain ⟨value, -, hnext⟩ := bind_eq_ok_iff.mp hstep
    obtain ⟨rfl, -⟩ := Prod.mk.inj (Except.ok.inj hnext)
    cases hclosed
  | closing =>
    simp only [hd] at hstep
    obtain ⟨value, -, hnext⟩ := bind_eq_ok_iff.mp hstep
    obtain ⟨-, rfl⟩ := Prod.mk.inj (Except.ok.inj hnext)
    simp
  | inline conditional =>
    simp only [hd] at hstep
    split at hstep
    · rename_i hskipping
      obtain ⟨rfl, -⟩ := Prod.mk.inj (Except.ok.inj hstep)
      rw [hvisible rfl] at hskipping
      cases hskipping
    · obtain ⟨value, -, hnext⟩ := bind_eq_ok_iff.mp hstep
      obtain ⟨-, rfl⟩ := Prod.mk.inj (Except.ok.inj hnext)
      simp
  | text =>
    simp only [hd] at hstep
    obtain ⟨rfl, rfl⟩ := Prod.mk.inj (Except.ok.inj hstep)
    simp [hvisible rfl]

/-- All lines but the last have blanks at their end. They are processed as without them, and so is
the last line. -/
theorem related_emit_blanks (context : Context) (h : Text.Blank blanks)
    (front : List (List Char)) (last : List Char) :
    Related Eq
      (fun output output' => ∃ emitted rest, output = emitted ++ rest ∧
        output' = emitted.map (· ++ blanks) ++ rest ∧
        if Directive.ofLine last = .closing then rest = [] else ∃ line, rest = [line])
      (emit context .start 1 (front ++ [last]))
      (emit context .start 1 (front.map (· ++ blanks) ++ [last])) := by
  rw [emit_append, emit_append, advance_map_append_blanks h, bind_map_left, List.length_map]
  cases hadvance : advance context .start 1 front with
  | error error => exact .error rfl
  | ok result =>
    obtain ⟨next, emitted⟩ := result
    obtain ⟨stack, -, rfl⟩ := tracks_advance tracks_start List.drop_zero hadvance
    change Related _ _
      (emit context (nestingOf context front stack) _ [last] >>= _)
      (emit context (nestingOf context front stack) _ [last] >>= _)
    cases hlast : emit context (nestingOf context front stack) (1 + front.length) [last] with
    | error error => exact .error rfl
    | ok rest => exact .ok ⟨emitted, rest, rfl, rfl, emit_last hlast⟩

/-! ### Carriage returns -/

/-- The text with a carriage return before every line feed. -/
def withReturns (text : List Char) : List Char :=
  text.flatMap fun c => if c = '\n' then ['\r', '\n'] else [c]

def crlf (text : String) : String :=
  String.ofList (withReturns text.toList)

theorem withReturns_of_not_mem {line : List Char} (h : '\n' ∉ line) : withReturns line = line := by
  induction line with
  | nil => rfl
  | cons c line ih =>
    obtain ⟨hc, hline⟩ := not_or.mp (List.mem_cons.not.mp h)
    have hrest := ih hline
    rw [withReturns] at hrest
    simp [withReturns, Ne.symm hc, hrest]

theorem withReturns_unlines {front : List (List Char)} {last : List Char}
    (h : ∀ line ∈ front ++ [last], '\n' ∉ line) :
    withReturns (unlines (front ++ [last])) = unlines (front.map (· ++ ['\r']) ++ [last]) := by
  induction front with
  | nil => simpa [unlines] using withReturns_of_not_mem (h last (by simp))
  | cons line front ih =>
    have hline : withReturns line = line := withReturns_of_not_mem (h line (by simp))
    have hrest := ih fun other hother => h other (List.mem_cons_of_mem _ hother)
    have hunlines : ∀ (first : List Char) (others : List (List Char)), others ≠ [] →
        unlines (first :: others) = first ++ '\n' :: unlines others := by
      intro first others hothers
      simpa [unlines] using unlines_append (List.cons_ne_nil first []) hothers
    rw [List.cons_append, hunlines _ _ (by simp), List.map_cons, List.cons_append,
      hunlines _ _ (by simp), ← hrest]
    rw [withReturns] at hline
    simp [withReturns, hline]

theorem lines_withReturns {text last : List Char} {front : List (List Char)}
    (h : lines text = front ++ [last]) :
    lines (withReturns text) = front.map (· ++ ['\r']) ++ [last] := by
  have hfree : ∀ line ∈ front ++ [last], '\n' ∉ line := by
    intro line hline
    rw [← h] at hline
    exact Text.not_mem_of_mem_splitOn hline
  have htext : text = unlines (front ++ [last]) := by
    rw [← h]
    exact (List.intercalate_splitOn '\n').symm
  have hfree' : ∀ line ∈ front.map (· ++ ['\r']) ++ [last], '\n' ∉ line := by
    intro line hline
    rcases List.mem_append.mp hline with hline | hline
    · obtain ⟨original, horiginal, rfl⟩ := List.mem_map.mp hline
      simp [hfree original (by simp [horiginal])]
    · exact hfree line (List.mem_append_right _ hline)
  rw [htext, withReturns_unlines hfree, lines, unlines,
    List.splitOn_intercalate '\n' hfree' (by simp)]

theorem unlines_concat_append (front : List (List Char)) (last tail : List Char) :
    unlines (front ++ [last ++ tail]) = unlines (front ++ [last]) ++ tail := by
  by_cases hfront : front = []
  · simp [hfront, unlines]
  · rw [unlines_append hfront (by simp), unlines_append hfront (by simp)]
    simp [unlines]

theorem unlines_map_returns {emitted rest : List (List Char)} {closed : Prop} [Decidable closed]
    (hfree : ∀ line ∈ emitted ++ rest, '\n' ∉ line)
    (hrest : if closed then rest = [] else ∃ line, rest = [line]) :
    unlines (emitted.map (· ++ ['\r']) ++ rest) =
      if closed ∧ emitted ++ rest ≠ [] then withReturns (unlines (emitted ++ rest)) ++ ['\r']
      else withReturns (unlines (emitted ++ rest)) := by
  by_cases hclosed : closed
  · rw [if_pos hclosed] at hrest
    obtain rfl := hrest
    simp only [List.append_nil] at hfree ⊢
    rcases List.eq_nil_or_concat emitted with rfl | ⟨front, last, rfl⟩
    · simp [unlines, withReturns]
    · rw [List.concat_eq_append] at hfree ⊢
      rw [if_pos ⟨hclosed, by simp⟩, withReturns_unlines hfree, ← unlines_concat_append]
      simp
  · rw [if_neg hclosed] at hrest
    obtain ⟨line, rfl⟩ := hrest
    rw [if_neg fun h => hclosed h.1, withReturns_unlines hfree]

theorem related_emit_withReturns (context : Context) (text : List Char) :
    Related Eq
      (fun output output' => output = visibleLines context (lines text) ∧
        unlines output' =
          if (lines text).getLast?.map Directive.ofLine = some .closing ∧ output ≠ []
          then withReturns (unlines output) ++ ['\r'] else withReturns (unlines output))
      (emit context .start 1 (lines text)) (emit context .start 1 (lines (withReturns text))) := by
  have hne : lines text ≠ [] := List.splitOn_ne_nil '\n' text
  obtain ⟨front, last, hlines⟩ : ∃ front last, lines text = front ++ [last] :=
    ⟨_, _, (List.dropLast_append_getLast hne).symm⟩
  have hclosing : (lines text).getLast?.map Directive.ofLine = some .closing ↔
      Directive.ofLine last = .closing := by
    simp [hlines]
  have hblank : Text.Blank ['\r'] := by simp [Text.Blank, Text.isBlank, Text.blankRanges]
  have hrun := related_emit_blanks context hblank front last
  rw [← hlines, ← lines_withReturns hlines] at hrun
  rcases hrun.eq_or_eq with ⟨_, _, hplain, hreturns, emitted, rest, rfl, rfl, hrest⟩ |
    ⟨error, _, hplain, hreturns, rfl⟩
  · have hvisible : emitted ++ rest = visibleLines context (lines text) :=
      (emit_ok tracks_start List.drop_zero hplain).2.2
    have hfree : ∀ line ∈ emitted ++ rest, '\n' ∉ line := by
      rw [hvisible]
      exact fun _ => newline_not_mem_visibleLines
    rw [hplain, hreturns]
    refine .ok ⟨hvisible, ?_⟩
    simp only [hclosing]
    exact unlines_map_returns hfree hrest
  · rw [hplain, hreturns]
    exact .error rfl

/-- A template with a carriage return before each line feed fails as the one without, and otherwise
its output has the carriage returns too. If the last line is a closing marker, the output ends with
a line that had a line feed, and so with a carriage return. -/
theorem process_crlf (defines : Defines) (source : String) :
    let context := Context.build defines
    let lines := Template.lines source.toList
    (∀ error, process defines (crlf source) = .error error ↔
      process defines source = .error error) ∧
    ∀ output, process defines source = .ok output →
      process defines (crlf source) = .ok
        (if lines.getLast?.map Directive.ofLine = some .closing ∧ visibleLines context lines ≠ []
          then crlf output ++ "\r" else crlf output) := by
  intro context lines
  rw [process_eq_map, process_eq_map, crlf, String.toList_ofList]
  rcases (related_emit_withReturns context source.toList).eq_or_eq with
    ⟨emitted, _, hplain, hreturns, hvisible, htext⟩ | ⟨error, _, hplain, hreturns, rfl⟩
  · rw [hplain, hreturns]
    refine ⟨fun error => ⟨by rintro ⟨⟩, by rintro ⟨⟩⟩, ?_⟩
    rintro output ⟨⟩
    change Except.ok (String.ofList (unlines _)) = _
    rw [htext, hvisible]
    congr 1
    split
    · rw [crlf, String.toList_ofList, String.ofList_append]
    · rw [crlf, String.toList_ofList]
  · rw [hplain, hreturns]
    exact ⟨fun _ => Iff.rfl, fun output houtput => by cases houtput⟩

example : process .empty (crlf "a\n/* @if(true) */\nb\n/* @endif */") = .ok "a\r\nb\r" := by
  simp only [process, crlf, String.toList_ofList, String.reduceToList]
  rfl

end Template

end EdgeTemplate
