import EdgeTemplate.Proofs.Markers
import EdgeTemplate.Proofs.Processing

/-!
# Rewritten lines

The text around an inline conditional is kept as it stands, and in it a comment may have been opened
that the inline conditional is part of. Filling the inline conditional in then completes a block
marker. This is the only way in which a line of the output can be a marker: it opens a region, and
it comes from a visible inline conditional that stands inside a marker.
-/
namespace EdgeTemplate

namespace Text

variable {c : Char} {xs ys zs ws : List Char}

/-- Two ways to split a text, compared at the first occurrence of a character. -/
theorem exists_eq_append_of_mem_left (h : xs ++ ys = zs ++ c :: ws) (hmem : c ∈ xs)
    (hfirst : c ∉ zs) : ∃ middle, xs = zs ++ c :: middle ∧ ws = middle ++ ys := by
  rcases List.append_eq_append_iff.mp h with ⟨middle, rfl, -⟩ | ⟨middle, rfl, hws⟩
  · exact (hfirst (List.mem_append_left _ hmem)).elim
  · cases middle with
    | nil => exact (hfirst (by simpa using hmem)).elim
    | cons d middle =>
      obtain ⟨rfl, rfl⟩ := List.cons.inj hws
      exact ⟨middle, rfl, rfl⟩

/-- Two ways to split a text, compared at the last occurrence of a character. -/
theorem exists_eq_append_of_mem_right (h : xs ++ ys = zs ++ c :: ws) (hmem : c ∈ ys)
    (hlast : c ∉ ws) : ∃ middle, ys = middle ++ c :: ws ∧ zs = xs ++ middle := by
  rcases List.append_eq_append_iff.mp h with ⟨middle, rfl, rfl⟩ | ⟨middle, rfl, hws⟩
  · exact ⟨middle, rfl, rfl⟩
  · cases middle with
    | nil => exact ⟨[], by simpa using hws.symm, by simp⟩
    | cons d middle =>
      obtain ⟨rfl, rfl⟩ := List.cons.inj hws
      exact (hlast (List.mem_append_right _ hmem)).elim

theorem pair_infix_append_cons {a b : Char} (ha : c ≠ a) (hb : c ≠ b) :
    [a, b] <:+: xs ++ c :: ys ↔ [a, b] <:+: xs ∨ [a, b] <:+: ys := by
  induction xs with
  | nil => simp [List.infix_cons_iff, List.cons_prefix_cons, Ne.symm ha]
  | cons x xs ih =>
    have hhead : [b] <+: xs ++ c :: ys ↔ [b] <+: xs := by
      cases xs with
      | nil => simp [List.cons_prefix_cons, Ne.symm hb]
      | cons y xs => simp [List.cons_prefix_cons]
    simp only [List.cons_append, List.infix_cons_iff, List.cons_prefix_cons, hhead, ih, or_assoc]

theorem pair_infix_append_left {a b : Char} (ha : a ∉ xs) :
    [a, b] <:+: xs ++ ys ↔ [a, b] <:+: ys := by
  induction xs with
  | nil => rfl
  | cons x xs ih =>
    simp only [List.mem_cons, not_or] at ha
    simp [List.infix_cons_iff, List.cons_prefix_cons, ha.1, ih ha.2]

end Text

namespace InlineConditional

open Text

/-- What precedes the placeholder starts a comment with an opening inside. -/
def OpensMarker (before : List Char) : Prop :=
  ∃ left gap₁ gap₂ inner, Blank left ∧ Blank gap₁ ∧ Blank gap₂ ∧
    before = left ++ ['/', '*'] ++ gap₁ ++ ['@', 'i', 'f'] ++ gap₂ ++ '(' :: inner ∧
    ¬ ['*', '/'] <:+: inner

/-- What follows the placeholder ends that comment, and the line with it. -/
def ClosesMarker (after : List Char) : Prop :=
  ∃ inner gap right, Blank gap ∧ Blank right ∧
    after = inner ++ ')' :: (gap ++ ['*', '/'] ++ right) ∧ ¬ ['*', '/'] <:+: inner

/-- The inline conditional stands between the parentheses of an opening marker. -/
def InsideMarker (conditional : InlineConditional) : Prop :=
  OpensMarker conditional.before ∧ ClosesMarker conditional.after

variable {line : List Char} {conditional : InlineConditional}

/-! ### The parts of an inline conditional -/

theorem suffix_of_append_eq_skipBlanks {front rest cs : List Char}
    (h : front ++ rest = skipBlanks cs) : rest <:+ cs :=
  (List.suffix_append front rest).trans (h ▸ List.dropWhile_suffix _)

theorem splitAtClose_suffix {cs condition rest : List Char}
    (h : splitAtClose cs = some (condition, rest)) : rest <:+ cs := by
  induction cs generalizing condition with
  | nil => cases h
  | cons c cs ih =>
    rw [splitAtClose] at h
    split at h
    · rename_i found hfound
      obtain ⟨rfl, rfl⟩ := Prod.mk.inj (Option.some.inj h)
      split at hfound
      · have hsuffix : found <:+ cs :=
          suffix_of_append_eq_skipBlanks (List.isPrefixOf?_eq_some_iff_append_eq.mp hfound)
        exact hsuffix.trans (List.suffix_cons c cs)
      · cases hfound
    · obtain ⟨⟨inner, after⟩, hparts, heq⟩ := Option.map_eq_some_iff.mp h
      obtain ⟨-, rfl⟩ := Prod.mk.inj heq
      exact (ih hparts).trans (List.suffix_cons c cs)

theorem comment?_suffix {cs condition rest : List Char}
    (h : comment? cs = some (condition, rest)) : rest <:+ cs := by
  simp only [comment?, Option.bind_eq_bind, Option.bind_eq_some_iff,
    List.isPrefixOf?_eq_some_iff_append_eq] at h
  obtain ⟨marker, rfl, bracket, hbracket, inner, hinner, hclose⟩ := h
  have hrest : rest <:+ bracket :=
    (splitAtClose_suffix hclose).trans (suffix_of_append_eq_skipBlanks hinner)
  have hmarker : bracket <:+ marker := suffix_of_append_eq_skipBlanks hbracket
  exact (hrest.trans hmarker).trans (List.suffix_append _ _)

theorem afterPlaceholder?_suffix {cs after : List Char} (h : afterPlaceholder? cs = some after) :
    after <:+ cs ∧ ')' ∈ after := by
  rw [afterPlaceholder?, Option.filter_eq_some_iff, dropKeyword?_eq_some_iff] at h
  obtain ⟨⟨hcs, -⟩, hclose⟩ := h
  constructor
  · exact suffix_of_append_eq_skipBlanks hcs.symm
  · have hhead : (skipBlanks after).head? = some ')' := by simpa using hclose
    exact (List.dropWhile_suffix _).subset (List.mem_of_head? hhead)

/-- The parts of a line around its placeholder: they are parts of the line, the parenthesis of the
test is opened before the placeholder and closed after it. -/
structure Surrounds (conditional : InlineConditional) (line : List Char) : Prop where
  append : ∃ span, line = conditional.before ++ (span ++ conditional.after)
  opened : '(' ∈ conditional.before
  closed : ')' ∈ conditional.after

theorem surrounds_of_atStart? (h : atStart? line = some conditional) :
    conditional.Surrounds line := by
  simp only [atStart?, Option.bind_eq_bind, Option.bind_eq_some_iff, dropKeyword?_eq_some_iff,
    List.isPrefixOf?_eq_some_iff_append_eq] at h
  obtain ⟨test, ⟨rfl, -⟩, inner, hinner, ⟨condition, rest⟩, hcomment, after, hafter, h⟩ := h
  obtain rfl := Option.some.inj h
  obtain ⟨hsuffix, hclosed⟩ := afterPlaceholder?_suffix hafter
  obtain ⟨span, hspan⟩ := hsuffix.trans (comment?_suffix hcomment)
  refine ⟨⟨span, ?_⟩, by simp, hclosed⟩
  have htest :
      leadingBlanks test ++ (['('] ++ (leadingBlanks inner ++ skipBlanks inner)) = test := by
    rw [leadingBlanks_append_skipBlanks, hinner, leadingBlanks_append_skipBlanks]
  conv_lhs => rw [← htest, ← hspan]
  simp

theorem surrounds_of_search {inWord : Bool} (h : search inWord line = some conditional) :
    conditional.Surrounds line := by
  induction line generalizing inWord conditional with
  | nil => cases h
  | cons c cs ih =>
    rw [search] at h
    split at h
    · rename_i found hfound
      obtain rfl := Option.some.inj h
      split at hfound
      · cases hfound
      · exact surrounds_of_atStart? hfound
    · obtain ⟨found, hfound, rfl⟩ := Option.map_eq_some_iff.mp h
      obtain ⟨⟨span, hspan⟩, hopened, hclosed⟩ := ih hfound
      exact ⟨⟨span, by rw [hspan]; rfl⟩, List.mem_cons_of_mem _ hopened, hclosed⟩

/-! ### Filling an inline conditional in -/

/-- The inside of an opening marker ends a comment exactly where its parentheses do. -/
theorem infix_inside_iff {left gap bracketed right : List Char} (hleft : Blank left)
    (hgap : Blank gap) (hright : Blank right) :
    ['*', '/'] <:+: left ++ (['@', 'i', 'f'] ++ gap ++ ['('] ++ bracketed ++ [')'] ++ right) ↔
      ['*', '/'] <:+: bracketed := by
  have hstar : ∀ blanks, Blank blanks → '*' ∉ blanks := fun _ => not_mem_of_blank (by decide)
  have hfront : '*' ∉ left ++ ['@', 'i', 'f'] ++ gap ++ ['('] := by
    simp [hstar left hleft, hstar gap hgap]
  have hback : ¬ ['*', '/'] <:+: right := fun h => hstar right hright (h.subset (by simp))
  calc
    _ ↔ ['*', '/'] <:+:
        (left ++ ['@', 'i', 'f'] ++ gap ++ ['(']) ++ (bracketed ++ ')' :: right) := by simp
    _ ↔ ['*', '/'] <:+: bracketed ++ ')' :: right := pair_infix_append_left hfront
    _ ↔ ['*', '/'] <:+: bracketed := by
      rw [pair_infix_append_cons (by decide) (by decide)]
      simp [hback]

/-- The word that is filled in neither ends a comment nor helps to end one. -/
theorem infix_boolWord_iff (value : Bool) (front back : List Char) :
    ['*', '/'] <:+: front ++ (boolWord value ++ back) ↔
      ['*', '/'] <:+: front ∨ ['*', '/'] <:+: back := by
  cases value with
  | false =>
    rw [boolWord, List.cons_append, pair_infix_append_cons (by decide) (by decide),
      pair_infix_append_left (by decide)]
  | true =>
    rw [boolWord, List.cons_append, pair_infix_append_cons (by decide) (by decide),
      pair_infix_append_left (by decide)]

theorem insideMarker_of_opening {value : Bool} {condition : List Char}
    (hopened : '(' ∈ conditional.before) (hclosed : ')' ∈ conditional.after)
    (h : BlockMarker.ofLine? (conditional.fill value) = some (.opening condition)) :
    conditional.InsideMarker := by
  obtain ⟨_, bracketed, ⟨left, right, hleft, hright, hline, hfree⟩,
    ⟨left', gap, right', hleft', hgap, hright', rfl⟩, -⟩ := BlockMarker.ofLine?_eq_opening_iff.mp h
  rw [infix_inside_iff hleft' hgap hright'] at hfree
  have hsplit : conditional.before ++ (boolWord value ++ conditional.after) =
      (left ++ ['/', '*'] ++ left' ++ ['@', 'i', 'f'] ++ gap) ++
        '(' :: (bracketed ++ ')' :: (right' ++ ['*', '/'] ++ right)) := by
    rw [← List.append_assoc]
    simpa [fill] using hline
  -- The first parenthesis of the marker stands before the placeholder and the last one after it.
  have hopen : ∀ blanks, Blank blanks → '(' ∉ blanks := fun _ => not_mem_of_blank (by decide)
  have hclose : ∀ blanks, Blank blanks → ')' ∉ blanks := fun _ => not_mem_of_blank (by decide)
  obtain ⟨inner, hbefore, hrest⟩ := exists_eq_append_of_mem_left hsplit hopened
    (by simp [hopen left hleft, hopen left' hleft', hopen gap hgap])
  rw [← List.append_assoc] at hrest
  obtain ⟨outer, hafter, rfl⟩ := exists_eq_append_of_mem_right hrest.symm hclosed
    (by simp [hclose right' hright', hclose right hright])
  rw [List.append_assoc, infix_boolWord_iff, not_or] at hfree
  exact ⟨⟨left, left', gap, inner, hleft, hleft', hgap, hbefore, hfree.1⟩,
    ⟨outer, right', right, hright', hright, hafter, hfree.2⟩⟩

theorem opening_of_insideMarker (value : Bool) (h : conditional.InsideMarker) :
    ∃ condition, BlockMarker.ofLine? (conditional.fill value) = some (.opening condition) := by
  obtain ⟨⟨left, gap₁, gap₂, inner, hleft, hgap₁, hgap₂, hbefore, hinner⟩,
    ⟨outer, gap₃, right, hgap₃, hright, hafter, houter⟩⟩ := h
  refine ⟨_, BlockMarker.ofLine?_eq_opening_iff.mpr ⟨_, inner ++ (boolWord value ++ outer),
    ⟨left, right, hleft, hright, ?_, ?_⟩, ⟨gap₁, gap₂, gap₃, hgap₁, hgap₂, hgap₃, rfl⟩, rfl⟩⟩
  · simp [fill, hbefore, hafter]
  · rw [infix_inside_iff hgap₁ hgap₂ hgap₃, infix_boolWord_iff, not_or]
    exact ⟨hinner, houter⟩

theorem fill_not_closing (hopened : '(' ∈ conditional.before) (value : Bool) :
    BlockMarker.ofLine? (conditional.fill value) ≠ some .closing := by
  intro h
  obtain ⟨_, ⟨left, right, hleft, hright, hline, -⟩, left', right', hleft', hright', rfl⟩ :=
    BlockMarker.ofLine?_eq_closing_iff.mp h
  have hmem : '(' ∈ conditional.fill value := by simp [fill, hopened]
  rw [hline] at hmem
  have hopen : ∀ blanks, Blank blanks → '(' ∉ blanks := fun _ => not_mem_of_blank (by decide)
  simp [hopen left hleft, hopen right hright, hopen left' hleft', hopen right' hright'] at hmem

end InlineConditional

/-! ### The lines of the output -/

namespace Template

open InlineConditional

variable {context : Context} {line output : List Char}

theorem surrounds_of_inline {conditional : InlineConditional}
    (h : Directive.ofLine line = .inline conditional) : conditional.Surrounds line :=
  surrounds_of_search (Directive.ofLine_inline_iff.mp h).2

theorem rendered_cases (h : rendered context line = some output) :
    (∃ conditional, Directive.ofLine line = .inline conditional ∧
      output = conditional.fill (holds context conditional.condition)) ∨
    (Directive.ofLine line = .text ∧ output = line) := by
  unfold rendered at h
  split at h
  · cases h
  · cases h
  · rename_i conditional hd
    exact .inl ⟨conditional, hd, (Option.some.inj h).symm⟩
  · rename_i hd
    exact .inr ⟨hd, (Option.some.inj h).symm⟩

theorem newline_not_mem_rendered (hline : '\n' ∉ line) (h : rendered context line = some output) :
    '\n' ∉ output := by
  rcases rendered_cases h with ⟨conditional, hd, rfl⟩ | ⟨-, rfl⟩
  · obtain ⟨span, rfl⟩ := (surrounds_of_inline hd).append
    simp only [List.mem_append, not_or] at hline
    have hword : '\n' ∉ Text.boolWord (holds context conditional.condition) := by
      cases holds context conditional.condition <;> decide
    simp [fill, hline, hword]
  · exact hline

theorem rendered_ne_closing (h : rendered context line = some output) :
    Directive.ofLine output ≠ .closing := by
  rcases rendered_cases h with ⟨conditional, hd, rfl⟩ | ⟨hd, rfl⟩
  · rw [ne_eq, Directive.ofLine_eq_closing_iff]
    exact fill_not_closing (surrounds_of_inline hd).opened _
  · simp [hd]

/-- A line of the output opens a region exactly when it was an inline conditional inside a
marker. -/
theorem rendered_opening_iff (h : rendered context line = some output) :
    (∃ condition, Directive.ofLine output = .opening condition) ↔
      ∃ conditional, Directive.ofLine line = .inline conditional ∧ conditional.InsideMarker := by
  rcases rendered_cases h with ⟨conditional, hd, rfl⟩ | ⟨hd, rfl⟩
  · obtain ⟨-, hopened, hclosed⟩ := surrounds_of_inline hd
    constructor
    · rintro ⟨condition, hcondition⟩
      exact ⟨conditional, hd, insideMarker_of_opening hopened hclosed
        (Directive.ofLine_eq_opening_iff.mp hcondition)⟩
    · rintro ⟨other, hother, hinside⟩
      obtain rfl := Directive.inline.inj (hd.symm.trans hother)
      obtain ⟨condition, hcondition⟩ := opening_of_insideMarker _ hinside
      exact ⟨condition, Directive.ofLine_eq_opening_iff.mpr hcondition⟩
  · simp [hd]

theorem mem_visibleLines_iff {lines : List (List Char)} :
    output ∈ visibleLines context lines ↔
      ∃ (j : Nat) (line : List Char), lines[j]? = some line ∧ Visible context lines j ∧
        rendered context line = some output := by
  simp only [visibleLines, List.mem_filterMap, shown, Prod.exists, List.mem_zipIdx_iff_getElem?]
  constructor
  · rintro ⟨line, j, hline, h⟩
    split at h
    · rename_i hvisible
      exact ⟨j, line, hline, hvisible, h⟩
    · cases h
  · rintro ⟨j, line, hline, hvisible, h⟩
    exact ⟨line, j, hline, by rw [if_pos hvisible, h]⟩

theorem newline_not_mem_visibleLines {text : List Char}
    (h : output ∈ visibleLines context (lines text)) : '\n' ∉ output := by
  obtain ⟨j, line, hline, -, hrendered⟩ := mem_visibleLines_iff.mp h
  have hline := Text.not_mem_of_mem_splitOn (List.mem_of_getElem? hline)
  exact newline_not_mem_rendered hline hrendered

/-- The lines of the output are the visible lines. An output without visible lines still has one
line, which is empty. -/
theorem forall_mem_lines_output {defines : Defines} {source output : String}
    {P : List Char → Prop} (hnil : P []) (h : process defines source = .ok output) :
    (∀ line ∈ lines output.toList, P line) ↔
      ∀ line ∈ visibleLines (.build defines) (lines source.toList), P line := by
  obtain ⟨-, -, rfl⟩ := process_eq_ok h
  rw [String.toList_ofList]
  by_cases hempty : visibleLines (.build defines) (lines source.toList) = []
  · rw [hempty]
    simpa [unlines, lines] using hnil
  · have hnewline : ∀ line ∈ visibleLines (.build defines) (lines source.toList), '\n' ∉ line :=
      fun _ => newline_not_mem_visibleLines
    rw [lines, unlines, List.splitOn_intercalate '\n' hnewline hempty]

/-- No line of the output closes a region, and none opens one exactly when no visible inline
conditional of the template stands inside a marker. -/
theorem output_without_markers_iff (defines : Defines) (source output : String)
    (h : process defines source = .ok output) :
    (∀ line ∈ lines output.toList, Directive.ofLine line ≠ .closing) ∧
    ((∀ line ∈ lines output.toList, ∀ condition, Directive.ofLine line ≠ .opening condition) ↔
      ∀ (j : Nat) (conditional : InlineConditional),
        (lines source.toList)[j]?.map Directive.ofLine = some (.inline conditional) →
          Visible (.build defines) (lines source.toList) j → ¬ conditional.InsideMarker) := by
  constructor
  · rw [forall_mem_lines_output (by decide) h]
    intro line hline
    obtain ⟨j, original, -, -, hrendered⟩ := mem_visibleLines_iff.mp hline
    exact rendered_ne_closing hrendered
  · have hnil : ∀ condition, Directive.ofLine [] ≠ .opening condition := by
      intro condition hopening
      cases hopening
    rw [forall_mem_lines_output (P := fun line => ∀ c, Directive.ofLine line ≠ .opening c) hnil h]
    constructor
    · intro hfree j conditional hj hvisible hinside
      obtain ⟨original, horiginal, hd⟩ := Option.map_eq_some_iff.mp hj
      have hrendered : rendered (.build defines) original =
          some (conditional.fill (holds (.build defines) conditional.condition)) := by
        rw [rendered, hd]
      obtain ⟨condition, hcondition⟩ := (rendered_opening_iff hrendered).mpr ⟨_, hd, hinside⟩
      exact hfree _ (mem_visibleLines_iff.mpr ⟨j, original, horiginal, hvisible, hrendered⟩)
        condition hcondition
    · intro houtside line hline condition hcondition
      obtain ⟨j, original, horiginal, hvisible, hrendered⟩ := mem_visibleLines_iff.mp hline
      obtain ⟨conditional, hd, hinside⟩ := (rendered_opening_iff hrendered).mp ⟨_, hcondition⟩
      exact houtside j conditional (by rw [horiginal, Option.map_some, hd]) hvisible hinside

/-- The marker in the output of this template comes from an inline conditional inside it. -/
theorem output_without_markers_nested :
    process .empty "/* @if(/* @if(true) */ false) */" = .ok "/* @if(true) */" ∧
      ∃ (j : Nat) (conditional : InlineConditional),
        (lines "/* @if(/* @if(true) */ false) */".toList)[j]?.map Directive.ofLine =
          some (.inline conditional) ∧ conditional.InsideMarker := by
  have hprocess : process .empty "/* @if(/* @if(true) */ false) */" = .ok "/* @if(true) */" := by
    simp only [process, String.reduceToList]
    rfl
  refine ⟨hprocess, ?_⟩
  by_contra hnone
  have hfree := (output_without_markers_iff _ _ _ hprocess).2.mpr
    fun j conditional hj _ hinside => hnone ⟨j, conditional, hj, hinside⟩
  exact hfree "/* @if(true) */".toList (by decide) "true".toList (by decide)

theorem process_nested_marker :
    ∃ output, process .empty "/* @if(/* @if(true) */ false) */" = .ok output ∧
      ∃ line ∈ lines output.toList, Directive.ofLine line = .opening "true".toList := by
  refine ⟨"/* @if(true) */", ?_, "/* @if(true) */".toList, by decide, by decide⟩
  simp only [process, String.reduceToList]
  rfl

end Template

end EdgeTemplate
