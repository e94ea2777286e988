import EdgeTemplate.Directive
import EdgeTemplate.Proofs.Reading

/-!
# The grammar of block markers

The lines that are block markers, said without trimming or searching: a line is one comment when
nothing but blanks stands around it and its inside does not end a comment, and the inside of a
marker is a keyword, with a condition in parentheses for an opening marker. What is between the
parentheses may contain parentheses, because the last one of the inside closes the condition.
-/
namespace EdgeTemplate

namespace BlockMarker

open Text

/-- The line is a comment with the given inside and with nothing but blanks around it. -/
def IsComment (inside line : List Char) : Prop :=
  ∃ left right, Blank left ∧ Blank right ∧
    line = left ++ (['/', '*'] ++ inside ++ ['*', '/'] ++ right) ∧ ¬ ['*', '/'] <:+: inside

/-- The inside of a comment that opens a region, with what is between its parentheses. -/
def IsOpening (bracketed inside : List Char) : Prop :=
  ∃ left gap right, Blank left ∧ Blank gap ∧ Blank right ∧
    inside = left ++ (['@', 'i', 'f'] ++ gap ++ ['('] ++ bracketed ++ [')'] ++ right)

def IsClosing (inside : List Char) : Prop :=
  ∃ left right, Blank left ∧ Blank right ∧
    inside = left ++ (['@', 'e', 'n', 'd', 'i', 'f'] ++ right)

variable {line body condition : List Char}

/-- The outside of a comment is what is left of the line without the blanks around it. -/
theorem isComment_iff {inside : List Char} : IsComment inside line ↔
    trim line = '/' :: ('*' :: (inside ++ ['*']) ++ ['/']) ∧ ¬ ['*', '/'] <:+: inside := by
  rw [trim_eq_iff (trimmed_of_ends (by decide) (by decide) _)]
  constructor
  · rintro ⟨left, right, hleft, hright, rfl, hfree⟩
    exact ⟨⟨left, right, hleft, hright, by simp⟩, hfree⟩
  · rintro ⟨⟨left, right, hleft, hright, rfl⟩, hfree⟩
    exact ⟨left, right, hleft, hright, by simp, hfree⟩

theorem isOpening_iff {inside bracketed : List Char} : IsOpening bracketed inside ↔
    ∃ gap, Blank gap ∧
      trim inside = '@' :: (['i', 'f'] ++ gap ++ ['('] ++ bracketed ++ [')']) := by
  constructor
  · rintro ⟨left, gap, right, hleft, hgap, hright, rfl⟩
    refine ⟨gap, hgap, ?_⟩
    rw [trim_eq_iff (trimmed_of_ends (by decide) (by decide) _)]
    exact ⟨left, right, hleft, hright, by simp⟩
  · intro ⟨gap, hgap, htrim⟩
    obtain ⟨left, right, hleft, hright, rfl⟩ :=
      (trim_eq_iff (trimmed_of_ends (by decide) (by decide) _)).mp htrim
    exact ⟨left, gap, right, hleft, hgap, hright, by simp⟩

theorem commentBody?_eq_some_iff :
    commentBody? line = some body ↔ ∃ inside, IsComment inside line ∧ trim inside = body := by
  simp only [commentBody?, Option.bind_eq_bind, Option.bind_eq_some_iff, isComment_iff,
    List.isPrefixOf?_eq_some_iff_append_eq, List.isSuffixOf?_eq_some_iff_append_eq]
  constructor
  · rintro ⟨rest, hrest, inside, rfl, h⟩
    split at h
    · cases h
    · rename_i hfree
      rw [contains_iff] at hfree
      exact ⟨inside, ⟨by simp [← hrest], hfree⟩, Option.some.inj h⟩
  · rintro ⟨inside, ⟨htrim, hfree⟩, rfl⟩
    refine ⟨inside ++ ['*', '/'], by simp [htrim], inside, rfl, ?_⟩
    rw [if_neg (by rwa [contains_iff])]

theorem condition?_eq_some_iff : condition? body = some condition ↔
    ∃ gap bracketed, Blank gap ∧
      body = '@' :: (['i', 'f'] ++ gap ++ ['('] ++ bracketed ++ [')']) ∧
      trim bracketed = condition := by
  simp only [condition?, Option.bind_eq_bind, Option.bind_eq_some_iff,
    List.isPrefixOf?_eq_some_iff_append_eq, List.isSuffixOf?_eq_some_iff_append_eq]
  constructor
  · rintro ⟨rest, rfl, inner, hinner, bracketed, rfl, h⟩
    refine ⟨leadingBlanks rest, bracketed, blank_leadingBlanks rest, ?_, Option.some.inj h⟩
    have hrest : leadingBlanks rest ++ (['('] ++ (bracketed ++ [')'])) = rest := by
      rw [hinner, leadingBlanks_append_skipBlanks]
    conv_lhs => rw [← hrest]
    simp
  · rintro ⟨gap, bracketed, hgap, rfl, rfl⟩
    refine ⟨gap ++ '(' :: (bracketed ++ [')']), by simp, bracketed ++ [')'], ?_, bracketed,
      rfl, rfl⟩
    rw [skipBlanks_append hgap, skipBlanks_cons_of_not_blank (by decide)]
    rfl

/-- A line opens a region exactly when it is a comment with an opening inside, and the condition is
what the parentheses hold, without the blanks around it. -/
theorem ofLine?_eq_opening_iff : ofLine? line = some (.opening condition) ↔
    ∃ inside bracketed, IsComment inside line ∧ IsOpening bracketed inside ∧
      trim bracketed = condition := by
  have hbody : ∀ body, ofBody? body = some (.opening condition) ↔
      condition? body = some condition := by
    intro body
    unfold ofBody?
    cases condition? body with
    | some other => simp
    | none =>
      simp only [reduceCtorEq, iff_false]
      split <;> simp
  simp only [ofLine?, Option.bind_eq_some_iff, commentBody?_eq_some_iff, hbody,
    condition?_eq_some_iff, isOpening_iff]
  constructor
  · intro ⟨body, ⟨inside, hcomment, htrim⟩, gap, bracketed, hgap, hopening, hcondition⟩
    exact ⟨inside, bracketed, hcomment, ⟨gap, hgap, htrim.trans hopening⟩, hcondition⟩
  · intro ⟨inside, bracketed, hcomment, ⟨gap, hgap, htrim⟩, hcondition⟩
    exact ⟨_, ⟨inside, hcomment, htrim⟩, gap, bracketed, hgap, rfl, hcondition⟩

theorem ofLine?_eq_closing_iff : ofLine? line = some .closing ↔
    ∃ inside, IsComment inside line ∧ IsClosing inside := by
  have hbody : ∀ body, ofBody? body = some .closing ↔
      body = '@' :: (['e', 'n', 'd', 'i'] ++ ['f']) := by
    intro body
    unfold ofBody?
    cases hc : condition? body with
    | some other =>
      obtain ⟨gap, bracketed, -, rfl, -⟩ := condition?_eq_some_iff.mp hc
      simp
    | none => simp
  simp only [ofLine?, Option.bind_eq_some_iff, commentBody?_eq_some_iff, hbody]
  constructor
  · rintro ⟨body, ⟨inside, hcomment, htrim⟩, rfl⟩
    obtain ⟨left, right, hleft, hright, rfl⟩ :=
      (trim_eq_iff (trimmed_of_ends (by decide) (by decide) _)).mp htrim
    exact ⟨_, hcomment, left, right, hleft, hright, by simp⟩
  · rintro ⟨inside, hcomment, left, right, hleft, hright, rfl⟩
    refine ⟨_, ⟨_, hcomment, rfl⟩, ?_⟩
    rw [trim_eq_iff (trimmed_of_ends (by decide) (by decide) _)]
    exact ⟨left, right, hleft, hright, by simp⟩

/-! ### Whole lines -/

def OpeningLine (bracketed line : List Char) : Prop :=
  ∃ left gap₁ gap₂ gap₃ right,
    Blank left ∧ Blank gap₁ ∧ Blank gap₂ ∧ Blank gap₃ ∧ Blank right ∧
    line = left ++ ['/', '*'] ++ gap₁ ++ ['@', 'i', 'f'] ++ gap₂ ++ ['('] ++ bracketed ++ [')'] ++
      gap₃ ++ ['*', '/'] ++ right ∧
    ¬ ['*', '/'] <:+: gap₁ ++ ['@', 'i', 'f'] ++ gap₂ ++ ['('] ++ bracketed ++ [')'] ++ gap₃

def ClosingLine (line : List Char) : Prop :=
  ∃ left gap₁ gap₂ right, Blank left ∧ Blank gap₁ ∧ Blank gap₂ ∧ Blank right ∧
    line = left ++ ['/', '*'] ++ gap₁ ++ ['@', 'e', 'n', 'd', 'i', 'f'] ++ gap₂ ++ ['*', '/'] ++
      right

theorem openingLine_iff {bracketed : List Char} : OpeningLine bracketed line ↔
    ∃ inside, IsComment inside line ∧ IsOpening bracketed inside := by
  constructor
  · rintro ⟨left, gap₁, gap₂, gap₃, right, hleft, hgap₁, hgap₂, hgap₃, hright, hline, hfree⟩
    refine ⟨_, ⟨left, right, hleft, hright, ?_, hfree⟩, gap₁, gap₂, gap₃, hgap₁, hgap₂, hgap₃, ?_⟩
    · simp [hline]
    · simp
  · rintro ⟨inside, ⟨left, right, hleft, hright, hline, hfree⟩,
      gap₁, gap₂, gap₃, hgap₁, hgap₂, hgap₃, hinside⟩
    refine ⟨left, gap₁, gap₂, gap₃, right, hleft, hgap₁, hgap₂, hgap₃, hright, ?_, ?_⟩
    · simp [hline, hinside]
    · simpa [hinside] using hfree

/-- A closing inside has no star in it, so it cannot end the comment early. -/
theorem closingLine_iff : ClosingLine line ↔
    ∃ inside, IsComment inside line ∧ IsClosing inside := by
  constructor
  · rintro ⟨left, gap₁, gap₂, right, hleft, hgap₁, hgap₂, hright, hline⟩
    refine ⟨gap₁ ++ (['@', 'e', 'n', 'd', 'i', 'f'] ++ gap₂),
      ⟨left, right, hleft, hright, by simp [hline], ?_⟩, gap₁, gap₂, hgap₁, hgap₂, rfl⟩
    intro hend
    have hstar : ∀ blanks, Blank blanks → '*' ∉ blanks := fun _ => not_mem_of_blank (by decide)
    have hmem : '*' ∈ gap₁ ++ (['@', 'e', 'n', 'd', 'i', 'f'] ++ gap₂) := hend.subset (by simp)
    simp [hstar gap₁ hgap₁, hstar gap₂ hgap₂] at hmem
  · rintro ⟨inside, ⟨left, right, hleft, hright, hline, -⟩, gap₁, gap₂, hgap₁, hgap₂, hinside⟩
    exact ⟨left, gap₁, gap₂, right, hleft, hgap₁, hgap₂, hright, by simp [hline, hinside]⟩

theorem IsComment.unique {inside inside' : List Char} (h : IsComment inside line)
    (h' : IsComment inside' line) : inside = inside' := by
  have htrim := (isComment_iff.mp h).1
  rw [(isComment_iff.mp h').1] at htrim
  simpa using htrim.symm

theorem IsOpening.unique {inside bracketed bracketed' : List Char} (h : IsOpening bracketed inside)
    (h' : IsOpening bracketed' inside) : bracketed = bracketed' := by
  obtain ⟨gap, hgap, htrim⟩ := isOpening_iff.mp h
  obtain ⟨gap', hgap', htrim'⟩ := isOpening_iff.mp h'
  have hgaps : gap ++ '(' :: (bracketed ++ [')']) = gap' ++ '(' :: (bracketed' ++ [')']) := by
    simpa [htrim] using htrim'
  -- Without the blanks in front, both sides start with the first parenthesis.
  have hinner := congrArg skipBlanks hgaps
  rw [skipBlanks_append hgap, skipBlanks_append hgap', skipBlanks_cons_of_not_blank (by decide),
    skipBlanks_cons_of_not_blank (by decide)] at hinner
  simpa using hinner

theorem OpeningLine.unique {bracketed bracketed' : List Char} (h : OpeningLine bracketed line)
    (h' : OpeningLine bracketed' line) : bracketed = bracketed' := by
  obtain ⟨inside, hcomment, hopening⟩ := openingLine_iff.mp h
  obtain ⟨inside', hcomment', hopening'⟩ := openingLine_iff.mp h'
  rw [hcomment'.unique hcomment] at hopening'
  exact hopening.unique hopening'

theorem ofLine?_opening_iff : ofLine? line = some (.opening condition) ↔
    ∃ bracketed, OpeningLine bracketed line ∧ trim bracketed = condition := by
  rw [ofLine?_eq_opening_iff, exists_comm]
  simp only [openingLine_iff, exists_and_right, ← and_assoc]

theorem ofLine?_closing_iff : ofLine? line = some .closing ↔ ClosingLine line := by
  rw [ofLine?_eq_closing_iff, closingLine_iff]

theorem ofLine?_eq_none_iff : ofLine? line = none ↔
    (∀ bracketed, ¬ OpeningLine bracketed line) ∧ ¬ ClosingLine line := by
  rw [← ofLine?_closing_iff]
  constructor
  · intro hnone
    refine ⟨fun bracketed hopens => ?_, by simp [hnone]⟩
    have hline := ofLine?_opening_iff.mpr ⟨bracketed, hopens, rfl⟩
    rw [hnone] at hline
    cases hline
  · intro ⟨hopens, hcloses⟩
    cases h : ofLine? line with
    | none => rfl
    | some marker =>
      cases marker with
      | opening condition =>
        obtain ⟨bracketed, hopening, -⟩ := ofLine?_opening_iff.mp h
        exact (hopens bracketed hopening).elim
      | closing => exact (hcloses h).elim

theorem OpeningLine.of_trimmed {bracketed : List Char} (h : OpeningLine bracketed line)
    (htrimmed : Trimmed line) :
    ∃ gap₁ gap₂ gap₃, Blank gap₁ ∧ Blank gap₂ ∧ Blank gap₃ ∧
      line = ['/', '*'] ++ gap₁ ++ ['@', 'i', 'f'] ++ gap₂ ++ ['('] ++ bracketed ++ [')'] ++ gap₃ ++
        ['*', '/'] ∧ ¬ ['*', '/'] <:+: bracketed := by
  obtain ⟨inside, hcomment, gap₁, gap₂, gap₃, hgap₁, hgap₂, hgap₃, hinside⟩ := openingLine_iff.mp h
  obtain ⟨hline, hfree⟩ := isComment_iff.mp hcomment
  rw [htrimmed.trim_eq] at hline
  refine ⟨gap₁, gap₂, gap₃, hgap₁, hgap₂, hgap₃, by simp [hline, hinside], ?_⟩
  intro hend
  apply hfree
  refine hend.trans ⟨gap₁ ++ ['@', 'i', 'f'] ++ gap₂ ++ ['('], [')'] ++ gap₃, ?_⟩
  simp [hinside]

theorem ofLine?_cons_eq_none {c : Char} (hblank : isBlank c = false) (hc : c ≠ '/') :
    ofLine? (c :: line) = none := by
  have hcomment : ∀ inside, ¬ IsComment inside (c :: line) := by
    intro inside ⟨left, right, hleft, _, hline, _⟩
    cases left with
    | nil => exact hc (List.cons.inj hline).1
    | cons b left =>
      rw [(List.cons.inj hline).1, hleft b (by simp)] at hblank
      cases hblank
  rw [ofLine?_eq_none_iff, closingLine_iff]
  simp only [openingLine_iff]
  exact ⟨fun _ ⟨inside, h, _⟩ => hcomment inside h, fun ⟨inside, h, _⟩ => hcomment inside h⟩

end BlockMarker

namespace Directive

open Text BlockMarker

variable {line : List Char}

theorem ofLine_eq_opening_iff {condition : List Char} :
    ofLine line = .opening condition ↔ BlockMarker.ofLine? line = some (.opening condition) := by
  unfold ofLine
  split
  · simp_all
  · simp_all
  · split <;> simp_all

theorem ofLine_eq_closing_iff :
    ofLine line = .closing ↔ BlockMarker.ofLine? line = some .closing := by
  unfold ofLine
  split
  · simp_all
  · simp_all
  · split <;> simp_all

theorem ofLine_inline_iff {conditional : InlineConditional} : ofLine line = .inline conditional ↔
    BlockMarker.ofLine? line = none ∧ InlineConditional.ofLine? line = some conditional := by
  unfold ofLine
  split
  · simp_all
  · simp_all
  · split <;> simp_all

/-- A line is a block marker exactly when it has the form of one. No line has both forms, and the
form of an opening marker leaves no choice of what is between its parentheses. -/
theorem ofLine_marker_iff (line : List Char) :
    (∀ condition, ofLine line = .opening condition ↔
      ∃ bracketed, OpeningLine bracketed line ∧ trim bracketed = condition) ∧
    (ofLine line = .closing ↔ ClosingLine line) ∧
    (∀ bracketed, OpeningLine bracketed line → ¬ ClosingLine line) ∧
    ∀ bracketed bracketed', OpeningLine bracketed line → OpeningLine bracketed' line →
      bracketed = bracketed' := by
  refine ⟨fun condition => ?_, ?_, ?_, fun _ _ => OpeningLine.unique⟩
  · rw [ofLine_eq_opening_iff, ofLine?_opening_iff]
  · rw [ofLine_eq_closing_iff, ofLine?_closing_iff]
  · intro bracketed hopens hcloses
    have hopening := ofLine?_opening_iff.mpr ⟨bracketed, hopens, rfl⟩
    rw [ofLine?_closing_iff.mpr hcloses] at hopening
    cases hopening

end Directive

end EdgeTemplate
