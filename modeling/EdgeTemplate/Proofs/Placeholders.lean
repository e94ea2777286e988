import EdgeTemplate.Proofs.Markers

/-!
# The grammar of inline conditionals

The lines that are inline conditionals, said without cursors: somewhere in the line, and not inside
a word, a test `if (/* @if(…) */ false)` begins, with blanks where they may stand. Of several such
places the leftmost counts. What is between the parentheses of the comment ends at the first `)`
that the end of a comment follows, and a later one is not tried. Both rules pick the first place of
a text that has some property, and `FirstSplit` says so for either of them.
-/
namespace EdgeTemplate

namespace Text

/-- The text is split at the first place where its two parts have a property. -/
structure FirstSplit (P : List Char → List Char → Prop) (text front rest : List Char) : Prop where
  append : text = front ++ rest
  holds : P front rest
  first : ∀ front' rest', text = front' ++ rest' → P front' rest' → front.length ≤ front'.length

variable {P : List Char → List Char → Prop} {c : Char} {text front rest : List Char}

theorem firstSplit_nil (h : P [] text) : FirstSplit P text [] text :=
  ⟨rfl, h, fun _ _ _ _ => Nat.zero_le _⟩

theorem firstSplit_cons_iff : FirstSplit P (c :: text) front rest ↔
    (front = [] ∧ rest = c :: text ∧ P [] (c :: text)) ∨
      (¬ P [] (c :: text) ∧ ∃ behind, front = c :: behind ∧
        FirstSplit (fun front => P (c :: front)) text behind rest) := by
  constructor
  · intro ⟨happend, hholds, hfirst⟩
    cases front with
    | nil =>
      rw [List.nil_append] at happend
      exact .inl ⟨rfl, happend.symm, happend ▸ hholds⟩
    | cons d behind =>
      obtain ⟨rfl, rfl⟩ := List.cons.inj happend
      refine .inr ⟨fun hstart => ?_, behind, rfl, rfl, hholds, fun front' rest' heq hholds' => ?_⟩
      · exact absurd (hfirst [] _ rfl hstart) (by simp)
      · have hle := hfirst (c :: front') rest' (by rw [heq, List.cons_append]) hholds'
        exact Nat.le_of_succ_le_succ hle
  · intro h
    rcases h with ⟨rfl, rfl, hstart⟩ | ⟨hstart, behind, rfl, happend, hholds, hfirst⟩
    · exact firstSplit_nil hstart
    · refine ⟨by rw [happend, List.cons_append], hholds, fun front' rest' heq hholds' => ?_⟩
      cases front' with
      | nil =>
        rw [List.nil_append] at heq
        exact (hstart (heq ▸ hholds')).elim
      | cons d behind' =>
        obtain ⟨rfl, htext⟩ := List.cons.inj heq
        exact Nat.succ_le_succ (hfirst behind' rest' htext hholds')

abbrev Blanks := { cs : List Char // Blank cs }

end Text

namespace InlineConditional

open Text

/-! ### Tests -/

/-- A condition and its comment end here, and the rest follows. -/
def EndsComment (tail rest : List Char) : Prop :=
  ∃ gap, Blank gap ∧ tail = [')'] ++ gap ++ ['*', '/'] ++ rest

/-- A test that a placeholder stands for, in parts: the keyword, the comment with what is between
its parentheses, the placeholder, the end of the test and the rest of the line. -/
structure Parts where
  gap₁ : Blanks
  gap₂ : Blanks
  gap₃ : Blanks
  gap₄ : Blanks
  bracketed : List Char
  gap₅ : Blanks
  gap₆ : Blanks
  gap₇ : Blanks
  rest : List Char

namespace Parts

def before (parts : Parts) : List Char :=
  ['i', 'f'] ++ parts.gap₁.val ++ ['('] ++ parts.gap₂.val

def opening (parts : Parts) : List Char :=
  ['/', '*'] ++ parts.gap₃.val ++ ['@', 'i', 'f'] ++ parts.gap₄.val ++ ['(']

def closing (parts : Parts) : List Char :=
  [')'] ++ parts.gap₅.val ++ ['*', '/'] ++ parts.gap₆.val ++ boolWord false

/-- What gives way to a truth value. -/
def span (parts : Parts) : List Char :=
  parts.opening ++ parts.bracketed ++ parts.closing

def after (parts : Parts) : List Char :=
  parts.gap₇.val ++ [')'] ++ parts.rest

def text (parts : Parts) : List Char :=
  parts.before ++ parts.span ++ parts.after

end Parts

/-- A test in which what is between the parentheses of the comment is the shortest text that an end
of a comment follows. -/
structure Test extends Parts where
  shortest : FirstSplit (fun _ tail => ∃ rest, EndsComment tail rest)
    (bracketed ++ (toParts.closing ++ toParts.after)) bracketed (toParts.closing ++ toParts.after)

def Test.conditional (test : Test) : InlineConditional :=
  { before := test.before, condition := trim test.bracketed, after := test.after }

variable {cs bracketed rest after : List Char} {conditional : InlineConditional}

theorem endsComment_cons_iff {c : Char} :
    (if c = ')' then ['*', '/'].isPrefixOf? (skipBlanks cs) else none) = some rest ↔
      EndsComment (c :: cs) rest := by
  unfold EndsComment
  split
  · rename_i hc
    subst hc
    rw [isPrefixOf?_skipBlanks_iff (by decide)]
    simp
  · rename_i hc
    simp [hc]

theorem splitAtClose_eq_some_iff : splitAtClose cs = some (bracketed, rest) ↔
    ∃ tail, EndsComment tail rest ∧
      FirstSplit (fun _ tail => ∃ rest, EndsComment tail rest) cs bracketed tail := by
  induction cs generalizing bracketed rest with
  | nil =>
    simp only [splitAtClose, reduceCtorEq, false_iff, not_exists, not_and]
    intro tail ⟨gap, hgap, htail⟩ hsplit
    simpa [htail] using hsplit.append
  | cons c cs ih =>
    rw [splitAtClose]
    split
    · rename_i found hfound
      have hends := endsComment_cons_iff.mp hfound
      simp only [Option.some.injEq, Prod.mk.injEq, firstSplit_cons_iff]
      constructor
      · intro ⟨hnil, hrest⟩
        subst hrest
        exact ⟨c :: cs, hends, .inl ⟨hnil.symm, rfl, _, hends⟩⟩
      · rintro ⟨tail, htail, ⟨hnil, hcs, -⟩ | ⟨hnone, -⟩⟩
        · subst hcs
          have hfound' := endsComment_cons_iff.mpr htail
          rw [hfound] at hfound'
          exact ⟨hnil.symm, Option.some.inj hfound'⟩
        · exact (hnone ⟨_, hends⟩).elim
    · -- No end begins with the first character, so the first one in the rest is the first of all.
      rename_i hnone
      have hstart : ¬ ∃ rest, EndsComment (c :: cs) rest := by
        intro ⟨rest, hends⟩
        rw [endsComment_cons_iff.mpr hends] at hnone
        cases hnone
      simp only [Option.map_eq_some_iff, Prod.exists, Prod.mk.injEq, ih, firstSplit_cons_iff,
        hstart, and_false, false_or, not_false_eq_true, true_and]
      constructor
      · rintro ⟨inner, _, ⟨tail, htail, hsplit⟩, rfl, rfl⟩
        exact ⟨tail, htail, inner, rfl, hsplit⟩
      · rintro ⟨tail, htail, inner, rfl, hsplit⟩
        exact ⟨inner, rest, ⟨tail, htail, hsplit⟩, rfl, rfl⟩

theorem comment?_eq_some_iff : comment? (skipBlanks cs) = some (bracketed, rest) ↔
    ∃ gap gap' gap'' inner, Blank gap ∧ Blank gap' ∧ Blank gap'' ∧
      cs = gap ++ (['/', '*'] ++ gap' ++ ['@', 'i', 'f'] ++ gap'' ++ ['('] ++ inner) ∧
      splitAtClose inner = some (bracketed, rest) := by
  simp only [comment?, Option.bind_eq_bind, Option.bind_eq_some_iff,
    isPrefixOf?_skipBlanks_iff (show isBlank '/' = false by decide),
    isPrefixOf?_skipBlanks_iff (show isBlank '@' = false by decide),
    isPrefixOf?_skipBlanks_iff (show isBlank '(' = false by decide)]
  constructor
  · rintro ⟨_, ⟨gap, hgap, rfl⟩, _, ⟨gap', hgap', rfl⟩, inner, ⟨gap'', hgap'', rfl⟩, hsplit⟩
    exact ⟨gap, gap', gap'', inner, hgap, hgap', hgap'', by simp, hsplit⟩
  · rintro ⟨gap, gap', gap'', inner, hgap, hgap', hgap'', rfl, hsplit⟩
    exact ⟨_, ⟨gap, hgap, by simp⟩, _, ⟨gap', hgap', rfl⟩, inner, ⟨gap'', hgap'', rfl⟩, hsplit⟩

/-- Behind the placeholder stands a blank or a parenthesis, which does not continue the word. -/
theorem afterPlaceholder?_eq_some_iff : afterPlaceholder? cs = some after ↔
    ∃ gap gap' rest, Blank gap ∧ Blank gap' ∧ cs = gap ++ boolWord false ++ after ∧
      after = gap' ++ [')'] ++ rest := by
  have hclose : (skipBlanks after).head? = some ')' ↔
      ∃ rest gap', Blank gap' ∧ after = gap' ++ ')' :: rest := by
    simp only [List.head?_eq_some_iff, skipBlanks_eq_cons_iff (show isBlank ')' = false by decide)]
  have hword : skipBlanks cs = boolWord false ++ after ↔
      ∃ gap, Blank gap ∧ cs = gap ++ (boolWord false ++ after) :=
    skipBlanks_eq_cons_iff (by decide)
  rw [afterPlaceholder?, Option.filter_eq_some_iff, dropKeyword?_eq_some_iff, beq_iff_eq, hclose,
    hword]
  constructor
  · rintro ⟨⟨⟨gap, hgap, hcs⟩, -⟩, rest, gap', hgap', hafter⟩
    exact ⟨gap, gap', rest, hgap, hgap', by simp [hcs], by simp [hafter]⟩
  · rintro ⟨gap, gap', rest, hgap, hgap', hcs, hafter⟩
    have hends : Ends isWordChar (gap' ++ ')' :: rest) :=
      ends_word_blanks hgap' (ends_cons_iff.mpr (by decide))
    rw [List.append_assoc, List.singleton_append] at hafter
    exact ⟨⟨⟨gap, hgap, by simp [hcs]⟩, hafter ▸ hends⟩, rest, gap', hgap', hafter⟩

theorem exists_test_of_atStart? (h : atStart? cs = some conditional) :
    ∃ test : Test, cs = test.text ∧ conditional = test.conditional := by
  simp only [atStart?, Option.bind_eq_bind, Option.bind_eq_some_iff, dropKeyword?_eq_some_iff,
    isPrefixOf?_skipBlanks_iff (show isBlank '(' = false by decide), Prod.exists,
    afterPlaceholder?_eq_some_iff, comment?_eq_some_iff, splitAtClose_eq_some_iff] at h
  obtain ⟨_, ⟨rfl, -⟩, _, ⟨gap₁, hgap₁, rfl⟩, bracketed, _,
    ⟨gap₂, gap₃, gap₄, inner, hgap₂, hgap₃, hgap₄, rfl, tail, ⟨gap₅, hgap₅, rfl⟩, hsplit⟩,
    after, ⟨gap₆, gap₇, rest, hgap₆, hgap₇, rfl, rfl⟩, h⟩ := h
  let parts : Parts := ⟨⟨gap₁, hgap₁⟩, ⟨gap₂, hgap₂⟩, ⟨gap₃, hgap₃⟩, ⟨gap₄, hgap₄⟩, bracketed,
    ⟨gap₅, hgap₅⟩, ⟨gap₆, hgap₆⟩, ⟨gap₇, hgap₇⟩, rest⟩
  have htail : [')'] ++ gap₅ ++ ['*', '/'] ++ (gap₆ ++ boolWord false ++ (gap₇ ++ [')'] ++ rest)) =
      parts.closing ++ parts.after := by
    simp [parts, Parts.closing, Parts.after]
  rw [htail] at hsplit
  have hinner := hsplit.append
  subst hinner
  refine ⟨⟨parts, hsplit⟩, ?_, ?_⟩
  · simp [parts, Parts.text, Parts.before, Parts.span, Parts.opening]
  · have hkeyword : ∀ cs, leadingBlanks (gap₁ ++ (['('] ++ cs)) = gap₁ :=
      leadingBlanks_append_cons hgap₁ (by decide)
    have hbracket : leadingBlanks (gap₂ ++ (['/', '*'] ++ gap₃ ++ ['@', 'i', 'f'] ++ gap₄ ++
        ['('] ++ (bracketed ++ (parts.closing ++ parts.after)))) = gap₂ :=
      leadingBlanks_append_cons hgap₂ (by decide) _
    rw [hkeyword, hbracket] at h
    rw [← Option.some.inj h]
    simp [parts, Test.conditional, Parts.before, Parts.after]

theorem atStart?_text (test : Test) : atStart? test.text = some test.conditional := by
  have hplaceholder : afterPlaceholder? (test.gap₆.val ++ boolWord false ++ test.after) =
      some test.after :=
    afterPlaceholder?_eq_some_iff.mpr
      ⟨test.gap₆.val, test.gap₇.val, test.rest, test.gap₆.property, test.gap₇.property, rfl, rfl⟩
  have hsplit : splitAtClose (test.bracketed ++ (test.closing ++ test.after)) =
      some (test.bracketed, test.gap₆.val ++ boolWord false ++ test.after) :=
    splitAtClose_eq_some_iff.mpr
      ⟨_, ⟨test.gap₅.val, test.gap₅.property, by simp [Parts.closing]⟩, test.shortest⟩
  have hcomment : comment? (skipBlanks (test.gap₂.val ++ (test.span ++ test.after))) =
      some (test.bracketed, test.gap₆.val ++ boolWord false ++ test.after) :=
    comment?_eq_some_iff.mpr
      ⟨test.gap₂.val, test.gap₃.val, test.gap₄.val, _, test.gap₂.property, test.gap₃.property,
        test.gap₄.property, by simp [Parts.span, Parts.opening], hsplit⟩
  have hbracket : ['('].isPrefixOf?
      (skipBlanks (test.gap₁.val ++ '(' :: (test.gap₂.val ++ (test.span ++ test.after)))) =
        some (test.gap₂.val ++ (test.span ++ test.after)) :=
    (isPrefixOf?_skipBlanks_iff (by decide)).mpr ⟨test.gap₁.val, test.gap₁.property, rfl⟩
  have hkeyword : dropKeyword? ['i', 'f'] test.text =
      some (test.gap₁.val ++ '(' :: (test.gap₂.val ++ (test.span ++ test.after))) := by
    rw [dropKeyword?_eq_some_iff]
    refine ⟨by simp [Parts.text, Parts.before], ?_⟩
    exact ends_word_blanks test.gap₁.property (ends_cons_iff.mpr (by decide))
  have hgap₁ : ∀ cs, leadingBlanks (test.gap₁.val ++ '(' :: cs) = test.gap₁.val :=
    leadingBlanks_append_cons test.gap₁.property (by decide)
  have hgap₂ : leadingBlanks (test.gap₂.val ++ (test.span ++ test.after)) = test.gap₂.val :=
    leadingBlanks_append_cons test.gap₂.property (by decide) _
  simp only [atStart?, hkeyword, hbracket, hcomment, hplaceholder, hgap₁, hgap₂,
    Option.bind_eq_bind, Option.bind_some]
  simp [Test.conditional, Parts.before]

/-! ### Lines -/

/-- Whether what follows a text would continue a word. For the empty text the flag says so. -/
def continuesWord (inWord : Bool) (front : List Char) : Bool :=
  front.getLast?.elim inWord isWordChar

theorem continuesWord_cons (inWord : Bool) (c : Char) (front : List Char) :
    continuesWord inWord (c :: front) = continuesWord (isWordChar c) front := by
  rw [continuesWord, continuesWord, List.getLast?_cons]
  cases front.getLast? <;> rfl

/-- The inline conditional with more text before its test. -/
def behind (front : List Char) (conditional : InlineConditional) : InlineConditional :=
  { conditional with before := front ++ conditional.before }

/-- A test begins here, and it does not begin inside a word. -/
def BeginsTest (inWord : Bool) (front text : List Char) : Prop :=
  continuesWord inWord front = false ∧ ∃ test : Test, text = test.text

theorem beginsTest_cons (inWord : Bool) (c : Char) :
    (fun front => BeginsTest inWord (c :: front)) = BeginsTest (isWordChar c) := by
  funext front text
  rw [BeginsTest, continuesWord_cons]
  rfl

theorem beginsTest_nil_iff {inWord : Bool} {text : List Char} : BeginsTest inWord [] text ↔
    ∃ found, (if inWord then none else atStart? text) = some found := by
  cases inWord with
  | true => simp [BeginsTest, continuesWord]
  | false =>
    constructor
    · intro ⟨_, test, htext⟩
      exact ⟨test.conditional, htext ▸ atStart?_text test⟩
    · intro ⟨found, hfound⟩
      obtain ⟨test, htext, -⟩ := exists_test_of_atStart? hfound
      exact ⟨rfl, test, htext⟩

/-- The search finds the first test that does not begin inside a word. -/
theorem search_eq_some_iff {inWord : Bool} {line : List Char} :
    search inWord line = some conditional ↔
      ∃ front, ∃ test : Test, FirstSplit (BeginsTest inWord) line front test.text ∧
        conditional = test.conditional.behind front := by
  induction line generalizing inWord conditional with
  | nil =>
    simp only [search, reduceCtorEq, false_iff, not_exists, not_and]
    intro front test hsplit
    simpa [Parts.text, Parts.before] using hsplit.append
  | cons c line ih =>
    rw [search]
    split
    · rename_i found hfound
      have hbegins : BeginsTest inWord [] (c :: line) := beginsTest_nil_iff.mpr ⟨found, hfound⟩
      have hstart : atStart? (c :: line) = some found := by
        split at hfound
        · cases hfound
        · exact hfound
      constructor
      · intro h
        obtain ⟨test, htext, hconditional⟩ := exists_test_of_atStart? hstart
        rw [← Option.some.inj h]
        exact ⟨[], test, htext ▸ firstSplit_nil hbegins, hconditional⟩
      · intro ⟨front, test, hsplit, hconditional⟩
        rcases firstSplit_cons_iff.mp hsplit with ⟨hfront, htext, -⟩ | ⟨hnone, -⟩
        · have htest := atStart?_text test
          rw [htext, hstart] at htest
          rw [hconditional, hfront, htest]
          rfl
        · exact (hnone hbegins).elim
    · rename_i hnone
      have hbegins : ¬ BeginsTest inWord [] (c :: line) := by
        rw [beginsTest_nil_iff, hnone]
        simp
      rw [Option.map_eq_some_iff]
      constructor
      · intro ⟨found, hfound, hconditional⟩
        obtain ⟨front, test, hsplit, rfl⟩ := ih.mp hfound
        -- The flag for the rest is whether the first character belongs to a word.
        rw [← beginsTest_cons inWord] at hsplit
        exact ⟨c :: front, test, firstSplit_cons_iff.mpr (.inr ⟨hbegins, front, rfl, hsplit⟩),
          hconditional.symm⟩
      · intro ⟨front, test, hsplit, hconditional⟩
        rcases firstSplit_cons_iff.mp hsplit with ⟨-, -, hstart⟩ | ⟨-, inner, hfront, hinner⟩
        · exact (hbegins hstart).elim
        · rw [beginsTest_cons] at hinner
          refine ⟨_, ih.mpr ⟨inner, test, hinner, rfl⟩, ?_⟩
          rw [hconditional, hfront]
          rfl

/-! ### Comments that end once -/

/-- An end of a comment that begins before a parenthesis also ends before it. -/
theorem infix_of_endsComment {middle tail : List Char} (hne : middle ≠ [])
    (h : EndsComment (middle ++ ')' :: tail) rest) : ['*', '/'] <:+: middle := by
  obtain ⟨gap, hgap, heq⟩ := h
  have hend : [')'] ++ gap ++ ['*', '/'] <+: middle ++ ')' :: tail := ⟨rest, heq.symm⟩
  have hmiddle : middle ++ [')'] <+: middle ++ ')' :: tail := ⟨tail, by simp⟩
  rcases List.prefix_or_prefix_of_prefix hend hmiddle with hprefix | hprefix
  · rcases List.prefix_concat_iff.mp hprefix with hlast | hinside
    · have hchar := congrArg List.getLast? hlast
      rw [List.getLast?_append, List.getLast?_append] at hchar
      simp at hchar
    · exact (List.suffix_append _ _).isInfix.trans hinside.isInfix
  · -- The parenthesis would have to stand among the blanks.
    obtain ⟨c, middle, rfl⟩ := List.exists_cons_of_ne_nil hne
    have hrest : middle ++ [')'] <+: gap ++ ['*', '/'] := (List.cons_prefix_cons.mp hprefix).2
    have hmem : ')' ∈ gap ++ ['*', '/'] := hrest.subset (by simp)
    simp [not_mem_of_blank (show isBlank ')' = false by decide) hgap] at hmem

/-- Where nothing between the parentheses ends a comment, the last parenthesis is the first one that
an end of a comment follows. -/
theorem firstSplit_of_not_infix {tail : List Char} (hfree : ¬ ['*', '/'] <:+: bracketed)
    (hends : EndsComment (')' :: tail) rest) :
    FirstSplit (fun _ tail => ∃ rest, EndsComment tail rest) (bracketed ++ ')' :: tail) bracketed
      (')' :: tail) := by
  refine ⟨rfl, ⟨rest, hends⟩, ?_⟩
  intro shorter tail' heq ⟨rest', hends'⟩
  by_contra hlt
  rcases List.append_eq_append_iff.mp heq with ⟨middle, hshorter, -⟩ | ⟨middle, hbracketed, htail⟩
  · simp [hshorter] at hlt
  · have hne : middle ≠ [] := by
      intro hnil
      simp [hbracketed, hnil] at hlt
    rw [htail] at hends'
    apply hfree
    rw [hbracketed]
    exact (infix_of_endsComment hne hends').trans (List.suffix_append _ _).isInfix

end InlineConditional

namespace Directive

open Text BlockMarker InlineConditional

/-- A line is an inline conditional exactly when it is no block marker and a test begins in it that
does not begin inside a word. Its parts are those of the leftmost test, and they leave out nothing
of the line but the span that is filled in. -/
theorem ofLine_eq_inline_iff (line : List Char) (conditional : InlineConditional) :
    (ofLine line = .inline conditional ↔
      ((∀ bracketed, ¬ OpeningLine bracketed line) ∧ ¬ ClosingLine line) ∧
      ∃ front, ∃ test : Test, FirstSplit (BeginsTest false) line front test.text ∧
        conditional.before = front ++ test.before ∧
        conditional.condition = trim test.bracketed ∧
        conditional.after = test.after ∧
        line = conditional.before ++ test.span ++ conditional.after) ∧
    ∀ value, conditional.fill value =
      conditional.before ++ boolWord value ++ conditional.after := by
  refine ⟨?_, fun _ => rfl⟩
  rw [ofLine_inline_iff, ofLine?_eq_none_iff, InlineConditional.ofLine?, search_eq_some_iff]
  refine and_congr_right fun _ => exists_congr fun front => exists_congr fun test => ?_
  refine and_congr_right fun hsplit => ?_
  constructor
  · intro hconditional
    subst hconditional
    refine ⟨rfl, rfl, rfl, ?_⟩
    rw [hsplit.append]
    simp [Parts.text, Test.conditional, behind]
  · intro ⟨hbefore, hcondition, hafter, _⟩
    cases conditional
    subst hbefore hcondition hafter
    rfl

/-- The first `if` is the end of a longer word. -/
example :
    ofLine "elif (/* @if(a) */ false) if (/* @if(f(x)) */ false) go();".toList =
      .inline
        { before := "elif (/* @if(a) */ false) if (".toList
          condition := "f(x)".toList
          after := ") go();".toList } := by
  decide

/-- An opening marker in the place of a test's condition has the condition that it has on a line of
its own: the last parenthesis of the marker is the first one that an end of a comment follows. -/
theorem ofLine_embedded_marker (marker condition gap₁ gap₂ gap₃ gap₄ rest : List Char)
    (htrimmed : Trimmed marker) (hmarker : ofLine marker = .opening condition)
    (hgap₁ : Blank gap₁) (hgap₂ : Blank gap₂) (hgap₃ : Blank gap₃) (hgap₄ : Blank gap₄) :
    ofLine (['i', 'f'] ++ gap₁ ++ ['('] ++ gap₂ ++ marker ++ gap₃ ++ boolWord false ++ gap₄ ++
        [')'] ++ rest) =
      .inline
        { before := ['i', 'f'] ++ gap₁ ++ ['('] ++ gap₂
          condition
          after := gap₄ ++ [')'] ++ rest } := by
  obtain ⟨bracketed, hopening, rfl⟩ := ofLine?_opening_iff.mp (ofLine_eq_opening_iff.mp hmarker)
  obtain ⟨left, inner, right, hleft, hinner, hright, rfl, hfree⟩ := hopening.of_trimmed htrimmed
  let parts : Parts := ⟨⟨gap₁, hgap₁⟩, ⟨gap₂, hgap₂⟩, ⟨left, hleft⟩, ⟨inner, hinner⟩, bracketed,
    ⟨right, hright⟩, ⟨gap₃, hgap₃⟩, ⟨gap₄, hgap₄⟩, rest⟩
  have hends : EndsComment (parts.closing ++ parts.after) (gap₃ ++ boolWord false ++ parts.after) :=
    ⟨right, hright, by simp [parts, Parts.closing]⟩
  let test : Test := ⟨parts, firstSplit_of_not_infix hfree hends⟩
  have hline : ['i', 'f'] ++ gap₁ ++ ['('] ++ gap₂ ++ (['/', '*'] ++ left ++ ['@', 'i', 'f'] ++
      inner ++ ['('] ++ bracketed ++ [')'] ++ right ++ ['*', '/']) ++ gap₃ ++ boolWord false ++
      gap₄ ++ [')'] ++ rest = test.text := by
    simp [test, parts, Parts.text, Parts.before, Parts.span, Parts.opening, Parts.closing,
      Parts.after]
  rw [hline, ofLine_inline_iff]
  refine ⟨ofLine?_cons_eq_none (by decide) (by decide), ?_⟩
  exact search_eq_some_iff.mpr ⟨[], test, firstSplit_nil ⟨rfl, test, rfl⟩, rfl⟩

/-- The condition has parentheses, a star and a slash of its own, an em space stands before the
marker, and a second test follows the first one. -/
theorem ofLine_embedded_marker_product :
    let marker := "/*@if (f(x) * /(y)) */".toList
    let rest := " || if (/* @if(z) */ false)".toList
    ofLine marker = .opening "f(x) * /(y)".toList ∧
      ofLine ("if (\u2003".toList ++ marker ++ "false\t)".toList ++ rest) =
        .inline
          { before := "if (\u2003".toList
            condition := "f(x) * /(y)".toList
            after := "\t)".toList ++ rest } := by
  intro marker rest
  have hmarker : ofLine marker = .opening "f(x) * /(y)".toList := by decide
  refine ⟨hmarker, ?_⟩
  exact ofLine_embedded_marker marker _ [' '] ['\u2003'] [] ['\t'] rest (by decide) hmarker
    (by decide) (by decide) (by decide) (by decide)

end Directive

end EdgeTemplate
