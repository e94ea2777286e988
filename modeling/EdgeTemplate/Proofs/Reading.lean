import EdgeTemplate.Proofs.Outcome
import EdgeTemplate.Text.Blank
import EdgeTemplate.Text.Repetition
import EdgeTemplate.Text.Word
import Mathlib.Data.List.Basic
import Mathlib.Data.List.TakeWhile

/-!
# Reading text

What the readers of blanks, words, keywords and repeated items take off the front of a text, and
when they take exactly a given part of it. A run of characters of one class is read as a whole where
no further character of the class follows.
-/
namespace EdgeTemplate.Text

open Outcome

/-- A text does not start with a character of the given class. -/
def Ends (p : Char → Bool) (cs : List Char) : Prop :=
  ∀ c, cs.head? = some c → p c = false

def Blank (cs : List Char) : Prop :=
  ∀ c ∈ cs, isBlank c = true

def Word (cs : List Char) : Prop :=
  ∃ c rest, cs = c :: rest ∧ isWordStart c = true ∧ ∀ d ∈ rest, isWordChar d = true

instance (cs : List Char) : Decidable (Blank cs) :=
  decidable_of_iff (cs.all isBlank = true) List.all_eq_true

variable {p : Char → Bool} {cs rest run : List Char}

theorem ends_nil : Ends p [] := by
  intro c h
  cases h

theorem ends_cons_iff {c : Char} : Ends p (c :: cs) ↔ p c = false := by
  simp [Ends]

instance (p : Char → Bool) : (cs : List Char) → Decidable (Ends p cs)
  | [] => isTrue ends_nil
  | _ :: _ => decidable_of_iff _ ends_cons_iff.symm

theorem Ends.mono {q : Char → Bool} (h : Ends q cs) (hpq : ∀ c, p c = true → q c = true) :
    Ends p cs := by
  intro c hc
  have hq := h c hc
  by_contra hp
  simp [hpq c (by simpa using hp)] at hq

theorem takeWhile_run (hrun : ∀ c ∈ run, p c = true) (hrest : Ends p rest) :
    (run ++ rest).takeWhile p = run := by
  rw [List.takeWhile_append_of_pos hrun]
  cases rest with
  | nil => simp
  | cons c rest => simp [ends_cons_iff.mp hrest]

theorem dropWhile_run (hrun : ∀ c ∈ run, p c = true) (hrest : Ends p rest) :
    (run ++ rest).dropWhile p = rest := by
  rw [List.dropWhile_append_of_pos hrun]
  cases rest with
  | nil => rfl
  | cons c rest => simp [ends_cons_iff.mp hrest]

theorem ends_dropWhile (p : Char → Bool) (cs : List Char) : Ends p (cs.dropWhile p) := by
  intro c hc
  have := List.head?_dropWhile_not p cs
  simpa [hc] using this

theorem all_of_mem_takeWhile : ∀ c ∈ cs.takeWhile p, p c = true :=
  fun _ => List.mem_takeWhile_imp

/-! ### Blanks -/

theorem blank_leadingBlanks (cs : List Char) : Blank (leadingBlanks cs) :=
  all_of_mem_takeWhile

theorem skipBlanks_append {blanks : List Char} (h : Blank blanks) (cs : List Char) :
    skipBlanks (blanks ++ cs) = skipBlanks cs :=
  List.dropWhile_append_of_pos h

theorem skipBlanks_eq_nil_iff : skipBlanks cs = [] ↔ Blank cs :=
  List.dropWhile_eq_nil_iff

theorem skipBlanks_append_right (h : ¬ Blank cs) (rest : List Char) :
    skipBlanks (cs ++ rest) = skipBlanks cs ++ rest := by
  have hne : (cs.dropWhile isBlank).isEmpty = false := by
    rw [List.isEmpty_eq_false_iff]
    exact fun hnil => h (skipBlanks_eq_nil_iff.mp hnil)
  simp only [skipBlanks, List.dropWhile_append, hne, Bool.false_eq_true, if_false]

theorem leadingBlanks_append_right (h : ¬ Blank cs) (rest : List Char) :
    leadingBlanks (cs ++ rest) = leadingBlanks cs := by
  have hsplit : leadingBlanks (cs ++ rest) ++ skipBlanks (cs ++ rest) =
      leadingBlanks cs ++ skipBlanks (cs ++ rest) := by
    rw [leadingBlanks_append_skipBlanks, skipBlanks_append_right h, ← List.append_assoc,
      leadingBlanks_append_skipBlanks]
  exact List.append_cancel_right hsplit

theorem skipBlanks_eq_cons_iff {c : Char} (hc : isBlank c = false) :
    skipBlanks cs = c :: rest ↔ ∃ gap, Blank gap ∧ cs = gap ++ c :: rest := by
  constructor
  · intro h
    refine ⟨leadingBlanks cs, blank_leadingBlanks cs, ?_⟩
    rw [← h, leadingBlanks_append_skipBlanks]
  · intro ⟨gap, hgap, hcs⟩
    rw [hcs, skipBlanks_append hgap, skipBlanks_cons_of_not_blank hc]

theorem leadingBlanks_append_cons {gap : List Char} (hgap : Blank gap) {c : Char}
    (hc : isBlank c = false) (cs : List Char) : leadingBlanks (gap ++ c :: cs) = gap :=
  takeWhile_run hgap (ends_cons_iff.mpr hc)

theorem skipBlanks_append_cons {c : Char} (hc : isBlank c = false) (cs rest : List Char) :
    skipBlanks (cs ++ c :: rest) = skipBlanks cs ++ c :: rest := by
  by_cases h : Blank cs
  · rw [skipBlanks_append h, skipBlanks_cons_of_not_blank hc, skipBlanks_eq_nil_iff.mpr h]
    rfl
  · exact skipBlanks_append_right h _

theorem isPrefixOf?_skipBlanks_iff {c : Char} {part : List Char} (hc : isBlank c = false) :
    (c :: part).isPrefixOf? (skipBlanks cs) = some rest ↔
      ∃ gap, Blank gap ∧ cs = gap ++ (c :: part ++ rest) := by
  rw [List.isPrefixOf?_eq_some_iff_append_eq, eq_comm]
  exact skipBlanks_eq_cons_iff hc

theorem toNat_of_isBlank {c : Char} (h : isBlank c = true) : c.toNat ≤ 32 ∨ 133 ≤ c.toNat := by
  obtain ⟨range, hrange, hlow, hhigh⟩ := (isBlank_iff c).mp h
  simp only [blankRanges, List.mem_cons, List.not_mem_nil, or_false] at hrange
  rcases hrange with rfl | rfl | rfl | rfl | rfl | rfl | rfl | rfl | rfl | rfl <;>
    simp only at hlow hhigh <;> omega

theorem isAlpha_iff {c : Char} :
    c.isAlpha = true ↔ 65 ≤ c.toNat ∧ c.toNat ≤ 90 ∨ 97 ≤ c.toNat ∧ c.toNat ≤ 122 := by
  change (decide (65 ≤ c.val ∧ c.val ≤ 90) ||
    decide (97 ≤ c.val) && decide (c.val ≤ 122)) = true ↔ _
  simp [UInt32.le_iff_toNat_le]

theorem isDigit_iff {c : Char} : c.isDigit = true ↔ 48 ≤ c.toNat ∧ c.toNat ≤ 57 :=
  Char.isDigit_iff_toNat

theorem toNat_of_isWordChar {c : Char} (h : isWordChar c = true) :
    32 < c.toNat ∧ c.toNat < 133 := by
  simp only [isWordChar, Char.isAlphanum, Bool.or_eq_true, beq_iff_eq, isAlpha_iff,
    isDigit_iff] at h
  rcases h with (rfl | rfl) | h
  · decide
  · decide
  · omega

theorem isBlank_eq_false {c : Char} (h : 32 < c.toNat ∧ c.toNat < 133) : isBlank c = false := by
  by_contra hblank
  have := toNat_of_isBlank (by simpa using hblank)
  omega

theorem ends_word_blanks {gap : List Char} (hgap : Blank gap) (h : Ends isWordChar rest) :
    Ends isWordChar (gap ++ rest) := by
  cases gap with
  | nil => exact h
  | cons c gap =>
    rw [List.cons_append, ends_cons_iff]
    by_contra hword
    have hc := isBlank_eq_false (toNat_of_isWordChar (Bool.not_eq_false _ ▸ hword))
    rw [hgap c (by simp)] at hc
    cases hc

theorem isWordChar_of_isDigit {c : Char} (h : c.isDigit = true) : isWordChar c = true := by
  simp [isWordChar, Char.isAlphanum, h]

theorem isDigit_of_isWordStart {c : Char} (h : isWordStart c = true) : c.isDigit = false := by
  simp only [isWordStart, Bool.or_eq_true, beq_iff_eq, isAlpha_iff] at h
  rcases h with (rfl | rfl) | h
  · decide
  · decide
  · by_contra hdigit
    have := isDigit_iff.mp (by simpa using hdigit)
    omega

/-! ### Trimming -/

section Trimming

variable {blanks left right : List Char}

def Trimmed (cs : List Char) : Prop :=
  Ends isBlank cs ∧ Ends isBlank cs.reverse

instance (cs : List Char) : Decidable (Trimmed cs) :=
  inferInstanceAs (Decidable (_ ∧ _))

theorem trimmed_of_ends {first last : Char} (hfirst : isBlank first = false)
    (hlast : isBlank last = false) (middle : List Char) :
    Trimmed (first :: (middle ++ [last])) := by
  refine ⟨ends_cons_iff.mpr hfirst, ?_⟩
  rw [List.reverse_cons, List.reverse_append]
  exact ends_cons_iff.mpr hlast

theorem skipBlanks_eq_self (h : Ends isBlank cs) : skipBlanks cs = cs := by
  cases cs with
  | nil => rfl
  | cons c cs => exact skipBlanks_cons_of_not_blank (ends_cons_iff.mp h) cs

theorem blank_reverse (h : Blank blanks) : Blank blanks.reverse :=
  fun c hc => h c (List.mem_reverse.mp hc)

theorem not_mem_of_blank {c : Char} (hc : isBlank c = false) (h : Blank blanks) : c ∉ blanks := by
  intro hmem
  rw [h c hmem] at hc
  cases hc

theorem trimEnd_append (h : Blank blanks) (cs : List Char) :
    trimEnd (cs ++ blanks) = trimEnd cs := by
  rw [trimEnd, List.reverse_append, skipBlanks_append (blank_reverse h)]
  rfl

theorem trim_append (hleft : Blank left) (hright : Blank right) (cs : List Char) :
    trim (left ++ (cs ++ right)) = trim cs := by
  rw [trim, skipBlanks_append hleft, trim]
  by_cases h : Blank cs
  · rw [skipBlanks_append h, skipBlanks_eq_nil_iff.mpr hright, skipBlanks_eq_nil_iff.mpr h]
  · rw [skipBlanks_append_right h, trimEnd_append hright]

theorem Trimmed.trim_eq (h : Trimmed cs) : trim cs = cs := by
  rw [trim, skipBlanks_eq_self h.1, trimEnd, skipBlanks_eq_self h.2, List.reverse_reverse]

theorem exists_append_trim (cs : List Char) :
    ∃ left right, Blank left ∧ Blank right ∧ cs = left ++ (trim cs ++ right) := by
  refine ⟨leadingBlanks cs, (leadingBlanks (skipBlanks cs).reverse).reverse,
    blank_leadingBlanks cs, blank_reverse (blank_leadingBlanks _), ?_⟩
  rw [trim, trimEnd, ← List.reverse_append, leadingBlanks_append_skipBlanks, List.reverse_reverse,
    leadingBlanks_append_skipBlanks]

theorem trim_eq_iff {core : List Char} (h : Trimmed core) :
    trim cs = core ↔ ∃ left right, Blank left ∧ Blank right ∧ cs = left ++ (core ++ right) := by
  constructor
  · rintro rfl
    exact exists_append_trim cs
  · rintro ⟨left, right, hleft, hright, rfl⟩
    rw [trim_append hleft hright, h.trim_eq]

theorem trim_eq_nil_iff : trim cs = [] ↔ Blank cs := by
  constructor
  · intro h
    obtain ⟨left, right, hleft, hright, hcs⟩ := exists_append_trim cs
    rw [hcs, h, List.nil_append]
    exact List.forall_mem_append.mpr ⟨hleft, hright⟩
  · intro h
    rw [trim, skipBlanks_eq_nil_iff.mpr h]
    rfl

theorem trim_append_cons {c : Char} (hc : isBlank c = false) (cs rest : List Char) :
    trim (cs ++ c :: rest) = skipBlanks cs ++ c :: trimEnd rest := by
  rw [trim, skipBlanks_append_cons hc, trimEnd, List.reverse_append, List.reverse_cons,
    List.append_assoc, List.singleton_append, skipBlanks_append_cons hc, List.reverse_append,
    List.reverse_cons, List.reverse_reverse, List.append_assoc, List.singleton_append]
  rfl

theorem skipBlanks_skipBlanks (cs : List Char) : skipBlanks (skipBlanks cs) = skipBlanks cs :=
  skipBlanks_eq_self (ends_dropWhile isBlank cs)

theorem trim_skipBlanks (cs : List Char) : trim (skipBlanks cs) = trim cs := by
  rw [trim, skipBlanks_skipBlanks, trim]

theorem trim_trimEnd (cs : List Char) : trim (trimEnd cs) = trim cs := by
  have hcs : cs = [] ++ (trimEnd cs ++ (leadingBlanks cs.reverse).reverse) := by
    rw [List.nil_append, trimEnd, ← List.reverse_append, leadingBlanks_append_skipBlanks,
      List.reverse_reverse]
  conv_rhs => rw [hcs]
  exact (trim_append (by simp [Blank]) (blank_reverse (blank_leadingBlanks _)) _).symm

end Trimming

/-! ### Words -/

instance : (cs : List Char) → Decidable (Word cs)
  | [] => isFalse (by simp [Word])
  | c :: cs => decidable_of_iff ((isWordStart c && cs.all isWordChar) = true) (by simp [Word])

theorem Word.isWordChar {word : List Char} (h : Word word) :
    ∀ c ∈ word, Text.isWordChar c = true := by
  obtain ⟨c, rest, rfl, hc, hrest⟩ := h
  intro d hd
  rcases List.mem_cons.mp hd with rfl | hd
  · exact isWordChar_of_isWordStart hc
  · exact hrest d hd

theorem word?_eq_some_iff {word : List Char} :
    word? cs = some (word, rest) ↔ cs = word ++ rest ∧ Word word ∧ Ends isWordChar rest := by
  constructor
  · intro h
    refine ⟨(word?_append h).symm, ?_⟩
    cases cs with
    | nil => cases h
    | cons c cs =>
      rw [word?] at h
      split at h
      · rename_i hc
        obtain ⟨rfl, rfl⟩ := Prod.mk.inj (Option.some.inj h)
        exact ⟨⟨c, _, rfl, hc, all_of_mem_takeWhile⟩, ends_dropWhile _ _⟩
      · cases h
  · rintro ⟨rfl, ⟨c, tail, rfl, hc, htail⟩, hrest⟩
    rw [List.cons_append, word?, if_pos hc, takeWhile_run htail hrest, dropWhile_run htail hrest]

theorem dropKeyword?_eq_some_iff {keyword : List Char} :
    dropKeyword? keyword cs = some rest ↔ cs = keyword ++ rest ∧ Ends isWordChar rest := by
  rw [dropKeyword?, Option.filter_eq_some_iff, List.isPrefixOf?_eq_some_iff_append_eq]
  refine and_congr eq_comm ?_
  cases rest with
  | nil => simp [ends_nil]
  | cons c rest => simp [ends_cons_iff]

theorem dropKeyword?_word {keyword word : List Char} (hk : ∀ c ∈ keyword, isWordChar c = true)
    (hword : ∀ c ∈ word, isWordChar c = true) (hrest : Ends isWordChar rest)
    (hne : word ≠ keyword) :
    dropKeyword? keyword (word ++ rest) = none := by
  rw [Option.eq_none_iff_forall_ne_some]
  intro after hafter
  obtain ⟨heq, hends⟩ := dropKeyword?_eq_some_iff.mp hafter
  apply hne
  rw [← takeWhile_run hword hrest, heq, takeWhile_run hk hends]

theorem isWordChar_boolWord (value : Bool) : ∀ c ∈ boolWord value, isWordChar c = true := by
  rw [← List.all_eq_true]
  cases value <;> rfl

/-! ### Splitting -/

theorem not_mem_of_mem_splitOn {mark : Char} {part : List Char} (h : part ∈ cs.splitOn mark) :
    mark ∉ part := by
  induction cs generalizing part with
  | nil => simp_all
  | cons c cs ih =>
    rw [List.splitOn_cons_eq_if_modifyHead] at h
    split at h
    · rcases List.mem_cons.mp h with rfl | h
      · exact List.not_mem_nil
      · exact ih h
    · rename_i hc
      obtain ⟨first, others, hparts⟩ := List.exists_cons_of_ne_nil (List.splitOn_ne_nil mark cs)
      rw [hparts] at h ih
      rcases List.mem_cons.mp h with rfl | h
      · have hfirst : mark ∉ first := ih (by simp)
        have hne : mark ≠ c := fun heq => hc (by simp [heq])
        simp [hne, hfirst]
      · exact ih (List.mem_cons_of_mem _ h)

/-! ### Repetition -/

section Repetition

variable {σ ε α β : Type}

/-- A repetition is made of steps that find an item, up to one that declines or is not made. -/
theorem collect_induction {step : StateT σ (Except ε) (Option α)} {Q : σ → List α → σ → Prop}
    (hnil : ∀ s, Q s [] s) (hstop : ∀ s last, step.run s = .ok (none, last) → Q s [] last)
    (hnext : ∀ s a mid items last, step.run s = .ok (some a, mid) → Q mid items last →
      Q s (a :: items) last)
    {rounds : Nat} {s last : σ} {items : List α}
    (h : (collect step rounds).run s = .ok (items, last)) : Q s items last := by
  induction rounds generalizing s items with
  | zero =>
    obtain ⟨rfl, rfl⟩ := Prod.mk.inj (Except.ok.inj h)
    exact hnil s
  | succ rounds ih =>
    obtain ⟨found, mid, hstep, h⟩ := run_bind_eq_ok_iff.mp h
    cases found with
    | none =>
      obtain ⟨rfl, rfl⟩ := Prod.mk.inj (Except.ok.inj h)
      exact hstop s mid hstep
    | some a =>
      obtain ⟨others, after, hothers, h⟩ := run_bind_eq_ok_iff.mp h
      obtain ⟨rfl, rfl⟩ := Prod.mk.inj (Except.ok.inj h)
      exact hnext s a mid others after hstep (ih hothers)

/-- What holds of any text that starts with a part, and of the rest, holds where parts and the rest
follow. -/
theorem flatMap_append_of_parts {good : List Char → Prop} {source : β → List Char} {parts : List β}
    (hgood : ∀ part ∈ parts, ∀ tail, good (source part ++ tail)) (hrest : good rest) :
    good (parts.flatMap source ++ rest) := by
  cases parts with
  | nil => exact hrest
  | cons part parts =>
    rw [List.flatMap_cons, List.append_assoc]
    exact hgood part (by simp) _

theorem length_le_length_flatMap {source : β → List Char} {parts : List β}
    (hne : ∀ part ∈ parts, source part ≠ []) : parts.length ≤ (parts.flatMap source).length := by
  induction parts with
  | nil => simp
  | cons part parts ih =>
    have hlen := ih fun part hpart => hne part (by simp [hpart])
    have hpos := List.length_pos_of_ne_nil (hne part (by simp))
    simp only [List.flatMap_cons, List.length_append, List.length_cons]
    omega

variable {m : Type → Type} [Monad m] [LawfulMonad m] {source : β → List Char} {item : β → α}
  {parts : List β}

/-- A repetition finds the given parts, provided that each of them is found wherever the text goes
on in a way that the next part or the end of the repetition does. `At` says which states stand at a
text. -/
theorem collect_complete {step : StateT σ m (Option α)} (At : List Char → σ → Prop)
    (good : List Char → Prop)
    (hstep : ∀ part ∈ parts, ∀ tail s, good tail → At (source part ++ tail) s →
      ∃ next, step.run s = pure (some (item part), next) ∧ At tail next)
    (hgood : ∀ part ∈ parts, ∀ tail, good (source part ++ tail)) (hrest : good rest)
    (hstop : ∀ s, At rest s → ∃ last, step.run s = pure (none, last) ∧ At rest last)
    {rounds : Nat} (hrounds : parts.length ≤ rounds) {s : σ}
    (hs : At (parts.flatMap source ++ rest) s) :
    ∃ last, (collect step rounds).run s = pure (parts.map item, last) ∧ At rest last := by
  induction parts generalizing rounds s with
  | nil =>
    cases rounds with
    | zero => exact ⟨s, rfl, hs⟩
    | succ rounds =>
      obtain ⟨last, hlast, hat⟩ := hstop s hs
      refine ⟨last, ?_, hat⟩
      rw [collect, StateT.run_bind, hlast, pure_bind]
      rfl
  | cons part parts ih =>
    cases rounds with
    | zero => simp at hrounds
    | succ rounds =>
      obtain ⟨hpart, hparts⟩ := List.forall_mem_cons.mp hstep
      have hgoods := (List.forall_mem_cons.mp hgood).2
      rw [List.flatMap_cons, List.append_assoc] at hs
      obtain ⟨next, hnext, hat⟩ := hpart _ s (flatMap_append_of_parts hgoods hrest) hs
      obtain ⟨last, hlast, hend⟩ := ih hparts hgoods (by simpa using hrounds) hat
      refine ⟨last, ?_, hend⟩
      rw [collect, StateT.run_bind, hnext, pure_bind, StateT.run_bind, hlast, pure_bind]
      rfl

theorem readMany_complete {step : StateT (List Char) m (Option α)} (good : List Char → Prop)
    (hstep : ∀ part ∈ parts, ∀ tail, good tail →
      step.run (source part ++ tail) = pure (some (item part), tail))
    (hgood : ∀ part ∈ parts, ∀ tail, good (source part ++ tail))
    (hne : ∀ part ∈ parts, source part ≠ []) (hrest : good rest)
    (hstop : step.run rest = pure (none, rest)) :
    (readMany get step).run (parts.flatMap source ++ rest) = pure (parts.map item, rest) := by
  have hrounds : parts.length ≤ (parts.flatMap source ++ rest).length := by
    rw [List.length_append]
    exact Nat.le_add_right_of_le (length_le_length_flatMap hne)
  obtain ⟨_, hread, rfl⟩ := collect_complete (fun text s => text = s) good
    (by
      rintro part hpart tail _ htail rfl
      exact ⟨tail, hstep part hpart tail htail, rfl⟩)
    hgood hrest
    (by
      rintro _ rfl
      exact ⟨rest, hstop, rfl⟩)
    hrounds rfl
  rw [readMany, StateT.run_bind, StateT.run_get, pure_bind]
  exact hread

end Repetition

end EdgeTemplate.Text
