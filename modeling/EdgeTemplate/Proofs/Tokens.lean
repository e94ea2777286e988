import EdgeTemplate.Proofs.Cursor

/-!
# Reading tokens with a cursor

Strings, numbers and words. Each is read from where the cursor is, without blanks before it,
and the cursor ends up exactly before what the reader leaves.
-/
namespace EdgeTemplate.Condition.Cursor

open Text Outcome

section Tokens

variable (text : List Char)

/-- Reads the inside of a string and its closing quote, in at most so many rounds. -/
def stringBody (quote : Char) : Nat → Cursor (List Char)
  | 0 => refuse .unterminatedString
  | rounds + 1 => do
    match ← next text with
    | none => refuse .unterminatedString
    | some c =>
      if c = quote then return []
      else if c = '\\' then
        match ← next text with
        | none => refuse .unterminatedString
        | some escaped =>
          let value ← stringBody quote rounds
          return unescape escaped ++ value
      else
        let value ← stringBody quote rounds
        return c :: value

def string : Cursor Condition := do
  match ← peek text with
  | none => refuse .stringExpected
  | some quote =>
    if quote = '"' ∨ quote = '\'' then
      move text 1
      let value ← stringBody text quote text.length
      return .literal (.string (String.ofList value))
    else refuse .quoteExpected

def passUnsigned : Cursor Unit := do
  passDigits text
  if (← peek text) = some '.' then
    move text 1
    passDigits text

def valueOf (numeral : List Char) : Cursor Condition :=
  match readNumber numeral with
  | .ok (condition, _) => return condition
  | .error cause => refuse cause

/-- Reads a number: finds where it ends, and then looks at the text from its start to there. -/
def number : Cursor Condition := do
  let start ← get
  if (← peek text) = some '-' then move text 1
  passUnsigned text
  let numeral ← since text start
  valueOf numeral

def word : Cursor String := do
  let start ← get
  match ← peek text with
  | none => refuse .wordExpected
  | some c =>
    if isWordStart c then
      move text c.utf8Size
      passWhile text isWordChar Char.utf8Size
      let word ← since text start
      return String.ofList word
    else refuse .wordExpected

def scanner : Scanner Cursor where
  rest := rest text
  position := get
  atEnd := do
    let offset ← get
    return decide (utf8Length text ≤ offset)
  skipBlanks := passBlanks text
  pass := pass text
  passKeyword := passKeyword text
  string := string text
  number := number text
  word := word text
  refuse := refuse
  nested inner := inner

end Tokens

/-! ### Words -/

section Agreement

variable {text cs : List Char} {offset : Nat}

theorem implements_word : (implements text).Rel (word text) readWord := by
  intro offset cs h
  change Agrees text ((word text).run offset) (readWord cs)
  rw [word, run_bind_ok (run_get offset), run_bind_ok (run_peek h)]
  cases cs with
  | nil => exact agrees_refuse trivial
  | cons c cs =>
    unfold readWord word?
    by_cases hc : isWordStart c = true
    · simp only [List.head?_cons, hc, if_true]
      obtain ⟨hrun, hrest⟩ := run_passWhile (p := isWordChar) (fun _ _ => rfl) h.cons
      have hword :
          Before text offset (c :: cs.takeWhile isWordChar ++ cs.dropWhile isWordChar) := by
        rwa [List.cons_append, List.takeWhile_append_dropWhile]
      have hsince := run_since hword
      rw [utf8Length_cons, ← Nat.add_assoc] at hsince
      rw [run_bind_ok (run_move_char h), run_bind_ok hrun, run_bind_ok hsince]
      exact agrees_ok hrest
    · simp only [List.head?_cons, hc]
      exact agrees_refuse trivial

/-! ### Strings -/

def readBody (quote : Char) : Reader (List Char) := fun cs =>
  match quoted? quote cs with
  | some parts => .ok parts
  | none => .error .unterminatedString

theorem readBody_quote (quote : Char) (cs : List Char) :
    readBody quote (quote :: cs) = .ok ([], cs) := by
  unfold readBody quoted?
  simp

theorem readBody_plain {quote c : Char} (hquote : c ≠ quote) (hescape : c ≠ '\\')
    (cs : List Char) :
    readBody quote (c :: cs) = (fun parts => (c :: parts.1, parts.2)) <$> readBody quote cs := by
  rw [readBody, readBody, quoted?.eq_def]
  simp only [hquote, hescape, if_false]
  cases quoted? quote cs with
  | none => rfl
  | some parts => rfl

theorem readBody_escape {quote : Char} (hquote : '\\' ≠ quote) (escaped : Char)
    (cs : List Char) :
    readBody quote ('\\' :: escaped :: cs) =
      (fun parts => (unescape escaped ++ parts.1, parts.2)) <$> readBody quote cs := by
  rw [readBody, readBody, quoted?.eq_def]
  simp only [hquote, if_false, if_true]
  cases quoted? quote cs with
  | none => rfl
  | some parts => rfl

theorem readBody_single {quote : Char} (hquote : '\\' ≠ quote) :
    readBody quote ['\\'] = .error .unterminatedString := by
  unfold readBody quoted?
  simp [hquote]

theorem agrees_stringBody {quote : Char} {rounds : Nat} (hrounds : cs.length ≤ rounds)
    (h : Before text offset cs) :
    Agrees text ((stringBody text quote rounds).run offset) (readBody quote cs) := by
  induction rounds generalizing cs offset with
  | zero =>
    rw [List.eq_nil_of_length_eq_zero (Nat.le_zero.mp hrounds)]
    exact agrees_refuse trivial
  | succ rounds ih =>
    rw [stringBody]
    cases cs with
    | nil =>
      rw [run_bind_ok (run_next_nil h)]
      exact agrees_refuse trivial
    | cons c cs =>
      rw [List.length_cons] at hrounds
      rw [run_bind_ok (run_next_cons h)]
      simp only
      by_cases hquote : c = quote
      · rw [if_pos hquote, hquote, readBody_quote]
        exact agrees_ok (hquote ▸ h.cons)
      · rw [if_neg hquote]
        by_cases hescape : c = '\\'
        · subst hescape
          rw [if_pos rfl]
          cases cs with
          | nil =>
            rw [run_bind_ok (run_next_nil h.cons), readBody_single hquote]
            exact agrees_refuse trivial
          | cons escaped cs =>
            rw [List.length_cons] at hrounds
            rw [run_bind_ok (run_next_cons h.cons), readBody_escape hquote]
            exact (ih (by omega) h.cons.cons).map (unescape escaped ++ ·)
        · rw [if_neg hescape, readBody_plain hquote hescape]
          exact (ih (by omega) h.cons).map (c :: ·)

theorem readString_eq_map {quote : Char} (h : quote = '"' ∨ quote = '\'') (cs : List Char) :
    readString (quote :: cs) =
      (fun parts => (.literal (.string (String.ofList parts.1)), parts.2)) <$>
        readBody quote cs := by
  rw [readString, if_pos h, readBody]
  cases quoted? quote cs with
  | none => rfl
  | some parts => rfl

theorem implements_string : (implements text).Rel (string text) readString := by
  intro offset cs h
  change Agrees text ((string text).run offset) (readString cs)
  rw [string, run_bind_ok (run_peek h)]
  cases cs with
  | nil => exact agrees_refuse trivial
  | cons quote cs =>
    simp only [List.head?_cons]
    by_cases hquote : quote = '"' ∨ quote = '\''
    · have hsize : quote.utf8Size = 1 := by
        rcases hquote with rfl | rfl <;> rfl
      obtain ⟨hmove, hbody⟩ := run_move_one hsize h
      rw [if_pos hquote, run_bind_ok hmove, readString_eq_map hquote]
      exact (agrees_stringBody hbody.suffix.length_le hbody).map fun value =>
        Condition.literal (.string (String.ofList value))
    · rw [if_neg hquote, readString, if_neg hquote]
      exact agrees_refuse trivial

/-! ### Numbers -/

/-- The part of a text that is looked at as a number without sign, and what follows it. -/
def spanUnsigned (cs : List Char) : List Char × List Char :=
  match cs.dropWhile Char.isDigit with
  | '.' :: after =>
    (cs.takeWhile Char.isDigit ++ '.' :: after.takeWhile Char.isDigit, after.dropWhile Char.isDigit)
  | rest => (cs.takeWhile Char.isDigit, rest)

theorem spanUnsigned_point {after : List Char} (h : cs.dropWhile Char.isDigit = '.' :: after) :
    spanUnsigned cs = (cs.takeWhile Char.isDigit ++ '.' :: after.takeWhile Char.isDigit,
      after.dropWhile Char.isDigit) := by
  rw [spanUnsigned, h]
  rfl

theorem spanUnsigned_whole (h : (cs.dropWhile Char.isDigit).head? ≠ some '.') :
    spanUnsigned cs = (cs.takeWhile Char.isDigit, cs.dropWhile Char.isDigit) := by
  unfold spanUnsigned
  split
  · rename_i after hpoint
    exact (h (by rw [hpoint]; rfl)).elim
  · rfl

theorem spanUnsigned_append (cs : List Char) :
    (spanUnsigned cs).1 ++ (spanUnsigned cs).2 = cs := by
  have hcs : cs.takeWhile Char.isDigit ++ cs.dropWhile Char.isDigit = cs :=
    List.takeWhile_append_dropWhile
  by_cases hpoint : (cs.dropWhile Char.isDigit).head? = some '.'
  · obtain ⟨after, hafter⟩ := List.head?_eq_some_iff.mp hpoint
    rw [spanUnsigned_point hafter, List.append_assoc, List.cons_append,
      List.takeWhile_append_dropWhile, ← hafter, hcs]
  · rw [spanUnsigned_whole hpoint, hcs]

theorem takeWhile_takeWhile_self (p : Char → Bool) (cs : List Char) :
    (cs.takeWhile p).takeWhile p = cs.takeWhile p :=
  List.takeWhile_eq_self_iff.mpr all_of_mem_takeWhile

theorem dropWhile_takeWhile_self (p : Char → Bool) (cs : List Char) :
    (cs.takeWhile p).dropWhile p = [] :=
  List.dropWhile_eq_nil_iff.mpr all_of_mem_takeWhile

/-- How a number is read is seen from its part of the text. -/
theorem readUnsigned_span (negative : Bool) (cs : List Char) :
    readUnsigned negative cs =
      (fun found => (found.1, (spanUnsigned cs).2)) <$>
        readUnsigned negative (spanUnsigned cs).1 := by
  by_cases hpoint : (cs.dropWhile Char.isDigit).head? = some '.'
  · obtain ⟨after, hafter⟩ := List.head?_eq_some_iff.mp hpoint
    have hends : Ends Char.isDigit ('.' :: after.takeWhile Char.isDigit) :=
      ends_cons_iff.mpr (by decide)
    simp only [spanUnsigned_point hafter, readUnsigned, hafter,
      takeWhile_run all_of_mem_takeWhile hends, dropWhile_run all_of_mem_takeWhile hends,
      takeWhile_takeWhile_self]
    split
    · rfl
    · rfl
  · simp only [spanUnsigned_whole hpoint, readUnsigned, takeWhile_takeWhile_self,
      dropWhile_takeWhile_self]
    split
    · rename_i after hafter
      exact (hpoint (by rw [hafter]; rfl)).elim
    · split
      · rfl
      · split
        · rfl
        · rfl

theorem located_of_readUnsigned {negative : Bool} {cause : SyntaxError}
    (h : readUnsigned negative cs = .error cause) : Located text cause := by
  unfold readUnsigned at h
  simp only at h
  split at h
  · split at h
    · cases h
    · cases h
      trivial
  · split at h
    · cases h
      trivial
    · split at h
      · cases h
      · cases h
        trivial

theorem utf8Size_of_isDigit {c : Char} (h : c.isDigit = true) : 1 = c.utf8Size := by
  have hrange := isDigit_iff.mp h
  refine (Char.utf8Size_eq_one_iff.mpr ?_).symm
  rw [UInt32.le_iff_toNat_le]
  exact hrange.2.trans (by decide)

theorem run_passDigits (h : Before text offset cs) :
    (passDigits text).run offset =
        .ok ((), offset + utf8Length (cs.takeWhile Char.isDigit)) ∧
      Before text (offset + utf8Length (cs.takeWhile Char.isDigit)) (cs.dropWhile Char.isDigit) :=
  run_passWhile (fun _ => utf8Size_of_isDigit) h

theorem run_passUnsigned (h : Before text offset cs) :
    (passUnsigned text).run offset = .ok ((), offset + utf8Length (spanUnsigned cs).1) := by
  obtain ⟨hrun, hrest⟩ := run_passDigits h
  rw [passUnsigned, run_bind_ok hrun, run_bind_ok (run_peek hrest)]
  by_cases hpoint : (cs.dropWhile Char.isDigit).head? = some '.'
  · obtain ⟨after, hafter⟩ := List.head?_eq_some_iff.mp hpoint
    rw [hafter] at hrest
    obtain ⟨hmove, hfraction⟩ := run_move_one rfl hrest
    rw [if_pos hpoint, run_bind_ok hmove, (run_passDigits hfraction).1, spanUnsigned_point hafter,
      utf8Length_append, Nat.add_assoc, Nat.add_assoc]
    rfl
  · rw [if_neg hpoint, spanUnsigned_whole hpoint]
    rfl

theorem agrees_valueOf {negative : Bool} {numeral : List Char}
    (hvalue : readNumber numeral = readUnsigned negative (spanUnsigned cs).1)
    (h : Before text offset (spanUnsigned cs).2) :
    Agrees text ((valueOf numeral).run offset) (readUnsigned negative cs) := by
  rw [valueOf, hvalue, readUnsigned_span negative cs]
  cases hread : readUnsigned negative (spanUnsigned cs).1 with
  | ok found => exact agrees_ok h
  | error cause => exact agrees_refuse (located_of_readUnsigned hread)

theorem spanUnsigned_head (h : cs.head? ≠ some '-') : (spanUnsigned cs).1.head? ≠ some '-' := by
  intro hhead
  apply h
  rw [← spanUnsigned_append cs, List.head?_append, hhead, Option.some_or]

theorem implements_number : (implements text).Rel (number text) readNumber := by
  intro offset cs h
  change Agrees text ((number text).run offset) (readNumber cs)
  rw [number, run_bind_ok (run_get offset), run_bind_ok (run_peek h)]
  by_cases hsign : cs.head? = some '-'
  · obtain ⟨tail, rfl⟩ := List.head?_eq_some_iff.mp hsign
    obtain ⟨hmove, htail⟩ := run_move_one rfl h
    have hnumeral : Before text offset ('-' :: (spanUnsigned tail).1 ++ (spanUnsigned tail).2) := by
      rwa [List.cons_append, spanUnsigned_append]
    have hlength : offset + 1 + utf8Length (spanUnsigned tail).1 =
        offset + utf8Length ('-' :: (spanUnsigned tail).1) := Nat.add_assoc _ _ _
    rw [if_pos hsign, run_bind_ok hmove, run_bind_ok (run_passUnsigned htail), hlength,
      run_bind_ok (run_since hnumeral), readNumber_negative]
    exact agrees_valueOf (readNumber_negative _) hnumeral.append
  · have hnumeral : Before text offset ((spanUnsigned cs).1 ++ (spanUnsigned cs).2) := by
      rwa [spanUnsigned_append]
    rw [if_neg hsign, run_bind_ok (run_passUnsigned h), run_bind_ok (run_since hnumeral),
      readNumber_of_ne hsign]
    exact agrees_valueOf (readNumber_of_ne (spanUnsigned_head hsign)) hnumeral.append

end Agreement

end EdgeTemplate.Condition.Cursor
