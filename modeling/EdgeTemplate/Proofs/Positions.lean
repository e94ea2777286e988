import EdgeTemplate.Proofs.RoundTrip
import EdgeTemplate.Proofs.Tokens

/-!
# Positions in conditions

Phrases are read with a cursor as they are read without one. The cursor is at a boundary between two
characters after every move, whatever characters the text has, and where an error names a position
and what stands there, it does stand there.
-/
namespace EdgeTemplate.Condition

open Text Outcome

namespace Cursor

def parse (text : List Char) : Except Halt Condition :=
  ((scanner text).whole maxNesting).run' 0

/-! ### Steps -/

section Steps

variable {text cs : List Char} {offset : Nat}

theorem implements_passIf {test : List Char → Option (List Char)} {literal : List Char}
    (htest : ∀ cs tail, test cs = some tail → cs = literal ++ tail) :
    (implements text).Rel (passIf text test literal) (Condition.passIf test) := by
  intro offset cs h
  rw [Condition.run_passIf]
  rcases run_passIf (htest cs) h with ⟨tail, htail, hbefore, hrun⟩ | ⟨hnone, hrun⟩
  · rw [hrun, htail]
    exact agrees_ok hbefore
  · rw [hrun, hnone]
    exact agrees_ok h

theorem run_skipBlanks (h : Before text offset cs) :
    ∃ after, (scanner text).skipBlanks.run offset = .ok ((), after) ∧
      Before text after (skipBlanks cs) := by
  obtain ⟨hrun, hafter⟩ := run_passWhile (p := isBlank) (fun _ _ => rfl) h
  exact ⟨_, hrun, hafter⟩

theorem implements_unexpected :
    (implements text).Rel (scanner text).unexpected (plain (utf8Length text)).unexpected := by
  intro offset cs h
  have hrest : (scanner text).rest.run offset = .ok (cs, offset) := run_rest h
  rw [Scanner.unexpected, run_bind_ok hrest]
  cases cs with
  | nil => exact agrees_refuse trivial
  | cons c cs =>
    have hoffset : utf8Length text - utf8Length (c :: cs) = offset := by
      have := h.offset_eq
      omega
    change Agrees text ((refuse (.unexpected c offset)).run offset)
      (.error (.unexpected c (utf8Length text - utf8Length (c :: cs))))
    rw [hoffset]
    exact agrees_refuse ⟨cs, h⟩

theorem implements_finish :
    (implements text).Rel (scanner text).finish (plain (utf8Length text)).finish := by
  intro offset cs h
  obtain ⟨after, hblanks, hbefore⟩ := run_skipBlanks h
  have hoffset : after + utf8Length (skipBlanks cs) = utf8Length text := hbefore.offset_eq
  have hrest : (scanner text).rest.run after = .ok (skipBlanks cs, after) := run_rest hbefore
  have hatEnd : (scanner text).atEnd.run after =
      .ok (decide (utf8Length text ≤ after), after) := rfl
  rw [Scanner.finish, run_bind_ok hblanks, run_bind_ok hatEnd, Scanner.finish,
    run_bind_ok (Condition.run_skipBlanks cs)]
  by_cases hend : skipBlanks cs = []
  · rw [hend, utf8Length_nil] at hoffset
    rw [hend] at hbefore ⊢
    rw [if_pos (decide_eq_true (by omega))]
    exact agrees_ok hbefore
  · have hpos : utf8Length (skipBlanks cs) ≠ 0 := fun hzero =>
      hend (utf8Length_eq_zero_iff.mp hzero)
    have hposition : utf8Length text - utf8Length (skipBlanks cs) = after := by omega
    have hplain : (plain (utf8Length text)).atEnd.run (skipBlanks cs) =
        .ok (false, skipBlanks cs) := by
      change Except.ok ((skipBlanks cs).isEmpty, skipBlanks cs) = _
      rw [List.isEmpty_eq_false_iff.mpr hend]
    rw [if_neg (by simpa using (by omega : ¬ utf8Length text ≤ after)),
      run_bind_ok hrest, run_bind_ok hplain]
    change Agrees text ((refuse (.leftover (skipBlanks cs) after)).run after)
      (.error (.leftover (skipBlanks cs) (utf8Length text - utf8Length (skipBlanks cs))))
    rw [hposition]
    exact agrees_refuse ⟨hend, hbefore⟩

end Steps

theorem implements_scanner (text : List Char) :
    (scanner text).Simulated (implements text) (plain (utf8Length text)) where
  rest := by
    intro offset cs h
    change Agrees text ((rest text).run offset) (.ok (cs, cs))
    rw [run_rest h]
    exact agrees_ok h
  skipBlanks := by
    intro offset cs h
    obtain ⟨after, hrun, hafter⟩ := run_skipBlanks h
    rw [hrun]
    exact agrees_ok hafter
  pass literal := implements_passIf fun _ _ hfound =>
    (List.isPrefixOf?_eq_some_iff_append_eq.mp hfound).symm
  passKeyword keyword := implements_passIf fun _ _ hfound => (dropKeyword?_eq_some_iff.mp hfound).1
  string := implements_string
  number := implements_number
  word := implements_word
  unexpected := implements_unexpected
  unclosed _ _ _ := agrees_refuse trivial
  finish := implements_finish

/-! ### Phrases -/

theorem implements_unary (text : List Char) (budget : Nat) :
    (implements text).Rel ((scanner text).unary budget)
        ((plain (utf8Length text)).unary budget) ∧
      (implements text).Rel ((scanner text).grouped budget)
        ((plain (utf8Length text)).grouped budget) := by
  have hscanner := implements_scanner text
  induction budget with
  | zero =>
    have hrefuse : (implements text).Rel ((scanner text).refuse (α := Condition) .nestedTooDeep)
        ((plain (utf8Length text)).refuse .nestedTooDeep) := fun _ _ _ => agrees_refuse trivial
    exact ⟨hscanner.negationOr hrefuse hrefuse, hrefuse⟩
  | succ budget ih =>
    have hgrouped := hscanner.group ih.1
    have hnegated := (implements text).bind ih.1 fun operand =>
      (implements text).pure (Condition.not operand)
    exact ⟨hscanner.negationOr hnegated hgrouped, hgrouped⟩

theorem run_phrase {text front rest : List Char} (htext : text = front ++ rest) (budget : Nat)
    (kind : Phrase) :
    (∃ condition part after, rest = part ++ after ∧
      ((scanner text).phrase budget kind).run (utf8Length front) =
        .ok (condition, utf8Length (front ++ part))) ∨
    ∃ cause, ((scanner text).phrase budget kind).run (utf8Length front) =
      .error (.refused cause) := by
  obtain ⟨hunary, hgrouped⟩ := implements_unary text budget
  have hphrase := (implements_scanner text).phrase hunary hgrouped kind
  rcases (hphrase _ rest ⟨front, htext, rfl⟩).eq_or_eq with
    ⟨⟨condition, offset⟩, ⟨_, left⟩, hrun, hread, rfl, consumed, hconsumed, rfl⟩ |
    ⟨_, cause, hrun, -, rfl, -⟩
  · obtain ⟨part, blanks, rfl, -, -⟩ := takes_phrase _ _ _ _ _ _ hread
    refine .inl ⟨condition, part ++ blanks, left, by simp, ?_⟩
    have hsame : consumed ++ left = front ++ (part ++ blanks) ++ left := by
      rw [← hconsumed, htext]
      simp
    rw [hrun, List.append_cancel_right hsame]
  · exact .inr ⟨cause, hrun⟩

/-! ### Whole texts -/

theorem agrees_whole (text : List Char) :
    Agrees text (((scanner text).whole maxNesting).run 0)
      (((plain (utf8Length text)).whole maxNesting).run text) :=
  (implements_scanner text).whole (implements_unary text maxNesting).1 0 text ⟨[], rfl, rfl⟩

theorem parse_eq (text : List Char) : parse text = (Condition.parse text).mapError .refused := by
  rw [parse, Condition.parse, StateT.run'_eq, StateT.run'_eq]
  rcases (agrees_whole text).eq_or_eq with ⟨⟨condition, offset⟩, ⟨_, rest⟩, hrun, hread, rfl, -⟩ |
    ⟨_, cause, hrun, hread, rfl, -⟩
  · rw [hrun, hread]
    rfl
  · rw [hrun, hread]
    rfl

theorem located_of_parse {text : List Char} {cause : SyntaxError}
    (h : Condition.parse text = .error cause) : Located text cause := by
  have herror := map_eq_error_iff.mp h
  rcases (agrees_whole text).eq_or_eq with ⟨_, _, _, hread, -⟩ | ⟨_, other, -, hread, -, hlocated⟩
  · cases herror.symm.trans hread
  · cases herror.symm.trans hread
    exact hlocated

end Cursor

/-! ### Messages -/

/-- A number at the end of a text can be told from what precedes it. -/
theorem append_digits_inj {cs ds : List Char} {m n : Nat}
    (h : cs ++ ' ' :: Nat.toDigits 10 m = ds ++ ' ' :: Nat.toDigits 10 n) : cs = ds ∧ m = n := by
  -- Read from the end, the digits are all there is up to the blank.
  have hdigits : ∀ (front : List Char) (k : Nat),
      (front ++ ' ' :: Nat.toDigits 10 k).reverse.takeWhile Char.isDigit =
        (Nat.toDigits 10 k).reverse := by
    intro front k
    rw [List.reverse_append, List.reverse_cons, List.append_assoc]
    apply takeWhile_run
    · intro c hc
      exact Json.isDigit_toDigits k c (List.mem_reverse.mp hc)
    · exact ends_cons_iff.mpr (by decide)
  have hsame : Nat.toDigits 10 m = Nat.toDigits 10 n := by
    rw [← List.reverse_inj, ← hdigits cs m, ← hdigits ds n, h]
  refine ⟨List.append_cancel_right (hsame ▸ h), ?_⟩
  have hvalue := congrArg (Nat.ofDigitChars 10 · 0) hsame
  simpa only [Nat.ofDigitChars_ten_toDigits] using hvalue

/-- The wording of an error that names what it found at a position. -/
def positionMessage (found : String) (offset : Nat) : String :=
  s!"unexpected `{found}` at offset {offset}"

theorem toList_positionMessage (found : String) (offset : Nat) :
    (positionMessage found offset).toList =
      "unexpected `".toList ++
        (found.toList ++ "` at offset".toList ++ ' ' :: Nat.toDigits 10 offset) := by
  change ("unexpected `" ++ found ++ "` at offset " ++ toString offset).toList = _
  simp

theorem positionMessage_inj {found other : String} {offset position : Nat}
    (h : positionMessage found offset = positionMessage other position) :
    found = other ∧ offset = position := by
  have hlists := congrArg String.toList h
  rw [toList_positionMessage, toList_positionMessage] at hlists
  obtain ⟨hfound, hoffset⟩ := append_digits_inj (List.append_cancel_left hlists)
  exact ⟨String.toList_inj.mp (List.append_cancel_right hfound), hoffset⟩

/-- The two errors that name a position can be told from all others by their wording. -/
theorem eq_of_message {cause : SyntaxError} {found : String} {offset : Nat}
    (h : cause.message = positionMessage found offset) :
    (∃ c, cause = .unexpected c offset ∧ found.toList = [c]) ∨
      cause = .leftover found.toList offset := by
  have hstart : cause.message.toList.take 12 = "unexpected `".toList := by
    rw [h, toList_positionMessage]
    exact List.take_left' rfl
  cases cause with
  | unexpected c position =>
    have hmessage :
        positionMessage (String.singleton c) position = positionMessage found offset := h
    obtain ⟨rfl, rfl⟩ := positionMessage_inj hmessage
    exact .inl ⟨c, rfl, by simp⟩
  | leftover rest position =>
    have hmessage :
        positionMessage (String.ofList rest) position = positionMessage found offset := h
    obtain ⟨rfl, rfl⟩ := positionMessage_inj hmessage
    exact .inr (by simp)
  | badNumber numeral =>
    change ("bad number `" ++ String.ofList numeral ++ "`").toList.take 12 = _ at hstart
    simp at hstart
  | endOfText => exact absurd hstart (by decide)
  | nestedTooDeep => exact absurd hstart (by decide)
  | closeExpected => exact absurd hstart (by decide)
  | stringExpected => exact absurd hstart (by decide)
  | quoteExpected => exact absurd hstart (by decide)
  | unterminatedString => exact absurd hstart (by decide)
  | numberExpected => exact absurd hstart (by decide)
  | wordExpected => exact absurd hstart (by decide)

/-- Reading keeps to the boundaries between characters. Where an error names a position and what it
found there, the position is the number of bytes of a prefix, and what was found comes right after
that prefix, up to the end if it is all that was left. A move of the cursor goes astray unless it
ends at a boundary; from every boundary a phrase is read up to a boundary, unless it is refused; and
on every text reading with the cursor is reading, so that it never goes astray. -/
theorem parse_positions (text : List Char) :
    (∀ cause (found : String) (offset : Nat), parse text = .error cause →
      cause.message = s!"unexpected `{found}` at offset {offset}" →
      ∃ front rest, text = front ++ rest ∧ utf8Length front = offset ∧ found.toList ≠ [] ∧
        found.toList <+: rest ∧
        ((∃ left position, cause = .leftover left position) → found.toList = rest)) ∧
    (∀ bytes offset after, (Cursor.move text bytes).run offset = .ok ((), after) ↔
      after = offset + bytes ∧ ∃ rest front, text = front ++ rest ∧ utf8Length front = after) ∧
    (∀ budget kind front rest, text = front ++ rest →
      (∃ condition part after, rest = part ++ after ∧
        ((Cursor.scanner text).phrase budget kind).run (utf8Length front) =
          .ok (condition, utf8Length (front ++ part))) ∨
      ∃ cause, ((Cursor.scanner text).phrase budget kind).run (utf8Length front) =
        .error (.refused cause)) ∧
    Cursor.parse text = (parse text).mapError .refused := by
  refine ⟨?_, fun _ _ _ => Cursor.run_move_iff, ?_, Cursor.parse_eq text⟩
  · intro cause found offset hparse hmessage
    have hlocated := Cursor.located_of_parse hparse
    rcases eq_of_message hmessage with ⟨c, rfl, hfound⟩ | rfl
    · obtain ⟨rest, front, htext, hfront⟩ := hlocated
      refine ⟨front, c :: rest, htext, hfront, by simp [hfound], by simp [hfound], ?_⟩
      rintro ⟨left, position, hleftover⟩
      cases hleftover
    · obtain ⟨hne, front, htext, hfront⟩ := hlocated
      exact ⟨front, found.toList, htext, hfront, hne, List.prefix_rfl, fun _ => rfl⟩
  · intro budget kind front rest htext
    exact Cursor.run_phrase htext budget kind

/-- A blank of three bytes and a string with a character of two bytes stand before what is left
over. A move into that character goes astray, but reading does not. -/
theorem parse_positions_wide :
    let text := ['\u3000', '\'', 'é', '\'', ' ', '#']
    parse text = .error (.leftover ['#'] 8) ∧
      (∃ front, text = front ++ ['#'] ∧ utf8Length front = 8) ∧
      (Cursor.move text 1).run 4 = .error (.astray 5) ∧
      (∃ condition part after, ['\'', 'é', '\'', ' ', '#'] = part ++ after ∧
        ((Cursor.scanner text).phrase 0 .unary).run 3 =
          .ok (condition, utf8Length ('\u3000' :: part))) ∧
      Cursor.parse text = .error (.refused (.leftover ['#'] 8)) := by
  intro text
  have hparse : parse text = .error (.leftover ['#'] 8) := rfl
  obtain ⟨hposition, -, hphrase, hcursor⟩ := parse_positions text
  refine ⟨hparse, ?_, rfl, ?_, ?_⟩
  · obtain ⟨front, rest, htext, hfront, -, -, hrest⟩ := hposition _ "#" 8 hparse rfl
    have hleft : ['#'] = rest := hrest ⟨_, _, rfl⟩
    exact ⟨front, hleft ▸ htext, hfront⟩
  · refine (hphrase 0 .unary ['\u3000'] _ rfl).resolve_right ?_
    rintro ⟨cause, hrefused⟩
    cases hrefused
  · rw [hcursor, hparse]
    rfl

end EdgeTemplate.Condition
