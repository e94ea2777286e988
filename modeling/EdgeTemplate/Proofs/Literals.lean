import EdgeTemplate.Proofs.Grammar

/-!
# Reading literals and paths

The readers of quoted strings, numbers and paths take a leaf of the grammar off the front of a text,
and they take a given leaf wherever neither a character of a word nor a point follows it.
-/
namespace EdgeTemplate.Condition

open Text Outcome

variable {cs rest : List Char} {condition : Condition} {size : Nat}

/-! ### Strings -/

theorem unescape_of_mem {c d : Char} (h : (c, d) ∈ escapes) : unescape c = [d] := by
  simp only [escapes, List.mem_cons, List.not_mem_nil, or_false, Prod.mk.injEq] at h
  rcases h with ⟨rfl, rfl⟩ | ⟨rfl, rfl⟩ | ⟨rfl, rfl⟩ | ⟨rfl, rfl⟩ | ⟨rfl, rfl⟩ | ⟨rfl, rfl⟩ <;> rfl

theorem unescape_of_not_mem {c : Char} (h : ∀ d, (c, d) ∉ escapes) : unescape c = ['\\', c] := by
  unfold unescape
  split
  · exact (h '\n' (by decide)).elim
  · exact (h '\t' (by decide)).elim
  · exact (h '\r' (by decide)).elim
  · exact (h '\\' (by decide)).elim
  · exact (h '"' (by decide)).elim
  · exact (h '\'' (by decide)).elim
  · rfl

theorem Quoted.unescape {quote c : Char} {cs value : List Char} (h : Quoted quote cs value) :
    Quoted quote ('\\' :: c :: cs) (Condition.unescape c ++ value) := by
  by_cases hc : ∃ d, (c, d) ∈ escapes
  · obtain ⟨d, hd⟩ := hc
    rw [unescape_of_mem hd]
    exact .escape hd h
  · rw [unescape_of_not_mem (not_exists.mp hc)]
    exact .kept (not_exists.mp hc) h

theorem quoted?_sound {quote : Char} {value : List Char}
    (h : quoted? quote cs = some (value, rest)) :
    ∃ inner, cs = inner ++ quote :: rest ∧ Quoted quote inner value := by
  fun_induction quoted? quote cs generalizing value with
  | case1 => cases h
  | case2 cs =>
    obtain ⟨rfl, rfl⟩ := Prod.mk.inj (Option.some.inj h)
    exact ⟨[], rfl, .nil⟩
  | case3 => cases h
  | case4 hb c cs ih =>
    obtain ⟨⟨value, rest⟩, hrec, hpair⟩ := Option.map_eq_some_iff.mp h
    obtain ⟨rfl, rfl⟩ := Prod.mk.inj hpair
    obtain ⟨inner, rfl, hinner⟩ := ih hrec
    exact ⟨_, rfl, hinner.unescape⟩
  | case5 c cs hc hb ih =>
    obtain ⟨⟨value, rest⟩, hrec, hpair⟩ := Option.map_eq_some_iff.mp h
    obtain ⟨rfl, rfl⟩ := Prod.mk.inj hpair
    obtain ⟨inner, rfl, hinner⟩ := ih hrec
    exact ⟨_, rfl, .plain hc hb hinner⟩

theorem quoted?_complete {quote : Char} (hquote : quote ≠ '\\') {inner value : List Char}
    (h : Quoted quote inner value) (rest : List Char) :
    quoted? quote (inner ++ quote :: rest) = some (value, rest) := by
  induction h with
  | nil =>
    unfold quoted?
    simp
  | plain hc hb _ ih =>
    unfold quoted?
    simp [hc, hb, ih]
  | escape hd _ ih =>
    unfold quoted?
    simp [Ne.symm hquote, ih, unescape_of_mem hd]
  | kept hd _ ih =>
    unfold quoted?
    simp [Ne.symm hquote, ih, unescape_of_not_mem hd]

/-! ### Numbers -/

/-- Reads a number whose sign has been read. -/
def readUnsigned (negative : Bool) : Reader Condition := fun cs =>
  let whole := cs.takeWhile Char.isDigit
  match cs.dropWhile Char.isDigit with
  | '.' :: rest =>
    let fraction := rest.takeWhile Char.isDigit
    let digits := whole ++ fraction
    let value :=
      if digits.isEmpty then none
      else Binary64.ofDecimal? negative (Nat.ofDigitChars 10 digits 0) (-(fraction.length : Int))
    match value with
    | some value => .ok (.literal (.number (.float value)), rest.dropWhile Char.isDigit)
    | none => .error (.badNumber (sign negative ++ whole ++ '.' :: fraction))
  | rest =>
    if whole.isEmpty then .error .numberExpected
    else if h : Number.fitsWord (signed negative whole) = true then
      .ok (.literal (.number (.int (signed negative whole) (Number.bounded_of_fitsWord h))), rest)
    else .error (.badNumber (sign negative ++ whole))

theorem readNumber_negative (cs : List Char) : readNumber ('-' :: cs) = readUnsigned true cs := rfl

theorem readNumber_of_ne (h : cs.head? ≠ some '-') : readNumber cs = readUnsigned false cs := by
  unfold readNumber
  split
  rename_i negative unsigned hsign
  split at hsign
  · simp at h
  · obtain ⟨rfl, rfl⟩ := Prod.mk.inj hsign
    rfl

theorem readUnsigned_sound {negative : Bool} (hsign : negative = true ∨ ¬ Ends Char.isDigit cs)
    (h : readUnsigned negative cs = .ok (condition, rest)) :
    ∃ digits value, sign negative ++ cs = digits ++ rest ∧ Numeral digits value ∧
      condition = .literal (.number value) := by
  have hwhole : Digits (cs.takeWhile Char.isDigit) := all_of_mem_takeWhile
  have hsplit : cs.takeWhile Char.isDigit ++ cs.dropWhile Char.isDigit = cs :=
    List.takeWhile_append_dropWhile
  unfold readUnsigned at h
  simp only at h
  split at h
  · rename_i after hafter
    split at h
    · rename_i value hvalue
      obtain ⟨rfl, rfl⟩ := Prod.mk.inj (Except.ok.inj h)
      split at hvalue
      · cases hvalue
      · rename_i hdigits
        have hne : cs.takeWhile Char.isDigit ≠ [] ∨
            negative = true ∧ after.takeWhile Char.isDigit ≠ [] := by
          by_cases hw : cs.takeWhile Char.isDigit = []
          · refine .inr ⟨?_, by simpa [hw] using hdigits⟩
            apply hsign.resolve_right
            intro hdigit
            apply hdigit
            have := ends_dropWhile Char.isDigit cs
            rwa [show cs.dropWhile Char.isDigit = cs by simpa [hw] using hsplit] at this
          · exact .inl hw
        have hnumeral : Numeral (sign negative ++ cs.takeWhile Char.isDigit ++
            '.' :: after.takeWhile Char.isDigit) (.float value) :=
          .float hwhole all_of_mem_takeWhile hne hvalue
        refine ⟨_, _, ?_, hnumeral, rfl⟩
        conv_lhs => rw [← hsplit, hafter]
        simp
    · cases h
  · split at h
    · cases h
    · rename_i hne
      split at h
      · rename_i hfits
        obtain ⟨rfl, rfl⟩ := Prod.mk.inj (Except.ok.inj h)
        refine ⟨_, _, ?_, .int (by simpa using hne) hwhole hfits, rfl⟩
        rw [List.append_assoc, hsplit]
      · cases h

/-- A character that would lengthen a word, a path or a number before it. -/
def lengthens (c : Char) : Bool :=
  isWordChar c || c == '.'

theorem ends_word (h : Ends lengthens rest) : Ends isWordChar rest :=
  h.mono fun c hc => by simp [lengthens, hc]

theorem ends_digit (h : Ends lengthens rest) : Ends Char.isDigit rest :=
  h.mono fun c hc => by simp [lengthens, isWordChar_of_isDigit hc]

theorem readUnsigned_int {negative : Bool} {digits : List Char} (hne : digits ≠ [])
    (hdigits : Digits digits) (hfits : Number.fitsWord (signed negative digits) = true)
    (hrest : Ends lengthens rest) :
    readUnsigned negative (digits ++ rest) =
      .ok (.literal (.number (.int (signed negative digits) (Number.bounded_of_fitsWord hfits))),
        rest) := by
  unfold readUnsigned
  simp only [takeWhile_run hdigits (ends_digit hrest), dropWhile_run hdigits (ends_digit hrest)]
  split
  · simp [Ends, lengthens] at hrest
  · simp [hne, hfits]

theorem readUnsigned_float {negative : Bool} {whole fraction : List Char} {value : Binary64}
    (hwhole : Digits whole) (hfraction : Digits fraction) (hne : whole ≠ [] ∨ fraction ≠ [])
    (hvalue : Binary64.ofDecimal? negative (Nat.ofDigitChars 10 (whole ++ fraction) 0)
      (-(fraction.length : Int)) = some value)
    (hrest : Ends lengthens rest) :
    readUnsigned negative (whole ++ '.' :: (fraction ++ rest)) =
      .ok (.literal (.number (.float value)), rest) := by
  have hpoint : Ends Char.isDigit ('.' :: (fraction ++ rest)) := ends_cons_iff.mpr (by decide)
  have hempty : (whole ++ fraction).isEmpty = false := by
    rcases hne with h | h <;> simp [h]
  unfold readUnsigned
  simp only [takeWhile_run hwhole hpoint, dropWhile_run hwhole hpoint,
    takeWhile_run hfraction (ends_digit hrest), dropWhile_run hfraction (ends_digit hrest), hempty,
    hvalue, Bool.false_eq_true, if_false]

theorem Digits.exists_cons {digits : List Char} (hne : digits ≠ []) (h : Digits digits) :
    ∃ c tail, digits = c :: tail ∧ c.isDigit = true := by
  obtain ⟨c, tail, rfl⟩ := List.exists_cons_of_ne_nil hne
  exact ⟨c, tail, rfl, h c (by simp)⟩

theorem Numeral.exists_cons {digits : List Char} {value : Number} (h : Numeral digits value) :
    ∃ c tail, digits = c :: tail ∧ (c = '-' ∨ c.isDigit = true) := by
  cases h with
  | @int negative digits hne hdigits _ =>
    cases negative with
    | true => exact ⟨'-', digits, rfl, .inl rfl⟩
    | false =>
      obtain ⟨c, tail, rfl, hc⟩ := Digits.exists_cons hne hdigits
      exact ⟨c, tail, rfl, .inr hc⟩
  | @float negative whole fraction value hwhole _ hne _ =>
    cases negative with
    | true => exact ⟨'-', whole ++ '.' :: fraction, rfl, .inl rfl⟩
    | false =>
      obtain ⟨c, tail, rfl, hc⟩ := Digits.exists_cons (hne.resolve_right (by simp)) hwhole
      exact ⟨c, tail ++ '.' :: fraction, rfl, .inr hc⟩

theorem readNumber_digits {digits : List Char} (hne : digits ≠ []) (h : Digits digits) :
    readNumber (digits ++ rest) = readUnsigned false (digits ++ rest) := by
  apply readNumber_of_ne
  obtain ⟨c, tail, rfl, hc⟩ := Digits.exists_cons hne h
  rintro hminus
  rw [List.cons_append, List.head?_cons, Option.some.injEq] at hminus
  subst hminus
  exact absurd hc (by decide)

theorem readNumber_complete {digits : List Char} {value : Number} (h : Numeral digits value)
    (hrest : Ends lengthens rest) :
    readNumber (digits ++ rest) = .ok (.literal (.number value), rest) := by
  cases h with
  | @int negative digits hne hdigits hfits =>
    have hread := readUnsigned_int hne hdigits hfits hrest
    cases negative with
    | true => exact hread
    | false => exact (readNumber_digits hne hdigits).trans hread
  | @float negative whole fraction value hwhole hfraction hne hvalue =>
    have hread := readUnsigned_float hwhole hfraction (hne.imp_right And.right) hvalue hrest
    rw [List.append_assoc, List.append_assoc, List.cons_append]
    cases negative with
    | true => exact hread
    | false => exact (readNumber_digits (hne.resolve_right (by simp)) hwhole).trans hread

theorem readNumber_sound {c : Char} (hc : c = '-' ∨ c.isDigit = true)
    (h : readNumber (c :: cs) = .ok (condition, rest)) :
    ∃ digits value, c :: cs = digits ++ rest ∧ Numeral digits value ∧
      condition = .literal (.number value) := by
  by_cases hminus : c = '-'
  · subst hminus
    rw [readNumber_negative] at h
    exact readUnsigned_sound (.inl rfl) h
  · rw [readNumber_of_ne (by simpa using hminus)] at h
    refine readUnsigned_sound (.inr ?_) h
    simp [ends_cons_iff, hc.resolve_left hminus]

/-! ### Paths -/

theorem readWord_eq_ok_iff {word : String} :
    readWord cs = .ok (word, rest) ↔
      ∃ w, cs = w ++ rest ∧ Word w ∧ Ends isWordChar rest ∧ word = String.ofList w := by
  unfold readWord
  cases h : word? cs with
  | none =>
    simp only [reduceCtorEq, false_iff, not_exists]
    rintro w ⟨hcs, hw, hends, -⟩
    rw [word?_eq_some_iff.mpr ⟨hcs, hw, hends⟩] at h
    cases h
  | some pair =>
    obtain ⟨w, after⟩ := pair
    obtain ⟨hcs, hw, hends⟩ := word?_eq_some_iff.mp h
    constructor
    · intro h
      obtain ⟨rfl, rfl⟩ := Prod.mk.inj (Except.ok.inj h)
      exact ⟨w, hcs, hw, hends, rfl⟩
    · rintro ⟨w', hcs', hw', hends', rfl⟩
      rw [word?_eq_some_iff.mpr ⟨hcs', hw', hends'⟩] at h
      obtain ⟨rfl, rfl⟩ := Prod.mk.inj (Option.some.inj h)
      rfl

theorem run_passIf (test : List Char → Option (List Char)) (cs : List Char) :
    (passIf test).run cs = .ok ((test cs).isSome, (test cs).getD cs) := by
  simp only [passIf, StateT.run]
  cases test cs with
  | none => rfl
  | some after => rfl

theorem passIf_eq_ok_iff {test : List Char → Option (List Char)} {found : Bool} :
    (passIf test).run cs = .ok (found, rest) ↔
      found = true ∧ test cs = some rest ∨ found = false ∧ test cs = none ∧ rest = cs := by
  rw [run_passIf]
  cases htest : test cs with
  | none => simp [eq_comm]
  | some after => simp [eq_comm]

theorem pass_eq_ok_iff {literal : List Char} {found : Bool} :
    ((plain size).pass literal).run cs = .ok (found, rest) ↔
      found = true ∧ cs = literal ++ rest ∨
        found = false ∧ literal.isPrefixOf? cs = none ∧ rest = cs := by
  rw [plain, passIf_eq_ok_iff, List.isPrefixOf?_eq_some_iff_append_eq, eq_comm (a := cs)]

theorem run_pass_append (literal rest : List Char) :
    ((plain size).pass literal).run (literal ++ rest) = .ok (true, rest) :=
  pass_eq_ok_iff.mpr (.inl ⟨rfl, rfl⟩)

theorem run_pass_none {literal : List Char} (h : literal.isPrefixOf? cs = none) :
    ((plain size).pass literal).run cs = .ok (false, cs) :=
  pass_eq_ok_iff.mpr (.inr ⟨rfl, h, rfl⟩)

theorem nextSegment_eq_ok {segment : Option String}
    (h : (plain size).nextSegment.run cs = .ok (segment, rest)) :
    (segment = none ∧ rest = cs) ∨ ∃ word, Word word ∧ cs = '.' :: word ++ rest ∧
      Ends isWordChar rest ∧ segment = some (String.ofList word) := by
  obtain ⟨found, after, hpass, hnext⟩ := run_bind_eq_ok_iff.mp h
  rcases pass_eq_ok_iff.mp hpass with ⟨rfl, rfl⟩ | ⟨rfl, -, rfl⟩
  · rw [if_pos rfl] at hnext
    obtain ⟨found, last, hread, hend⟩ := run_bind_eq_ok_iff.mp hnext
    obtain ⟨rfl, rfl⟩ := Prod.mk.inj (Except.ok.inj hend)
    obtain ⟨word, rfl, hword, hends, rfl⟩ := readWord_eq_ok_iff.mp hread
    exact .inr ⟨word, hword, rfl, hends, rfl⟩
  · obtain ⟨rfl, rfl⟩ := Prod.mk.inj (Except.ok.inj hnext)
    exact .inl ⟨rfl, rfl⟩

theorem nextSegment_complete {word : List Char} (hword : Word word) (hrest : Ends isWordChar rest) :
    (plain size).nextSegment.run ('.' :: word ++ rest) = .ok (some (String.ofList word), rest) := by
  have hread : (plain size).word.run (word ++ rest) = .ok (String.ofList word, rest) :=
    readWord_eq_ok_iff.mpr ⟨word, rfl, hword, hrest, rfl⟩
  refine (run_bind_ok (run_pass_append ['.'] (word ++ rest)) _).trans ?_
  rw [if_pos rfl, run_bind_ok hread]
  rfl

theorem nextSegment_stop (hrest : Ends lengthens rest) :
    (plain size).nextSegment.run rest = .ok (none, rest) := by
  have hpoint : ['.'].isPrefixOf? rest = none := by
    cases rest with
    | nil => rfl
    | cons c rest =>
      have hc : '.' ≠ c := by
        rintro rfl
        simp [Ends, lengthens] at hrest
      simp [List.isPrefixOf?, hc]
  rw [Scanner.nextSegment, run_bind_ok (run_pass_none hpoint)]
  rfl

theorem segments_sound {rounds : Nat} {segments : List String}
    (h : (collect (plain size).nextSegment rounds).run cs = .ok (segments, rest)) :
    ∃ words : List (List Char), (∀ word ∈ words, Word word) ∧
      cs = words.flatMap (fun word => '.' :: word) ++ rest ∧
      segments = words.map String.ofList := by
  refine collect_induction (Q := fun cs segments rest => ∃ words : List (List Char),
    (∀ word ∈ words, Word word) ∧ cs = words.flatMap (fun word => '.' :: word) ++ rest ∧
      segments = words.map String.ofList) ?_ ?_ ?_ h
  · intro cs
    exact ⟨[], by simp⟩
  · intro cs rest hstop
    rcases nextSegment_eq_ok hstop with ⟨-, rfl⟩ | ⟨_, -, -, -, hnone⟩
    · exact ⟨[], by simp⟩
    · cases hnone
  · rintro cs segment mid segments rest hnext ⟨words, hwords, rfl, rfl⟩
    rcases nextSegment_eq_ok hnext with ⟨hnone, -⟩ | ⟨word, hword, rfl, -, hsegment⟩
    · cases hnone
    · obtain rfl := Option.some.inj hsegment
      exact ⟨word :: words, List.forall_mem_cons.mpr ⟨hword, hwords⟩, by simp, rfl⟩

theorem path_sound (h : (plain size).path.run cs = .ok (condition, rest)) :
    ∃ first others, cs = first ++ (others.flatMap (fun word => '.' :: word) ++ rest) ∧
      Word first ∧ Ends isWordChar (others.flatMap (fun word => '.' :: word) ++ rest) ∧
      (∀ word ∈ others, Word word) ∧
      condition = .path ((first :: others).map String.ofList) := by
  obtain ⟨segment, tail, hfirst, h⟩ := run_bind_eq_ok_iff.mp h
  obtain ⟨segments, after, hothers, h⟩ := run_bind_eq_ok_iff.mp h
  obtain ⟨rfl, rfl⟩ := Prod.mk.inj (Except.ok.inj h)
  obtain ⟨first, rfl, hword, hends, rfl⟩ := readWord_eq_ok_iff.mp hfirst
  obtain ⟨others, hwords, rfl, rfl⟩ := segments_sound hothers
  exact ⟨first, others, rfl, hword, hends, hwords, rfl⟩

theorem ends_segments {others : List (List Char)} (hrest : Ends lengthens rest) :
    Ends isWordChar (others.flatMap (fun word => '.' :: word) ++ rest) := by
  apply flatMap_append_of_parts
  · intro word _ tail
    exact ends_cons_iff.mpr (by decide)
  · exact ends_word hrest

theorem path_complete {first : List Char} {others : List (List Char)} (hfirst : Word first)
    (hothers : ∀ word ∈ others, Word word) (hrest : Ends lengthens rest) :
    (plain size).path.run (first ++ (others.flatMap (fun word => '.' :: word) ++ rest)) =
      .ok (.path ((first :: others).map String.ofList), rest) := by
  have hword : (plain size).word.run
      (first ++ (others.flatMap (fun word => '.' :: word) ++ rest)) =
      .ok (String.ofList first, others.flatMap (fun word => '.' :: word) ++ rest) :=
    readWord_eq_ok_iff.mpr ⟨first, rfl, hfirst, ends_segments hrest, rfl⟩
  have hread : (readMany (plain size).rest (plain size).nextSegment).run
      (others.flatMap (fun word => '.' :: word) ++ rest) =
      .ok (others.map String.ofList, rest) := by
    refine readMany_complete (Ends isWordChar) ?_ ?_ (by simp) (ends_word hrest)
      (nextSegment_stop hrest)
    · intro word hword tail htail
      exact nextSegment_complete (hothers word hword) htail
    · intro word _ tail
      exact ends_cons_iff.mpr (by decide)
  rw [Scanner.path, run_bind_ok hword, run_bind_ok hread]
  rfl

/-! ### Leaves -/

theorem readString_sound (h : readString cs = .ok (condition, rest)) :
    ∃ text, cs = text ++ rest ∧ Leaf text condition := by
  unfold readString at h
  split at h
  · cases h
  · rename_i quote cs
    split at h
    · rename_i hquote
      split at h
      · rename_i value after hread
        obtain ⟨rfl, rfl⟩ := Prod.mk.inj (Except.ok.inj h)
        obtain ⟨inner, rfl, hinner⟩ := quoted?_sound hread
        exact ⟨quote :: (inner ++ [quote]), by simp, .string hquote hinner⟩
      · cases h
    · cases h

theorem readString_complete {quote : Char} {inner value : List Char}
    (hquote : quote = '"' ∨ quote = '\'') (hinner : Quoted quote inner value) :
    readString (quote :: (inner ++ [quote]) ++ rest) =
      .ok (.literal (.string (String.ofList value)), rest) := by
  have hne : quote ≠ '\\' := by
    rcases hquote with rfl | rfl <;> decide
  rw [List.cons_append, List.append_assoc, List.singleton_append, readString, if_pos hquote,
    quoted?_complete hne hinner]

theorem unexpected_ne_ok : (plain size).unexpected.run cs ≠ .ok (condition, rest) := by
  cases cs with
  | nil => exact nofun
  | cons c cs => exact nofun

theorem leaf_sound {c : Char} {tail : List Char}
    (h : ((plain size).leaf c).run (c :: tail) = .ok (condition, rest)) :
    ∃ text, c :: tail = text ++ rest ∧ Leaf text condition := by
  unfold Scanner.leaf at h
  split at h
  · exact readString_sound h
  split at h
  · rename_i hnumber
    obtain ⟨digits, value, hcs, hnumeral, rfl⟩ := readNumber_sound hnumber h
    exact ⟨digits, hcs, .number hnumeral⟩
  obtain ⟨found, after, hkeyword, h⟩ := run_bind_eq_ok_iff.mp h
  rcases passIf_eq_ok_iff.mp hkeyword with ⟨rfl, htrue⟩ | ⟨rfl, htrue, rfl⟩
  · obtain ⟨rfl, rfl⟩ := Prod.mk.inj (Except.ok.inj h)
    exact ⟨_, (dropKeyword?_eq_some_iff.mp htrue).1, .bool true⟩
  obtain ⟨found, after, hkeyword, h⟩ := run_bind_eq_ok_iff.mp h
  rcases passIf_eq_ok_iff.mp hkeyword with ⟨rfl, hfalse⟩ | ⟨rfl, hfalse, rfl⟩
  · obtain ⟨rfl, rfl⟩ := Prod.mk.inj (Except.ok.inj h)
    exact ⟨_, (dropKeyword?_eq_some_iff.mp hfalse).1, .bool false⟩
  simp only [Bool.false_eq_true, if_false] at h
  split at h
  · obtain ⟨first, others, hcs, hword, hends, hothers, rfl⟩ := path_sound h
    have hne : ∀ value, dropKeyword? (boolWord value) (c :: tail) = none →
        first ≠ boolWord value := by
      rintro value hnone rfl
      rw [dropKeyword?_eq_some_iff.mpr ⟨hcs, hends⟩] at hnone
      cases hnone
    exact ⟨_, by rw [hcs, List.append_assoc],
      .path hword (hne true htrue) (hne false hfalse) hothers⟩
  · exact (unexpected_ne_ok h).elim

theorem Leaf.exists_cons {text : List Char} (h : Leaf text condition) :
    ∃ c tail, text = c :: tail ∧ (c = '"' ∨ c = '\'' ∨ c = '-' ∨ isWordChar c = true) := by
  cases h with
  | @string quote cs value hquote _ =>
    refine ⟨quote, cs ++ [quote], rfl, ?_⟩
    rcases hquote with h | h <;> simp [h]
  | number h =>
    obtain ⟨c, tail, rfl, hc⟩ := h.exists_cons
    exact ⟨c, tail, rfl, .inr (.inr (hc.imp_right isWordChar_of_isDigit))⟩
  | bool value => cases value <;> exact ⟨_, _, rfl, by decide⟩
  | @path first others hfirst _ _ _ =>
    obtain ⟨c, tail, rfl, hc, _⟩ := hfirst
    exact ⟨c, _, rfl, by simp [isWordChar_of_isWordStart hc]⟩

theorem Leaf.exists_start {text : List Char} (h : Leaf text condition) :
    ∃ c tail, text = c :: tail ∧ isBlank c = false ∧ c ∉ ['!', '(', '='] := by
  obtain ⟨c, tail, rfl, hc⟩ := h.exists_cons
  refine ⟨c, tail, rfl, ?_, ?_⟩
  · rcases hc with rfl | rfl | rfl | hword
    · decide
    · decide
    · decide
    · exact isBlank_eq_false (toNat_of_isWordChar hword)
  · intro hmark
    simp only [List.mem_cons, List.not_mem_nil, or_false] at hmark
    rcases hmark with rfl | rfl | rfl <;> revert hc <;> decide

theorem run_passKeyword {keyword : List Char} {found : Option (List Char)}
    (h : dropKeyword? keyword cs = found) :
    ((plain size).passKeyword keyword).run cs = .ok (found.isSome, found.getD cs) := by
  rw [plain, run_passIf, h]

theorem not_literal_of_isWordStart {c : Char} (hc : isWordStart c = true) :
    ¬ (c = '"' ∨ c = '\'') ∧ ¬ (c = '-' ∨ c.isDigit = true) := by
  constructor
  · rintro (rfl | rfl) <;> revert hc <;> decide
  · rintro (rfl | hd)
    · revert hc
      decide
    · rw [isDigit_of_isWordStart hc] at hd
      cases hd

theorem leaf_complete {c : Char} {tail : List Char} (h : Leaf (c :: tail) condition)
    (hrest : Ends lengthens rest) :
    ((plain size).leaf c).run (c :: tail ++ rest) = .ok (condition, rest) := by
  generalize htext : c :: tail = text at h
  cases h with
  | string hquote hinner =>
    obtain ⟨rfl, rfl⟩ := List.cons.inj htext
    rw [Scanner.leaf, if_pos hquote]
    exact readString_complete hquote hinner
  | number hnumeral =>
    have hread := readNumber_complete hnumeral hrest
    obtain ⟨d, others, hcons, hd⟩ := hnumeral.exists_cons
    obtain ⟨rfl, rfl⟩ := List.cons.inj (htext.trans hcons)
    have hquote : ¬ (c = '"' ∨ c = '\'') := by
      rintro (rfl | rfl) <;> revert hd <;> decide
    rw [Scanner.leaf, if_neg hquote, if_pos hd]
    exact hread
  | bool value =>
    have hword := ends_word hrest
    cases value with
    | true =>
      have htrue : dropKeyword? (boolWord true) (boolWord true ++ rest) = some rest :=
        dropKeyword?_eq_some_iff.mpr ⟨rfl, hword⟩
      obtain ⟨rfl, rfl⟩ := List.cons.inj htext
      rw [Scanner.leaf, if_neg (by decide), if_neg (by decide), run_bind_ok (run_passKeyword htrue)]
      rfl
    | false =>
      have htrue : dropKeyword? (boolWord true) (boolWord false ++ rest) = none :=
        dropKeyword?_word (isWordChar_boolWord true) (isWordChar_boolWord false) hword (by decide)
      have hfalse : dropKeyword? (boolWord false) (boolWord false ++ rest) = some rest :=
        dropKeyword?_eq_some_iff.mpr ⟨rfl, hword⟩
      obtain ⟨rfl, rfl⟩ := List.cons.inj htext
      rw [Scanner.leaf, if_neg (by decide), if_neg (by decide), run_bind_ok (run_passKeyword htrue)]
      exact run_bind_ok (run_passKeyword hfalse) _
  | @path first others hfirst htrue hfalse hothers =>
    have hread : (plain size).path.run _ = _ := path_complete hfirst hothers hrest
    have hnone : ∀ value, first ≠ boolWord value →
        dropKeyword? (boolWord value)
          (first ++ (others.flatMap (fun word => '.' :: word) ++ rest)) = none :=
      fun value hne => dropKeyword?_word (isWordChar_boolWord value) hfirst.isWordChar
        (ends_segments hrest) hne
    have hkeyTrue := hnone true htrue
    have hkeyFalse := hnone false hfalse
    obtain ⟨d, word, rfl, hc, _⟩ := hfirst
    obtain ⟨rfl, rfl⟩ := List.cons.inj htext
    obtain ⟨hquote, hnumber⟩ := not_literal_of_isWordStart hc
    rw [List.append_assoc, Scanner.leaf, if_neg hquote, if_neg hnumber,
      run_bind_ok (run_passKeyword hkeyTrue)]
    refine (run_bind_ok (run_passKeyword hkeyFalse) _).trans ?_
    rw [if_neg (by simp), if_pos hc]
    exact hread

end EdgeTemplate.Condition
