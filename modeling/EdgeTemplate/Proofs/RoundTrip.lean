import EdgeTemplate.Defines.Collect
import EdgeTemplate.Proofs.Insertion
import EdgeTemplate.Proofs.Reading

/-!
# Reading back what was written

Scalars and flat defines are written as JSON, and the reader takes exactly the written text off the
front of a longer one. A string ends at its closing quote, whatever follows; a number has to be
followed by something that does not continue it, which commas, blanks and brackets are. The compact
and the indented form differ in blanks only and are read as one form with blanks left open.
-/
namespace EdgeTemplate

namespace Json

open Text

variable {rest : List Char}

/-! ### Strings -/

theorem stringChar?_escape {letter c : Char} (h : (letter, c) ∈ writtenEscapes)
    (rest : List Char) : stringChar? ('\\' :: letter :: rest) = some (some c, rest) := by
  simp only [writtenEscapes, List.mem_cons, List.not_mem_nil, or_false, Prod.mk.injEq] at h
  rcases h with ⟨rfl, rfl⟩ | ⟨rfl, rfl⟩ | ⟨rfl, rfl⟩ | ⟨rfl, rfl⟩ | ⟨rfl, rfl⟩ | ⟨rfl, rfl⟩ |
    ⟨rfl, rfl⟩ <;> rfl

theorem hexDigit?_digitChar {digit : Nat} (h : digit < 16) :
    hexDigit? (Nat.digitChar digit) = some digit := by
  revert digit
  decide

theorem codeUnit?_digitChar {unit : Nat} (h : unit < 256) (rest : List Char) :
    codeUnit? ('0' :: '0' :: Nat.digitChar (unit / 16) :: Nat.digitChar (unit % 16) :: rest) =
      some (unit, rest) := by
  have hhigh : hexDigit? (Nat.digitChar (unit / 16)) = some (unit / 16) :=
    hexDigit?_digitChar (by omega)
  have hlow : hexDigit? (Nat.digitChar (unit % 16)) = some (unit % 16) :=
    hexDigit?_digitChar (by omega)
  have hzero : hexDigit? '0' = some 0 := by decide
  have hvalue : 16 * (unit / 16) + unit % 16 = unit := by omega
  simp [codeUnit?, hzero, hhigh, hlow, hvalue]

theorem stringChar?_control {c : Char} (h : isControl c = true) (rest : List Char) :
    stringChar? ('\\' :: 'u' :: '0' :: '0' :: Nat.digitChar (c.toNat / 16) ::
      Nat.digitChar (c.toNat % 16) :: rest) = some (some c, rest) := by
  have hlt : c.toNat < 32 := by simpa [isControl] using h
  have hhigh : isHighSurrogate c.toNat = false := by
    simp only [isHighSurrogate, Bool.and_eq_false_iff, decide_eq_false_iff_not]
    omega
  have hlow : isLowSurrogate c.toNat = false := by
    simp only [isLowSurrogate, Bool.and_eq_false_iff, decide_eq_false_iff_not]
    omega
  simp [stringChar?, escape?, unicodeEscape?, codeUnit?_digitChar (show c.toNat < 256 by omega),
    hhigh, hlow, Char.ofNat_toNat]

theorem stringChar?_plain {c : Char} (hquote : c ≠ '"') (hslash : c ≠ '\\')
    (hcontrol : isControl c = false) (rest : List Char) :
    stringChar? (c :: rest) = some (some c, rest) := by
  simp [stringChar?, hcontrol]

theorem stringChar?_writeChar (c : Char) (rest : List Char) :
    stringChar? (writeChar c ++ rest) = some (some c, rest) := by
  unfold writeChar
  split
  · rename_i escape hescape
    have hmem : escape ∈ writtenEscapes := List.mem_of_find?_eq_some hescape
    have hvalue : escape.2 = c := by simpa using List.find?_some hescape
    exact stringChar?_escape (hvalue ▸ hmem) rest
  · rename_i hnone
    have hother : ∀ escape ∈ writtenEscapes, escape.2 ≠ c := by simpa using hnone
    split
    · rename_i hcontrol
      exact stringChar?_control hcontrol rest
    · rename_i hcontrol
      exact stringChar?_plain (hother ('"', '"') (by decide)).symm
        (hother ('\\', '\\') (by decide)).symm (by simpa using hcontrol) rest

theorem writeChar_ne_nil (c : Char) : writeChar c ≠ [] := by
  unfold writeChar
  split
  · simp
  · split <;> simp

theorem stringBody?_write (cs rest : List Char) :
    stringBody? (cs.flatMap writeChar ++ '"' :: rest) = some (cs, rest) := by
  have hread : (readMany get stringChar?).run (cs.flatMap writeChar ++ '"' :: rest) =
      some (cs.map id, '"' :: rest) := by
    apply readMany_complete (fun _ => True)
    · intro c _ tail _
      exact stringChar?_writeChar c tail
    · intro c _ tail
      trivial
    · intro c _
      exact writeChar_ne_nil c
    · trivial
    · rfl
  rw [stringBody?, hread, List.map_id]
  rfl

/-! ### Numbers -/

def continues (c : Char) : Bool :=
  c.isDigit || c == '.' || c == 'e' || c == 'E'

theorem head?_toDigits_ne {n : Nat} (h : 0 < n) : (Nat.toDigits 10 n).head? ≠ some '0' := by
  induction n using Nat.strongRecOn with
  | ind n ih =>
    rw [Nat.toDigits_eq_if (by decide)]
    split
    · rename_i hlt
      have hdigit : ∀ digit < 10, 0 < digit → Nat.digitChar digit ≠ '0' := by decide
      simpa using hdigit n hlt h
    · have hrest := ih (n / 10) (by omega) (by omega)
      rwa [List.head?_append_of_ne_nil _ Nat.toDigits_ne_nil]

theorem isDigit_toDigits (n : Nat) : ∀ c ∈ Nat.toDigits 10 n, c.isDigit = true := by
  intro c hc
  exact Nat.isDigit_of_mem_toDigits (by decide) (by decide) hc

theorem exists_cons_toDigits (n : Nat) : ∃ c cs, Nat.toDigits 10 n = c :: cs :=
  List.exists_cons_of_ne_nil Nat.toDigits_ne_nil

namespace Numeral

theorem whole?_toDigits (n : Nat) (hrest : Ends Char.isDigit rest) :
    whole? (Nat.toDigits 10 n ++ rest) = some (Nat.toDigits 10 n, rest) := by
  have hdigits : digits? (Nat.toDigits 10 n ++ rest) = some (Nat.toDigits 10 n, rest) := by
    simp only [digits?, takeWhile_run (isDigit_toDigits n) hrest,
      dropWhile_run (isDigit_toDigits n) hrest]
    simp [Nat.toDigits_ne_nil]
  rw [whole?, hdigits, Option.filter_some]
  by_cases hn : n = 0
  · simp [hn]
  · simp [head?_toDigits_ne (Nat.pos_of_ne_zero hn)]

theorem fraction?_none (hrest : Ends continues rest) : fraction? rest = some ([], rest) := by
  unfold fraction?
  split
  · cases ends_cons_iff.mp hrest
  · rfl

theorem exponent?_none (hrest : Ends continues rest) : exponent? rest = some (none, rest) := by
  cases rest with
  | nil => rfl
  | cons c rest =>
    have hc : ¬ (c = 'e' ∨ c = 'E') := by
      rintro (rfl | rfl) <;> cases ends_cons_iff.mp hrest
    simp [exponent?, hc]

def ofSize (negative : Bool) (size : Nat) : Numeral :=
  { negative, whole := Nat.toDigits 10 size, fraction := [], exponent := none }

theorem read?_unsigned (n : Nat) (hrest : Ends continues rest) :
    read? (Nat.toDigits 10 n ++ rest) = some (ofSize false n, rest) := by
  have hdigit : Ends Char.isDigit rest := hrest.mono fun c hc => by simp [continues, hc]
  have hsign : ∀ cs, Nat.toDigits 10 n ++ rest ≠ '-' :: cs := by
    intro cs hcs
    obtain ⟨c, digits, hdigits⟩ := exists_cons_toDigits n
    rw [hdigits, List.cons_append, List.cons.injEq] at hcs
    have hc := isDigit_toDigits n c (by simp [hdigits])
    rw [hcs.1] at hc
    cases hc
  unfold read?
  split
  rename_i negative unsigned hparts
  split at hparts
  · rename_i cs hcs
    exact (hsign cs hcs).elim
  · obtain ⟨rfl, rfl⟩ := Prod.mk.inj hparts
    simp [whole?_toDigits n hdigit, fraction?_none hrest, exponent?_none hrest, ofSize]

theorem read?_negative (n : Nat) (hrest : Ends continues rest) :
    read? ('-' :: (Nat.toDigits 10 n ++ rest)) = some (ofSize true n, rest) := by
  have hdigit : Ends Char.isDigit rest := hrest.mono fun c hc => by simp [continues, hc]
  simp [read?, whole?_toDigits n hdigit, fraction?_none hrest, exponent?_none hrest, ofSize]

theorem toInt?_ofSize (n : Int) : (ofSize (n < 0) n.natAbs).toInt? = some n := by
  simp only [toInt?, ofSize, Nat.ofDigitChars_ten_toDigits, ne_eq, not_true_eq_false, or_self,
    if_false]
  by_cases hn : n < 0
  · have hsize : -(n.natAbs : Int) = n := by omega
    rw [if_pos (decide_eq_true hn), if_neg (by omega), hsize]
  · have hsize : (n.natAbs : Int) = n := by omega
    rw [if_neg (by simpa using hn), hsize]

theorem toNumber?_ofSize {n : Int} (h : Number.Bounded n) :
    (ofSize (n < 0) n.natAbs).toNumber? = some (.int n h) := by
  rw [toNumber?, toInt?_ofSize, Option.bind_some, Number.ofInt?, dif_pos h]

theorem read?_writeInt (n : Int) (hrest : Ends continues rest) :
    read? (Number.writeInt n ++ rest) = some (ofSize (n < 0) n.natAbs, rest) := by
  unfold Number.writeInt
  split
  · rename_i hn
    simpa [hn] using read?_negative n.natAbs hrest
  · rename_i hn
    simpa [hn] using read?_unsigned n.natAbs hrest

end Numeral

theorem exists_cons_writeInt (n : Int) :
    ∃ c cs, Number.writeInt n = c :: cs ∧ (c = '-' ∨ c.isDigit = true) := by
  unfold Number.writeInt
  split
  · exact ⟨'-', _, rfl, .inl rfl⟩
  · obtain ⟨c, digits, hdigits⟩ := exists_cons_toDigits n.natAbs
    exact ⟨c, digits, hdigits, .inr (isDigit_toDigits n.natAbs c (by simp [hdigits]))⟩

theorem ne_of_sign_or_digit {c other : Char} (h : c = '-' ∨ c.isDigit = true)
    (hother : other ≠ '-' ∧ other.isDigit = false) : c ≠ other := by
  rintro rfl
  rcases h with h | h
  · exact hother.1 h
  · rw [hother.2] at h
    cases h

theorem atom?_writeInt {n : Int} (h : Number.Bounded n) (hrest : Ends continues rest) :
    atom? (Number.writeInt n ++ rest) = some (number (.int n h), rest) := by
  have hname : (named.findSome? fun name =>
      (name.1.isPrefixOf? (Number.writeInt n ++ rest)).map (name.2, ·)) = none := by
    obtain ⟨c, cs, hcs, hc⟩ := exists_cons_writeInt n
    have hn : 'n' ≠ c := (ne_of_sign_or_digit hc (by decide)).symm
    have ht : 't' ≠ c := (ne_of_sign_or_digit hc (by decide)).symm
    have hf : 'f' ≠ c := (ne_of_sign_or_digit hc (by decide)).symm
    simp [hcs, named, boolWord, List.isPrefixOf?, hn, ht, hf]
  rw [atom?, hname]
  simp [Numeral.read?_writeInt n hrest, Numeral.toNumber?_ofSize h]

/-! ### Values -/

def Spaces (cs : List Char) : Prop :=
  ∀ c ∈ cs, isSpace c = true

theorem skipSpaces_append {blanks : List Char} (h : Spaces blanks) (cs : List Char) :
    skipSpaces (blanks ++ cs) = skipSpaces cs :=
  List.dropWhile_append_of_pos h

theorem skipSpaces_cons {c : Char} (h : isSpace c = false) (cs : List Char) :
    skipSpaces (c :: cs) = c :: cs := by
  simp [skipSpaces, h]

theorem value?_append {blanks : List Char} (h : Spaces blanks) (depth : Nat) (cs : List Char) :
    value? depth (blanks ++ cs) = value? depth cs := by
  rw [value?.eq_def, value?.eq_def depth cs]
  dsimp only
  rw [skipSpaces_append h]

theorem value?_eq_atom? {c : Char} (hspace : isSpace c = false) (harray : c ≠ '[')
    (hobject : c ≠ '{') (hstring : c ≠ '"') (depth : Nat) (cs : List Char) :
    value? depth (c :: cs) = atom? (c :: cs) := by
  rw [value?.eq_def]
  dsimp only
  rw [skipSpaces_cons hspace]
  split
  · rename_i h
    exact (harray (List.cons.inj h).1).elim
  · rename_i h
    exact (hobject (List.cons.inj h).1).elim
  · rename_i h
    exact (hstring (List.cons.inj h).1).elim
  · rfl

/-- The written form of a value is read as that value off the front of any text that goes on with
something else than a numeral does. -/
def ReadBack (depth : Nat) (value : Json) : Prop :=
  ∀ rest, Ends continues rest → value? depth (value.write ++ rest) = some (value, rest)

theorem readBack_bool (depth : Nat) (value : Bool) : ReadBack depth (.bool value) := by
  intro rest _
  cases value with
  | true => exact value?_eq_atom? (by decide) (by decide) (by decide) (by decide) depth _
  | false => exact value?_eq_atom? (by decide) (by decide) (by decide) (by decide) depth _

theorem readBack_int (depth : Nat) {n : Int} (h : Number.Bounded n) :
    ReadBack depth (.number (.int n h)) := by
  intro rest hrest
  rw [write, Number.write]
  obtain ⟨c, cs, hcs, hc⟩ := exists_cons_writeInt n
  have hspace : isSpace c = false := by
    simp only [isSpace, Bool.or_eq_false_iff, beq_eq_false_iff_ne]
    have hne : ∀ other, other ≠ '-' ∧ other.isDigit = false → c ≠ other :=
      fun _ => ne_of_sign_or_digit hc
    exact ⟨⟨⟨hne _ (by decide), hne _ (by decide)⟩, hne _ (by decide)⟩, hne _ (by decide)⟩
  rw [← atom?_writeInt h hrest, hcs, List.cons_append]
  exact value?_eq_atom? hspace (ne_of_sign_or_digit hc (by decide))
    (ne_of_sign_or_digit hc (by decide)) (ne_of_sign_or_digit hc (by decide)) depth _

theorem readBack_string (depth : Nat) (value : String) : ReadBack depth (.string value) := by
  intro rest _
  rw [write, writeQuoted, List.cons_append, List.cons_append, List.append_assoc, value?.eq_def]
  dsimp only
  rw [skipSpaces_cons (by decide)]
  simp [stringBody?_write]

/-! ### Objects -/

/-- The blanks that an object is set out with: before each field, after each colon and before the
closing bracket. -/
structure Layout where
  lead : List Char
  gap : List Char
  tail : List Char
  lead_spaces : Spaces lead
  gap_spaces : Spaces gap
  tail_spaces : Spaces tail

namespace Layout

def compact : Layout where
  lead := []
  gap := []
  tail := []
  lead_spaces := by simp [Spaces]
  gap_spaces := by simp [Spaces]
  tail_spaces := by simp [Spaces]

def indented : Layout where
  lead := ['\n', ' ', ' ']
  gap := [' ']
  tail := ['\n']
  lead_spaces := by simp [Spaces, isSpace]
  gap_spaces := by simp [Spaces, isSpace]
  tail_spaces := by simp [Spaces, isSpace]

variable (layout : Layout)

def writeField (field : String × Json) : List Char :=
  layout.lead ++ (writeQuoted field.1.toList ++ ':' :: (layout.gap ++ field.2.write))

def writeObject : List (String × Json) → List Char
  | [] => ['{', '}']
  | field :: fields =>
    '{' :: (layout.writeField field ++
      (fields.flatMap (fun field => ',' :: layout.writeField field) ++ (layout.tail ++ ['}'])))

end Layout

theorem intercalate_cons_eq_flatMap (mark first : List Char) (others : List (List Char)) :
    mark.intercalate (first :: others) = first ++ others.flatMap (mark ++ ·) := by
  induction others generalizing first with
  | nil => simp
  | cons next others ih => simp [List.intercalate_cons_cons, ih]

theorem writeFields_eq_map (fields : List (String × Json)) :
    writeFields fields = fields.map Layout.compact.writeField := by
  induction fields with
  | nil => rfl
  | cons field fields ih =>
    obtain ⟨key, value⟩ := field
    rw [writeFields, ih, writeField]
    rfl

theorem write_object (fields : List (String × Json)) :
    (object fields).write = Layout.compact.writeObject fields := by
  rw [write, writeFields_eq_map]
  cases fields with
  | nil => rfl
  | cons field fields =>
    rw [List.map_cons, intercalate_cons_eq_flatMap, List.flatMap_map]
    simp [Layout.writeObject, Layout.compact]

theorem writeIndented_eq (fields : List (String × Json)) :
    writeIndented fields = Layout.indented.writeObject fields := by
  cases fields with
  | nil => rfl
  | cons field fields =>
    rw [writeIndented, List.isEmpty_cons, List.map_cons, intercalate_cons_eq_flatMap,
      List.flatMap_map]
    simp [Layout.writeObject, Layout.writeField, Layout.indented]

/-! ### Reading objects -/

theorem skipSpaces_writeField (layout : Layout) (field : String × Json) (rest : List Char) :
    skipSpaces (layout.writeField field ++ rest) =
      '"' :: (field.1.toList.flatMap writeChar ++
        '"' :: ':' :: (layout.gap ++ (field.2.write ++ rest))) := by
  rw [Layout.writeField, List.append_assoc, skipSpaces_append layout.lead_spaces, writeQuoted]
  simp [skipSpaces_cons (show isSpace '"' = false by decide)]

theorem field?_writeField (layout : Layout) {depth : Nat} {field : String × Json}
    (hvalue : ReadBack depth field.2) (hrest : Ends continues rest) :
    field? (value? depth) (layout.writeField field ++ rest) = some (field, rest) := by
  have hkey := stringBody?_write field.1.toList (':' :: (layout.gap ++ (field.2.write ++ rest)))
  have hread : value? depth (layout.gap ++ (field.2.write ++ rest)) = some (field.2, rest) := by
    rw [value?_append layout.gap_spaces, hvalue rest hrest]
  rw [field?, skipSpaces_writeField]
  simp [List.isPrefixOf?, hkey, hread, skipSpaces_cons (show isSpace ':' = false by decide)]

theorem ends_tail (layout : Layout) (rest : List Char) :
    Ends continues (layout.tail ++ '}' :: rest) := by
  cases htail : layout.tail with
  | nil => exact ends_cons_iff.mpr (by decide)
  | cons c cs =>
    have hc : isSpace c = true := layout.tail_spaces c (by simp [htail])
    apply ends_cons_iff.mpr
    simp only [isSpace, Bool.or_eq_true, beq_iff_eq] at hc
    rcases hc with ((rfl | rfl) | rfl) | rfl <;> decide

/-- The fields of an object are read back in whatever layout they were written. -/
theorem items?_writeField (layout : Layout) {depth : Nat} {first : String × Json}
    {others : List (String × Json)} (hfirst : ReadBack depth first.2)
    (hothers : ∀ field ∈ others, ReadBack depth field.2) (rest : List Char) :
    items? (field? (value? depth)) '}' (layout.writeField first ++
      (others.flatMap (fun field => ',' :: layout.writeField field) ++
        (layout.tail ++ '}' :: rest))) = some (first :: others, rest) := by
  have hclose : skipSpaces (layout.tail ++ '}' :: rest) = '}' :: rest := by
    rw [skipSpaces_append layout.tail_spaces, skipSpaces_cons (by decide)]
  have hcomma : ∀ field ∈ others, ∀ tail,
      Ends continues ((',' :: layout.writeField field) ++ tail) :=
    fun _ _ _ => ends_cons_iff.mpr (by decide)
  have hmany : (readMany get (nextItem? (field? (value? depth)))).run
      (others.flatMap (fun field => ',' :: layout.writeField field) ++
        (layout.tail ++ '}' :: rest)) = some (others.map id, layout.tail ++ '}' :: rest) := by
    apply readMany_complete (Ends continues) _ hcomma
    · simp
    · exact ends_tail layout rest
    · change nextItem? _ (layout.tail ++ '}' :: rest) = _
      rw [nextItem?, hclose]
      rfl
    · intro field hfield tail htail
      change nextItem? _ (',' :: layout.writeField field ++ tail) = _
      rw [nextItem?, List.cons_append, skipSpaces_cons (by decide)]
      simp [field?_writeField layout (hothers field hfield) htail]
  have hfollow := flatMap_append_of_parts hcomma (ends_tail layout rest)
  rw [items?, skipSpaces_writeField]
  simp [List.isPrefixOf?, field?_writeField layout hfirst hfollow, hmany, hclose]

theorem mergeFields_eq_entries (fields : List (String × Json)) :
    mergeFields fields = (OrderedMap.ofList fields).entries := by
  induction fields using List.reverseRecOn with
  | nil => rfl
  | append_singleton fields field ih =>
    have hlast : mergeFields (fields ++ [field]) =
        Entries.put field.1 field.2 (mergeFields fields) := List.foldl_append
    rw [hlast, ih, OrderedMap.ofList_append_singleton]
    rfl

theorem mergeFields_of_nodup {fields : List (String × Json)}
    (h : (Entries.keys fields).Nodup) : mergeFields fields = fields := by
  have hmap : OrderedMap.ofList fields = ⟨fields, h⟩ := OrderedMap.ofList_entries ⟨fields, h⟩
  rw [mergeFields_eq_entries, hmap]

theorem value?_writeObject (layout : Layout) {depth : Nat} {fields : List (String × Json)}
    (hfields : ∀ field ∈ fields, ReadBack depth field.2) (hkeys : (Entries.keys fields).Nodup)
    (rest : List Char) :
    value? (depth + 1) (layout.writeObject fields ++ rest) = some (object fields, rest) := by
  have hmerge : mergeFields fields = fields := mergeFields_of_nodup hkeys
  cases fields with
  | nil => rfl
  | cons first others =>
    rw [List.forall_mem_cons] at hfields
    have hitems := items?_writeField layout hfields.1 hfields.2 rest
    have htext : layout.writeObject (first :: others) ++ rest =
        '{' :: (layout.writeField first ++
          (others.flatMap (fun field => ',' :: layout.writeField field) ++
            (layout.tail ++ '}' :: rest))) := by
      simp [Layout.writeObject]
    rw [htext, value?, skipSpaces_cons (by decide)]
    simp [hitems, hmerge]

theorem ofText?_eq_some {text : List Char} {value : Json}
    (h : value? maxDepth text = some (value, [])) : ofText? text = some value := by
  rw [ofText?, h]
  rfl

theorem ofText?_of_readBack {value : Json} (h : ReadBack maxDepth value) :
    ofText? value.write = some value := by
  apply ofText?_eq_some
  rw [← List.append_nil value.write]
  exact h [] ends_nil

end Json

/-! ### Scalars and defines -/

/-- A truth value, a string or an integer. -/
def Scalar.Whole : Scalar → Prop
  | .bool _ | .string _ | .number (.int _ _) => True
  | .number (.float _) => False

theorem Scalar.Whole.readBack {scalar : Scalar} (h : scalar.Whole) (depth : Nat) :
    Json.ReadBack depth scalar.toJson := by
  cases scalar with
  | bool value => exact Json.readBack_bool depth value
  | string value => exact Json.readBack_string depth value
  | number value =>
    cases value with
    | int n hn => exact Json.readBack_int depth hn
    | float x => exact h.elim

theorem Scalar.Whole.ofLoose_write {scalar : Scalar} (h : scalar.Whole) :
    Scalar.ofLoose scalar.toJson.write = scalar := by
  rw [Scalar.ofLoose, Json.ofText?_of_readBack (h.readBack _), Option.bind_some,
    Scalar.ofJson?_toJson, Option.getD_some]

namespace Defines

theorem keys_toFields (defines : Defines) :
    Entries.keys (toFields defines) = Entries.keys defines.entries := by
  simp [toFields, Entries.keys]

theorem ofFields_toFields (defines : Defines) : ofFields (toFields defines) = .ok defines := by
  have hfield : ∀ entry : String × Scalar, ofField (entry.1, entry.2.toJson) = .ok entry := by
    intro entry
    rw [ofField, Scalar.ofJson?_toJson]
  have hentries : (toFields defines).mapM ofField = .ok defines.entries := by
    rw [toFields, List.mapM_map]
    simp only [Function.comp_def, hfield]
    exact List.mapM_pure.trans (congrArg Except.ok (List.map_id defines.entries))
  rw [ofFields, hentries]
  exact congrArg Except.ok (OrderedMap.ofList_entries defines)

theorem ofText_writeObject (layout : Json.Layout) {defines : Defines}
    (h : ∀ entry ∈ defines.entries, entry.2.Whole) :
    ofText (String.ofList (layout.writeObject (toFields defines))) = .ok defines := by
  -- The object takes one level of nesting, whatever the limit is.
  obtain ⟨depth, hdepth⟩ : ∃ depth, Json.maxDepth = depth + 1 := ⟨_, rfl⟩
  have hfields : ∀ field ∈ toFields defines, Json.ReadBack depth field.2 := by
    intro field hfield
    obtain ⟨entry, hentry, rfl⟩ := List.mem_map.mp hfield
    exact (h entry hentry).readBack depth
  have hkeys : (Entries.keys (toFields defines)).Nodup := by
    rw [keys_toFields]
    exact defines.distinct
  have hvalue := Json.value?_writeObject layout hfields hkeys []
  rw [List.append_nil, ← hdepth] at hvalue
  rw [ofText, String.toList_ofList, Json.ofText?_eq_some hvalue]
  exact ofFields_toFields defines

/-- Whole scalars and defines that hold nothing else are read back from their written form: defines
from the compact and from the indented form, with their entries in order, and a scalar from its own
form alone. -/
theorem read_back_written :
    (∀ defines : Defines, (∀ entry ∈ defines.entries, entry.2.Whole) →
      ofText defines.toText = .ok defines ∧ ofText defines.toIndentedText = .ok defines) ∧
    ∀ scalar : Scalar, scalar.Whole → Scalar.ofLoose scalar.toJson.write = scalar := by
  refine ⟨?_, fun scalar h => h.ofLoose_write⟩
  intro defines h
  constructor
  · rw [toText, Json.toText, Json.write_object]
    exact ofText_writeObject .compact h
  · rw [toIndentedText, Json.writeIndented_eq]
    exact ofText_writeObject .indented h

/-- The greatest and the least integer, an empty key, and characters that have to be escaped. -/
theorem read_back_written_limits :
    let defines : Defines := .ofList
      [("b\"\\.\x01", .number (.int 18446744073709551615)),
        ("", .number (.int (-9223372036854775808))), ("é\t", .string "\n\\u0000"),
        ("a", .bool false)]
    ofText defines.toText = .ok defines ∧ ofText defines.toIndentedText = .ok defines ∧
      Scalar.ofLoose (Json.string "\n\\u0000").write = .string "\n\\u0000" := by
  intro defines
  have hentries : defines.entries =
      [("b\"\\.\x01", .number (.int 18446744073709551615)),
        ("", .number (.int (-9223372036854775808))), ("é\t", .string "\n\\u0000"),
        ("a", .bool false)] := rfl
  have hwhole : ∀ entry ∈ defines.entries, entry.2.Whole := by
    simp [hentries, Scalar.Whole]
  obtain ⟨hdefines, hscalar⟩ := read_back_written
  obtain ⟨hcompact, hindented⟩ := hdefines defines hwhole
  exact ⟨hcompact, hindented, hscalar (.string "\n\\u0000") trivial⟩

end Defines

end EdgeTemplate
