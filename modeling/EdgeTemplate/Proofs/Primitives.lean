import EdgeTemplate.Proofs.Comparison
import EdgeTemplate.Proofs.Lookup
import EdgeTemplate.Proofs.Parsing
import EdgeTemplate.Proofs.RoundTrip
import EdgeTemplate.Proofs.Typing

/-!
# Definitions and literals

A primitive is a truth value, a string or an integer of 64 bits. It can be defined under a key, and
it can be written as a literal in a condition. A comparison of a key with a literal looks up the one
primitive and reads the other, and it answers whether they are the same. Primitives of different
types do not compare.
-/
namespace EdgeTemplate

namespace Number

theorem fitsWord_toInt (value : Int64) : fitsWord value.toInt = true :=
  (fitsWord_iff _).mpr ⟨value.le_toInt, value.toInt_lt⟩

def ofInt64 (value : Int64) : Number :=
  .int value.toInt (bounded_of_fitsWord (fitsWord_toInt value))

theorem compare_ofInt64 (a b : Int64) :
    compare (ofInt64 a) (ofInt64 b) = Ord.compare a.toInt b.toInt := by
  rw [ofInt64, ofInt64, compare_int, if_neg]
  intro hmerged
  exact hmerged.1 ⟨fitsWord_toInt a, fitsWord_toInt b⟩

end Number

/-! ### Keys as paths -/

/-- A key that is a path in conditions: its segments are words, and the first of them is not the
word for a truth value. -/
structure Context.Nameable (key : String) : Prop where
  words : ∀ segment ∈ segments key, Text.Word segment.toList
  first : ∀ value, (segments key).head? ≠ some (String.ofList (Text.boolWord value))

namespace Condition

open Text Context

theorem leaf_key {key : String} (h : Nameable key) : Leaf key.toList (.path (segments key)) := by
  obtain ⟨first, others, hsplit⟩ := List.exists_cons_of_ne_nil (List.splitOn_ne_nil '.' key.toList)
  have hsegments : segments key = (first :: others).map String.ofList := by
    rw [segments, hsplit]
  have hkey : key.toList = first ++ others.flatMap fun word => '.' :: word := by
    calc key.toList
      _ = ['.'].intercalate (key.toList.splitOn '.') := (List.intercalate_splitOn '.').symm
      _ = first ++ others.flatMap (['.'] ++ ·) := by
        rw [hsplit, Json.intercalate_cons_eq_flatMap]
  have hword : ∀ word ∈ first :: others, Word word := by
    intro word hmem
    have hsegment : String.ofList word ∈ segments key := hsegments ▸ List.mem_map_of_mem hmem
    simpa using h.words _ hsegment
  have hfirst : ∀ value, first ≠ boolWord value := by
    intro value heq
    apply h.first value
    rw [hsegments, heq]
    rfl
  rw [hkey, hsegments]
  refine .path (hword first (by simp)) (hfirst true) (hfirst false) ?_
  intro word hmem
  exact hword word (List.mem_cons_of_mem _ hmem)

/-! ### Written integers -/

theorem signed_toDigits (n : Int) : signed (n < 0) (Nat.toDigits 10 n.natAbs) = n := by
  rw [signed, Nat.ofDigitChars_ten_toDigits]
  by_cases hn : n < 0
  · rw [if_pos (decide_eq_true hn)]
    omega
  · rw [if_neg (by simpa using hn)]
    omega

theorem writeInt_eq_sign_append (n : Int) :
    Number.writeInt n = sign (n < 0) ++ Nat.toDigits 10 n.natAbs := by
  by_cases hn : n < 0 <;> simp [Number.writeInt, sign, hn]

theorem numeral_writeInt {n : Int} (h : Number.fitsWord n = true) :
    Numeral (Number.writeInt n) (.int n (Number.bounded_of_fitsWord h)) := by
  have hsigned := signed_toDigits n
  have hnumeral := @Numeral.int (n < 0) (Nat.toDigits 10 n.natAbs) Nat.toDigits_ne_nil
    (Json.isDigit_toDigits n.natAbs) (hsigned.symm ▸ h)
  rw [← writeInt_eq_sign_append] at hnumeral
  simpa only [hsigned] using hnumeral

end Condition

/-! ### Primitives -/

/-- A value that can be defined and that has a literal. -/
inductive Primitive where
  | bool (value : Bool)
  | int (value : Int64)
  | string (value : String)
deriving DecidableEq

namespace Primitive

open Text

def toScalar : Primitive → Scalar
  | bool value => .bool value
  | int value => .number (.ofInt64 value)
  | string value => .string value

def toJson (primitive : Primitive) : Json :=
  primitive.toScalar.toJson

def type : Primitive → ValueType
  | bool _ => .bool
  | int _ => .number
  | string _ => .string

/-- The inside of a string in the given quotes: a backslash stands before that quote and before a
backslash, and all else is as it is. -/
def escape (quote : Char) (cs : List Char) : List Char :=
  cs.flatMap fun c => if c = quote ∨ c = '\\' then ['\\', c] else [c]

/-- The literal for a primitive, with the given quotes around a string. -/
def literal (quote : Char) : Primitive → List Char
  | bool value => boolWord value
  | int value => Number.writeInt value.toInt
  | string value => quote :: (escape quote value.toList ++ [quote])

/-- An escaped text stands for the text: after a backslash, a quote and a backslash stand for
themselves. -/
theorem quoted_escape {quote : Char} (hquote : quote = '"' ∨ quote = '\'') (cs : List Char) :
    Condition.Quoted quote (escape quote cs) cs := by
  induction cs with
  | nil => exact .nil
  | cons c cs ih =>
    rw [escape, List.flatMap_cons]
    by_cases hc : c = quote ∨ c = '\\'
    · have hself : (c, c) ∈ Condition.escapes := by
        rcases hc with rfl | rfl
        · rcases hquote with rfl | rfl <;> decide
        · decide
      rw [if_pos hc]
      exact .escape hself ih
    · rw [if_neg hc]
      rw [not_or] at hc
      exact .plain hc.1 hc.2 ih

theorem leaf_literal {quote : Char} (hquote : quote = '"' ∨ quote = '\'') (primitive : Primitive) :
    Condition.Leaf (primitive.literal quote) (.literal primitive.toJson) := by
  cases primitive with
  | bool value => exact .bool value
  | int value => exact .number (Condition.numeral_writeInt (Number.fitsWord_toInt value))
  | string value =>
    have hleaf := Condition.Leaf.string hquote (quoted_escape hquote value.toList)
    rwa [String.ofList_toList] at hleaf

theorem apply_eq_of_type {a b : Primitive} (h : a.type = b.type) :
    Relation.eq.apply a.toJson b.toJson = .ok (decide (a = b)) := by
  cases a with
  | bool a =>
    cases b with
    | bool b =>
      have hbool : (a == b) = decide (bool a = bool b) := by simp [beq_eq_decide]
      exact congrArg Except.ok hbool
    | int b => cases h
    | string b => cases h
  | int a =>
    cases b with
    | int b =>
      have hint : Relation.Between .eq a.toInt b.toInt ↔ int a = int b := by
        rw [int.injEq]
        exact Int64.toInt_inj
      have happly := Relation.apply_number .eq (.ofInt64 a) (.ofInt64 b)
      rw [Number.compare_ofInt64, Relation.holds_compare, decide_eq_decide.mpr hint] at happly
      exact happly
    | bool b => cases h
    | string b => cases h
  | string a =>
    cases b with
    | string b =>
      have hstring : (a == b) = decide (string a = string b) := by simp [beq_eq_decide]
      exact congrArg Except.ok hstring
    | bool b => cases h
    | int b => cases h

theorem apply_eq_of_type_ne {a b : Primitive} (h : a.type ≠ b.type) :
    Relation.eq.apply a.toJson b.toJson = .error (.mismatch .eq a.toJson b.toJson) := by
  cases a with
  | bool a =>
    cases b with
    | bool b => exact (h rfl).elim
    | int b => rfl
    | string b => rfl
  | int a =>
    cases b with
    | int b => exact (h rfl).elim
    | bool b => rfl
    | string b => rfl
  | string a =>
    cases b with
    | string b => exact (h rfl).elim
    | bool b => rfl
    | int b => rfl

end Primitive

/-! ### Comparing a key with a literal -/

namespace Condition

open Text Outcome Context

theorem evaluate_key_literal {context : Context} {key : String} {value literal : Json}
    {spelling text : List Char} {relation : Relation} (hkey : Nameable key)
    (hvalue : context.resolve (segments key) = some value)
    (hspelling : (spelling, relation) ∈ spellings) (htext : Leaf text (.literal literal)) :
    evaluate context (key.toList ++ ([' '] ++ spelling ++ ([' '] ++ text))) =
      Json.bool <$> relation.apply value literal := by
  have hspace : Blank [' '] := by decide
  have hleft : Derives .unary maxNesting ([] ++ key.toList) (.path (segments key)) :=
    .primary (.leaf (by decide) (leaf_key hkey))
  have hright : Derives .unary maxNesting ([' '] ++ text) (.literal literal) :=
    .primary (.leaf hspace htext)
  have hparse := parse_of_derives
    (.conjunction (.comparison (.compare hleft hspace hspelling hright)))
  rw [List.nil_append] at hparse
  rw [evaluate, hparse]
  -- The text is read, and only its tree is left to evaluate.
  change eval context _ = _
  simp only [eval, hvalue]
  exact bind_pure_comp Json.bool (relation.apply value literal)

/-- A comparison of a key with a literal answers whether the primitive that is defined under the key
is the one that is written, provided that no comparable key is defined later. If the two are of
different types, the comparison fails and names both. -/
theorem evaluate_key_eq_literal (defines : Defines) (front back : List (String × Scalar))
    (key : String) (stored written : Primitive) (quote : Char)
    (hentries : defines.entries = front ++ (key, stored.toScalar) :: back)
    (hlater : ∀ later ∈ back, ¬ Comparable (segments later.1) (segments key))
    (hkey : Nameable key) (hquote : quote = '"' ∨ quote = '\'') :
    let answer := evaluate (build defines)
      (key.toList ++ " == ".toList ++ written.literal quote)
    (stored = written → answer = .ok (.bool true)) ∧
    (stored.type = written.type → stored ≠ written → answer = .ok (.bool false)) ∧
    (stored.type ≠ written.type →
      answer = .error (.mismatch .eq stored.toJson written.toJson)) := by
  intro answer
  -- A later definition of the same key would be comparable too.
  have hnew : key ∉ Entries.keys back := by
    intro hmem
    obtain ⟨later, hback, rfl⟩ := List.mem_map.mp hmem
    exact hlater later hback (.inl (List.prefix_refl _))
  have hvalue : (build defines).resolve (segments key) = some stored.toJson :=
    (resolve_segments_iff hentries hnew).mpr hlater
  have hspelling : (['=', '='], Relation.eq) ∈ spellings := by decide
  have hanswer : answer = Json.bool <$> Relation.eq.apply stored.toJson written.toJson := by
    rw [← evaluate_key_literal hkey hvalue hspelling (Primitive.leaf_literal hquote written)]
    simp [answer]
  rw [hanswer]
  refine ⟨?_, ?_, ?_⟩
  · intro heq
    rw [Primitive.apply_eq_of_type (congrArg Primitive.type heq), decide_eq_true heq]
    rfl
  · intro htype hne
    rw [Primitive.apply_eq_of_type htype, decide_eq_false hne]
    rfl
  · intro htype
    rw [Primitive.apply_eq_of_type_ne htype]
    rfl

/-- The key continues an earlier one and has a segment `true`. Its string has a quote of either kind
and ends in a backslash, and the least integer is no string. -/
theorem evaluate_key_eq_literal_escaped :
    let defines : Defines :=
      .ofList [("a", .bool true), ("a.true", .string "it's \"C:\\"), ("b", .bool false)]
    evaluate (build defines) "a.true == 'it\\'s \"C:\\\\'".toList = .ok (.bool true) ∧
      evaluate (build defines) "a.true == \"it's 'C:\\\\\"".toList = .ok (.bool false) ∧
      evaluate (build defines) "a.true == -9223372036854775808".toList =
        .error (.mismatch .eq (.string "it's \"C:\\") (.number (.int (-9223372036854775808)))) := by
  intro defines
  have hentries : defines.entries =
      [("a", .bool true)] ++ ("a.true", .string "it's \"C:\\") :: [("b", .bool false)] := by decide
  have hlater : ∀ later ∈ [("b", Scalar.bool false)],
      ¬ Comparable (segments later.1) (segments "a.true") := by decide
  have hkey : Nameable "a.true" := ⟨by decide, by decide⟩
  have hanswer := fun written quote =>
    evaluate_key_eq_literal defines _ _ "a.true" (.string "it's \"C:\\") written quote hentries
      hlater hkey
  refine ⟨?_, ?_, ?_⟩
  · exact (hanswer (.string "it's \"C:\\") '\'' (by decide)).1 rfl
  · exact (hanswer (.string "it's 'C:\\") '"' (by decide)).2.1 rfl (by decide)
  · exact (hanswer (.int Int64.minValue) '"' (by decide)).2.2 (by decide)

end Condition

end EdgeTemplate
