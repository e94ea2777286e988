import EdgeTemplate.Proofs.Insertion
import EdgeTemplate.Proofs.Reading
import EdgeTemplate.Request.Signals
import Mathlib.Logic.Relation

/-!
# Headers as a map

Whatever is done to headers, all that counts are the insertions that succeeded since the headers
were last collected from a list. Under a name, the last of those is found whose name is the same
without the blanks around it and without regard to the case of letters. Signals look at headers
through this map only, so the order of insertions under different names and the spelling of the
names make no difference to them.
-/
namespace EdgeTemplate.Headers

open Text

/-! ### Names -/

/-- A header that is inserted under one name is found under the other. -/
def Names (inserted name : String) : Prop :=
  lower (trim inserted.toList) = lower name.toList

instance (inserted name : String) : Decidable (Names inserted name) :=
  inferInstanceAs (Decidable (_ = _))

theorem names_iff (inserted name : String) :
    Names inserted name ↔ normalName inserted = String.ofList (lower name.toList) := by
  rw [Names, normalName, String.ofList_inj]

theorem isBlank_toLower (c : Char) : isBlank c.toLower = isBlank c := by
  by_cases h : 'A'.val ≤ c.val ∧ c.val ≤ 'Z'.val
  · have hlow : 65 ≤ c.toNat := h.1
    have hhigh : c.toNat ≤ 90 := h.2
    have hval : c.toLower.val = c.val + 32 := congrArg Char.val (dif_pos h)
    have hlower : c.toLower.toNat = c.toNat + 32 := by
      rw [Char.toNat, hval, UInt32.toNat_add]
      exact Nat.mod_eq_of_lt (by change c.toNat + 32 < _; omega)
    rw [isBlank_eq_false (by omega), isBlank_eq_false (by omega)]
  · have hlower : c.toLower = c := dif_neg h
    rw [hlower]

theorem skipBlanks_lower (cs : List Char) : skipBlanks (lower cs) = lower (skipBlanks cs) := by
  have hblank : isBlank ∘ Char.toLower = isBlank := funext isBlank_toLower
  rw [skipBlanks, lower, List.dropWhile_map, hblank]
  rfl

theorem trim_lower (cs : List Char) : trim (lower cs) = lower (trim cs) := by
  have hreverse : ∀ ds, (lower ds).reverse = lower ds.reverse := fun ds => List.map_reverse.symm
  rw [trim, trimEnd, skipBlanks_lower, hreverse, skipBlanks_lower, hreverse]
  rfl

/-- The names differ at most in the case of their letters and in the blanks around them. -/
def Respelled (name other : String) : Prop :=
  ∃ left core right left' core' right', Blank left ∧ Blank right ∧ Blank left' ∧ Blank right' ∧
    name.toList = left ++ (core ++ right) ∧ other.toList = left' ++ (core' ++ right') ∧
    lower core = lower core'

theorem Respelled.normalName_eq {name other : String} (h : Respelled name other) :
    normalName name = normalName other := by
  obtain ⟨left, core, right, left', core', right', hl, hr, hl', hr', hname, hother, hcore⟩ := h
  rw [normalName, normalName, hname, hother, trim_append hl hr, trim_append hl' hr', ← trim_lower,
    ← trim_lower, hcore]

/-! ### Operations -/

inductive Operation where
  | insert (name value : String)
  | line (text : String)
  | collect (pairs : List (String × String))

/-- The headers after an operation, whether or not it succeeds. -/
def Operation.perform (headers : Headers) : Operation → Headers
  | insert name value => headers.insert name value
  | line text => ((insertLine text).run.run headers).2
  | collect pairs => .ofList pairs

/-- The insertions since headers were last collected, after an operation. -/
def Operation.record (insertions : List (String × String)) : Operation → List (String × String)
  | insert name value => insertions ++ [(name, value)]
  | line text =>
    match splitLine text with
    | .ok pair => insertions ++ [pair]
    | .error _ => insertions
  | collect pairs => pairs

def run (operations : List Operation) : Headers :=
  operations.foldl Operation.perform empty

/-- The insertions that succeed since the last operation that collects. -/
def insertions (operations : List Operation) : List (String × String) :=
  operations.foldl Operation.record []

/-- A line of a name that is not blank, the first colon and a value, with the pair it inserts. -/
def HeaderLine (text : String) (pair : String × String) : Prop :=
  ∃ name value, text.toList = name ++ ':' :: value ∧ ':' ∉ name ∧ ¬ Blank name ∧
    pair = (String.ofList name, String.ofList (trim value))

theorem splitLine_eq_ok_iff (text : String) (pair : String × String) :
    splitLine text = .ok pair ↔ HeaderLine text pair := by
  unfold splitLine HeaderLine
  cases hcut : cut? ':' text.toList with
  | none =>
    constructor
    · intro h
      cases h
    · rintro ⟨name, value, htext, hfree, -⟩
      rw [cut?_eq_some_iff.mpr ⟨htext, hfree⟩] at hcut
      cases hcut
  | some parts =>
    obtain ⟨htext, hfree⟩ := cut?_eq_some_iff.mp hcut
    simp only [List.isEmpty_iff, trim_eq_nil_iff]
    constructor
    · intro h
      split at h
      · cases h
      · rename_i hblank
        exact ⟨parts.1, parts.2, htext, hfree, hblank, (Except.ok.inj h).symm⟩
    · rintro ⟨name, value, htext', hfree', hblank, rfl⟩
      obtain rfl := Option.some.inj (hcut.symm.trans (cut?_eq_some_iff.mpr ⟨htext', hfree'⟩))
      rw [if_neg hblank]

theorem run_insertLine (headers : Headers) (text : String) :
    (insertLine text).run.run headers =
      match splitLine text with
      | .ok pair => (.ok (), headers.insert pair.1 pair.2)
      | .error error => (.error error, headers) := by
  unfold insertLine
  cases splitLine text with
  | ok pair => rfl
  | error error => rfl

/-! ### Lookups -/

def stored (pair : String × String) : String × String :=
  (normalName pair.1, pair.2)

theorem values_ofList (pairs : List (String × String)) :
    (ofList pairs).values = .ofList (pairs.map stored) := by
  rw [OrderedMap.ofList, OrderedMap.insertAll, List.foldl_map]
  exact (List.foldl_hom values fun _ _ => rfl).symm

theorem ofList_append_singleton (pairs : List (String × String)) (pair : String × String) :
    ofList (pairs ++ [pair]) = (ofList pairs).insert pair.1 pair.2 :=
  List.foldl_append

/-- However headers are built up, only the insertions count. -/
theorem run_eq_ofList (operations : List Operation) :
    run operations = ofList (insertions operations) := by
  induction operations using List.reverseRecOn with
  | nil => rfl
  | append_singleton operations operation ih =>
    rw [run, insertions, List.foldl_append, List.foldl_append, ← run, ← insertions]
    change operation.perform (run operations) = ofList (operation.record (insertions operations))
    cases operation with
    | insert name value =>
      rw [Operation.perform, Operation.record, ofList_append_singleton, ih]
    | line text =>
      rw [Operation.perform, Operation.record, run_insertLine]
      cases splitLine text with
      | ok pair => simp only [ofList_append_singleton, ih]
      | error error => exact ih
    | collect pairs => rfl

theorem get?_ofList (pairs : List (String × String)) (name : String) :
    (ofList pairs).get? name =
      (pairs.filter fun pair => Names pair.1 name).getLast?.map Prod.snd := by
  rw [get?, values_ofList, OrderedMap.get?_ofList_eq]
  induction pairs using List.reverseRecOn with
  | nil => rfl
  | append_singleton pairs pair ih =>
    rw [List.map_append, List.reverse_append, List.filter_append, List.map_singleton,
      List.reverse_singleton, List.singleton_append, Entries.lookup_cons_eq_if, ih]
    by_cases hname : Names pair.1 name
    · have hstored : (stored pair).1 = String.ofList (lower name.toList) := (names_iff _ _).mp hname
      rw [if_pos hstored, List.filter_cons_of_pos (by simpa using hname), List.filter_nil,
        List.getLast?_concat]
      rfl
    · have hstored : (stored pair).1 ≠ String.ofList (lower name.toList) :=
        fun h => hname ((names_iff _ _).mpr h)
      rw [if_neg hstored, List.filter_cons_of_neg (by simpa using hname), List.filter_nil,
        List.append_nil]

theorem get?_insert {inserted name : String} (h : Names inserted name) (headers : Headers)
    (value : String) : (headers.insert inserted value).get? name = some value := by
  rw [get?, insert, (names_iff _ _).mp h]
  exact headers.values.get?_insert_self _ value

/-! ### Signals -/

theorem signals_congr {headers others : Headers}
    (h : ∀ name, headers.get? name = others.get? name) : headers.signals = others.signals := by
  have hcookie : ∀ name, headers.cookie? name = others.cookie? name := by
    intro name
    rw [cookie?, cookie?, h]
  have hmobile : headers.isMobile = others.isMobile := by
    rw [isMobile, isMobile, h]
  have hscreen : headers.screenWidth = others.screenWidth := by
    rw [screenWidth, screenWidth, hmobile, h]
  simp only [signals, hmobile, width, hscreen, language, isLoggedIn, experimentGroup,
    wantsNewProfile, hcookie, h]

/-- Two neighbours under different names change places, or a name is spelled in another way. -/
inductive Change : List (String × String) → List (String × String) → Prop
  | swap (front back : List (String × String)) (first second : String × String) :
      normalName first.1 ≠ normalName second.1 →
      Change (front ++ first :: second :: back) (front ++ second :: first :: back)
  | respell (front back : List (String × String)) (name other value : String) :
      Respelled name other →
      Change (front ++ (name, value) :: back) (front ++ (other, value) :: back)

def Rearranged : List (String × String) → List (String × String) → Prop :=
  Relation.EqvGen Change

/-- The values under one name keep their order. -/
theorem Change.values_eq {pairs others : List (String × String)} (h : Change pairs others)
    (name : String) :
    (pairs.filter fun pair => Names pair.1 name).map Prod.snd =
      (others.filter fun pair => Names pair.1 name).map Prod.snd := by
  cases h with
  | swap front back first second hne =>
    -- At most one of the two is found under the name.
    by_cases hfirst : Names first.1 name
    · have hsecond : ¬ Names second.1 name := by
        intro hsecond
        exact hne (((names_iff _ _).mp hfirst).trans ((names_iff _ _).mp hsecond).symm)
      simp [List.filter_append, hfirst, hsecond]
    · simp [List.filter_append, List.filter_cons, hfirst]
  | respell front back old new value hspelling =>
    have hnames : Names old name ↔ Names new name := by
      rw [names_iff, names_iff, hspelling.normalName_eq]
    by_cases hnew : Names new name
    · simp [List.filter_append, hnew, hnames.mpr hnew]
    · simp [List.filter_append, hnew, mt hnames.mp hnew]

theorem Rearranged.get?_eq {pairs others : List (String × String)} (h : Rearranged pairs others)
    (name : String) : (ofList pairs).get? name = (ofList others).get? name := by
  rw [get?_ofList, get?_ofList, ← List.getLast?_map, ← List.getLast?_map]
  congr 1
  induction h with
  | rel _ _ hchange => exact hchange.values_eq name
  | refl _ => rfl
  | symm _ _ _ ih => exact ih.symm
  | trans _ _ _ _ _ ihleft ihright => exact ihleft.trans ihright

/-- However headers are built up, a name is looked up among the insertions that succeeded since the
headers were last collected, and the last one counts. A line is inserted exactly if it has the form
of a header, and one that fails changes nothing. The signals are the same for insertions that differ
by the order of different headers and by the spelling of names. -/
theorem last_insertion_laws :
    (∀ operations name, (run operations).get? name =
      ((insertions operations).filter fun pair => Names pair.1 name).getLast?.map Prod.snd) ∧
    (∀ text pair, splitLine text = .ok pair ↔ HeaderLine text pair) ∧
    (∀ headers text error after,
      (insertLine text).run.run headers = (.error error, after) → after = headers) ∧
    ∀ operations others, Rearranged (insertions operations) (insertions others) →
      (run operations).signals = (run others).signals := by
  refine ⟨?_, splitLine_eq_ok_iff, ?_, ?_⟩
  · intro operations name
    rw [run_eq_ofList, get?_ofList]
  · intro headers text error after h
    rw [run_insertLine] at h
    cases hsplit : splitLine text with
    | ok pair =>
      rw [hsplit] at h
      cases h
    | error cause =>
      rw [hsplit] at h
      exact (Prod.mk.inj h).2.symm
  · intro operations others h
    rw [run_eq_ofList, run_eq_ofList]
    exact signals_congr h.get?_eq

/-- In both cases the headers are built up anew: by lines, one of which fails, and from a list that
has the names in another spelling and in another order. -/
theorem last_insertion_laws_respelled :
    let operations : List Operation :=
      [.line "User-Agent: Opera Mobi", .insert "X-Screen-Width" "7px", .line " : 8px"]
    let others : List Operation :=
      [.insert "x-screen-width" "9px",
        .collect [(" x-screen-width\t", "7px"), ("USER-AGENT", "Opera Mobi")]]
    (run operations).get? "x-SCREEN-width" = some "7px" ∧
      (run operations).signals = (run others).signals := by
  intro operations others
  have hinsertions : insertions operations =
      [("User-Agent", "Opera Mobi"), ("X-Screen-Width", "7px")] := by decide
  have hothers : insertions others =
      [(" x-screen-width\t", "7px"), ("USER-AGENT", "Opera Mobi")] := by decide
  have hagent : Respelled "User-Agent" "USER-AGENT" :=
    ⟨[], "User-Agent".toList, [], [], "USER-AGENT".toList, [], by decide⟩
  have hwidth : Respelled "X-Screen-Width" " x-screen-width\t" :=
    ⟨[], "X-Screen-Width".toList, [], [' '], "x-screen-width".toList, ['\t'], by decide⟩
  have hswap := Change.swap [] [] ("User-Agent", "Opera Mobi") ("X-Screen-Width", "7px") (by decide)
  have hfirst := Change.respell [] [("User-Agent", "Opera Mobi")] _ _ "7px" hwidth
  have hsecond := Change.respell [(" x-screen-width\t", "7px")] [] _ _ "Opera Mobi" hagent
  refine ⟨?_, ?_⟩
  · rw [last_insertion_laws.1, hinsertions]
    decide
  · apply last_insertion_laws.2.2.2
    rw [hinsertions, hothers]
    exact .trans _ _ _ (.rel _ _ hswap) (.trans _ _ _ (.rel _ _ hfirst) (.rel _ _ hsecond))

end EdgeTemplate.Headers
