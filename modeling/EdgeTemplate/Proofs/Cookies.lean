import EdgeTemplate.Proofs.HeaderMap

/-!
# Written cookies

The value of the header `cookie` is written as parts with semicolons between them. A part is a
cookie, with blanks wherever they may stand, or a text without an equals sign, which is no cookie.
Looking up a cookie undoes the writing: it finds the first of the cookies that has the name.
-/
namespace EdgeTemplate.Headers

open Text

/-- A name and a value that can be told apart where they are written: neither has blanks at its
ends, neither has a semicolon, and the name has no equals sign. Both may be empty. -/
structure Cookie where
  name : List Char
  value : List Char
  name_trimmed : Trimmed name
  value_trimmed : Trimmed value
  name_free : ';' ∉ name ∧ '=' ∉ name
  value_free : ';' ∉ value

structure Gaps where
  beforeName : List Char
  afterName : List Char
  beforeValue : List Char
  afterValue : List Char
  aroundName : Blank beforeName ∧ Blank afterName
  aroundValue : Blank beforeValue ∧ Blank afterValue

/-- What stands between two semicolons. -/
inductive Part where
  | pair (cookie : Cookie) (gaps : Gaps)
  | other (text : List Char) (free : ';' ∉ text ∧ '=' ∉ text)

namespace Part

def cookie? : Part → Option Cookie
  | pair cookie _ => some cookie
  | other _ _ => none

def write : Part → List Char
  | pair cookie gaps =>
    gaps.beforeName ++ (cookie.name ++ gaps.afterName) ++
      '=' :: (gaps.beforeValue ++ (cookie.value ++ gaps.afterValue))
  | other text _ => text

def writeAll (parts : List Part) : List Char :=
  [';'].intercalate (parts.map write)

/-- The value of the first cookie that has the name. -/
def value? (parts : List Part) (name : String) : Option String :=
  ((parts.filterMap cookie?).find? fun cookie => cookie.name = name.toList).map
    fun cookie => String.ofList cookie.value

theorem semicolon_not_mem_write (part : Part) : ';' ∉ part.write := by
  cases part with
  | pair cookie gaps =>
    have hblank : ∀ {gap}, Blank gap → ';' ∉ gap := not_mem_of_blank (by decide)
    simp only [write, List.mem_append, List.mem_cons, not_or]
    exact ⟨⟨hblank gaps.aroundName.1, cookie.name_free.1, hblank gaps.aroundName.2⟩, by decide,
      hblank gaps.aroundValue.1, cookie.value_free, hblank gaps.aroundValue.2⟩
  | other text free => exact free.1

theorem splitCookie_write (part : Part) :
    splitCookie part.write = part.cookie?.map fun cookie => (cookie.name, cookie.value) := by
  cases part with
  | pair cookie gaps =>
    have hblank : ∀ {gap}, Blank gap → '=' ∉ gap := not_mem_of_blank (by decide)
    have hname : '=' ∉ gaps.beforeName ++ (cookie.name ++ gaps.afterName) := by
      simp only [List.mem_append, not_or]
      exact ⟨hblank gaps.aroundName.1, cookie.name_free.2, hblank gaps.aroundName.2⟩
    have hfree : '=' ∉ skipBlanks (gaps.beforeName ++ (cookie.name ++ gaps.afterName)) :=
      fun hmem => hname (List.dropWhile_subset _ hmem)
    have hequals : isBlank '=' = false := by decide
    have hleft : trim (skipBlanks (gaps.beforeName ++ (cookie.name ++ gaps.afterName))) =
        cookie.name := by
      rw [trim_skipBlanks, trim_append gaps.aroundName.1 gaps.aroundName.2,
        cookie.name_trimmed.trim_eq]
    have hright : trim (trimEnd (gaps.beforeValue ++ (cookie.value ++ gaps.afterValue))) =
        cookie.value := by
      rw [trim_trimEnd, trim_append gaps.aroundValue.1 gaps.aroundValue.2,
        cookie.value_trimmed.trim_eq]
    rw [splitCookie, write, trim_append_cons hequals, cut?_eq_some_iff.mpr ⟨rfl, hfree⟩]
    simp only [Option.map_some, hleft, hright, cookie?]
  | other text free =>
    cases hcut : cut? '=' (trim text) with
    | none =>
      rw [splitCookie, write, hcut]
      rfl
    | some parts =>
      -- An equals sign in the trimmed text would be one in the text.
      obtain ⟨left, right, -, -, htext⟩ := exists_append_trim text
      have hfree := free.2
      rw [htext, (cut?_eq_some_iff.mp hcut).1] at hfree
      simp at hfree

theorem cookies_writeAll (parts : List Part) :
    cookies (writeAll parts) =
      (parts.filterMap cookie?).map fun cookie => (cookie.name, cookie.value) := by
  cases parts with
  | nil => rfl
  | cons part parts =>
    have hsplit : (writeAll (part :: parts)).splitOn ';' = (part :: parts).map write := by
      refine List.splitOn_intercalate ';' ?_ (by simp)
      intro text htext
      obtain ⟨source, -, rfl⟩ := List.mem_map.mp htext
      exact source.semicolon_not_mem_write
    rw [cookies, hsplit, List.filterMap_map, List.map_filterMap]
    exact List.filterMap_congr fun source _ => source.splitCookie_write

theorem lookup_cookies (cookies : List Cookie) (name : List Char) :
    (cookies.map fun cookie => (cookie.name, cookie.value)).lookup name =
      (cookies.find? fun cookie => cookie.name = name).map Cookie.value := by
  induction cookies with
  | nil => rfl
  | cons cookie cookies ih =>
    rw [List.map_cons, List.lookup_cons]
    by_cases h : cookie.name = name
    · simp [h]
    · rw [beq_eq_false_iff_ne.mpr (Ne.symm h), List.find?_cons_of_neg (by simpa using h)]
      exact ih

end Part

theorem cookie?_of_get? {headers : Headers} {parts : List Part}
    (h : headers.get? "cookie" = some (String.ofList (Part.writeAll parts))) (name : String) :
    headers.cookie? name = Part.value? parts name := by
  rw [cookie?, h, Option.bind_eq_bind, Option.bind_some, String.toList_ofList,
    Part.cookies_writeAll, Part.lookup_cookies, Part.value?]
  cases (parts.filterMap Part.cookie?).find? fun cookie => cookie.name = name.toList with
  | none => rfl
  | some cookie => rfl

/-- Headers that hold written cookies under any spelling of `cookie`, or into which they are
inserted under it, give each name the value of the first cookie that has it. -/
theorem cookie?_written (headers : Headers) (parts : List Part) (spelling name : String)
    (hspelling : lower spelling.toList = "cookie".toList) :
    (headers.get? spelling = some (String.ofList (Part.writeAll parts)) →
      headers.cookie? name = Part.value? parts name) ∧
    (headers.insert spelling (String.ofList (Part.writeAll parts))).cookie? name =
      Part.value? parts name := by
  have hget : ∀ other : Headers, other.get? spelling = other.get? "cookie" := by
    intro other
    rw [get?, get?, hspelling]
    rfl
  have hnames : Names spelling spelling := by
    have htrimmed : Trimmed "cookie".toList := by decide
    rw [Names, ← trim_lower, hspelling, htrimmed.trim_eq]
  refine ⟨?_, ?_⟩
  · intro hheld
    exact cookie?_of_get? ((hget headers).symm.trans hheld) name
  · apply cookie?_of_get?
    rw [← hget, get?_insert hnames]

/-- One part is no cookie, one cookie has no name, and a name is given twice, the first time with a
value that has an equals sign. -/
theorem cookie?_written_repeated :
    let headers := Headers.empty.insert "CoOkIe" " flag ; ab = x=1\t;=v;ab=2"
    headers.cookie? "ab" = some "x=1" ∧ headers.cookie? "" = some "v" ∧
      headers.cookie? "flag" = none := by
  let tight : Gaps := ⟨[], [], [], [], by decide, by decide⟩
  let loose : Gaps := ⟨[' '], [' '], [' '], ['\t'], by decide, by decide⟩
  let first : Cookie := ⟨"ab".toList, "x=1".toList, by decide, by decide, by decide, by decide⟩
  let nameless : Cookie := ⟨[], "v".toList, by decide, by decide, by decide, by decide⟩
  let second : Cookie := ⟨"ab".toList, "2".toList, by decide, by decide, by decide, by decide⟩
  let parts : List Part :=
    [.other " flag ".toList (by decide), .pair first loose, .pair nameless tight,
      .pair second tight]
  have htext : String.ofList (Part.writeAll parts) = " flag ; ab = x=1\t;=v;ab=2" := by decide
  have hvalue := fun name => (cookie?_written .empty parts "CoOkIe" name (by decide)).2
  rw [htext] at hvalue
  intro headers
  exact ⟨hvalue "ab", hvalue "", hvalue "flag"⟩

end EdgeTemplate.Headers
