import EdgeTemplate.Request.Headers

/-!
# Signals of a request

The defines that templates are written against, derived from the headers of a request. Every
signal has a value, whatever the headers are.
-/
namespace EdgeTemplate.Headers

open Text

/-- What the user agent of a mobile device contains, in lower case. -/
def mobileMarkers : List (List Char) :=
  [['m', 'o', 'b', 'i'], ['a', 'n', 'd', 'r', 'o', 'i', 'd']]

def defaultWidth (isMobile : Bool) : Int :=
  if isMobile then 360 else 1920

def splitSign : List Char → Bool × List Char
  | '-' :: rest => (true, rest)
  | '+' :: rest => (false, rest)
  | rest => (false, rest)

/-- The integer that a text starts with. What follows its digits does not count. Digits that are too
many for a signed 64-bit integer stand for the last one on their side of zero. -/
def leadingInt? (raw : List Char) : Option Int :=
  let (negative, unsigned) := splitSign (trim raw)
  let digits := unsigned.takeWhile Char.isDigit
  if digits.isEmpty then none
  else
    match Number.ofDigits? negative digits with
    | some n => some n
    | none => some (if negative then Number.minWord else Number.maxWord)

theorem fitsWord_of_leadingInt? {raw : List Char} {n : Int} (h : leadingInt? raw = some n) :
    Number.fitsWord n = true := by
  unfold leadingInt? at h
  simp only at h
  split at h
  · cases h
  · split at h
    · rename_i hdigits
      exact Option.some.inj h ▸ Number.fitsWord_of_ofDigits? hdigits
    · obtain rfl := Option.some.inj h
      split <;> decide

def isMobile (headers : Headers) : Bool :=
  let agent := lower ((headers.get? "user-agent").getD "").toList
  mobileMarkers.any (contains agent)

def screenWidth (headers : Headers) : Int :=
  ((headers.get? "x-screen-width").bind (leadingInt? ·.toList)).getD (defaultWidth headers.isMobile)

theorem fitsWord_screenWidth (headers : Headers) : Number.fitsWord headers.screenWidth = true := by
  unfold screenWidth
  cases h : (headers.get? "x-screen-width").bind (leadingInt? ·.toList) with
  | none => cases headers.isMobile <;> rfl
  | some n =>
    obtain ⟨raw, -, hraw⟩ := Option.bind_eq_some_iff.mp h
    exact fitsWord_of_leadingInt? hraw

def width (headers : Headers) : Number :=
  .int headers.screenWidth (Number.bounded_of_fitsWord headers.fitsWord_screenWidth)

/-- The first language of the header `accept-language`, or English. -/
def language (headers : Headers) : String :=
  let first := ((headers.get? "accept-language").getD "").toList.takeWhile (· != ',')
  if (trim first).isEmpty then "en" else String.ofList (trim first)

def isLoggedIn (headers : Headers) : Bool :=
  headers.cookie? "session_token" == some "active"

/-- The group of an experiment, of which `A` is the default. -/
def experimentGroup (headers : Headers) : String :=
  ((headers.cookie? "ab_group").filter (!·.isEmpty)).getD "A"

def wantsNewProfile (headers : Headers) : Bool :=
  headers.get? "x-ff-new-profile" == some "true"

/-- The defines of a request. -/
def signals (headers : Headers) : Defines :=
  .ofList
    [("device.isMobile", .bool headers.isMobile),
      ("device.screenWidth", .number headers.width),
      ("user.language", .string headers.language),
      ("user.isLoggedIn", .bool headers.isLoggedIn),
      ("experiment.group", .string headers.experimentGroup),
      ("featureFlags.newUserProfile", .bool headers.wantsNewProfile)]

end EdgeTemplate.Headers
