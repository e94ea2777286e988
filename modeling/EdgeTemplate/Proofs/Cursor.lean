import EdgeTemplate.Proofs.Simulation

/-!
# Reading with a cursor

Positions in errors count bytes. Reading itself hands on what is left of a text, and the count is
made from the length of that. A cursor is such a count alone, and it is moved by hand: by the size
of a character, by one where a sign, a digit, a point or a quote stands, by the size of a literal.
Nothing keeps a number from pointing inside a character.

Here the text is scanned with a cursor. Every move and every look at the text checks that the cursor
is at a boundary between two characters, and reading goes astray where it is not. `implements` says
that a cursor and a reader that start at the same place come to the same result and to the same
place, and that the error they share is where it says.
-/
namespace EdgeTemplate.Text

/-- Splits a text at a number of bytes. Inside a character and past the end there is no split. -/
def splitBytes? : Nat → List Char → Option (List Char × List Char)
  | 0, cs => some ([], cs)
  | _ + 1, [] => none
  | n + 1, c :: cs =>
    if c.utf8Size ≤ n + 1 then
      (splitBytes? (n + 1 - c.utf8Size) cs).map fun parts => (c :: parts.1, parts.2)
    else none

theorem utf8Length_cons (c : Char) (cs : List Char) :
    utf8Length (c :: cs) = c.utf8Size + utf8Length cs := rfl

theorem utf8Length_eq_zero_iff {cs : List Char} : utf8Length cs = 0 ↔ cs = [] := by
  cases cs with
  | nil => simp
  | cons c cs =>
    have hpos := c.utf8Size_pos
    simp only [utf8Length_cons, reduceCtorEq, iff_false]
    omega

theorem splitBytes?_eq_some_iff {n : Nat} {cs front back : List Char} :
    splitBytes? n cs = some (front, back) ↔ cs = front ++ back ∧ utf8Length front = n := by
  fun_induction splitBytes? n cs generalizing front with
  | case1 cs =>
    rw [utf8Length_eq_zero_iff]
    grind
  | case2 n =>
    simp only [reduceCtorEq, false_iff, not_and]
    rintro hcs
    obtain ⟨rfl, -⟩ := List.append_eq_nil_iff.mp hcs.symm
    simp
  | case3 n c cs hle ih =>
    cases front with
    | nil => simp
    | cons d front =>
      simp only [Option.map_eq_some_iff, Prod.exists]
      grind [utf8Length_cons]
  | case4 n c cs hle =>
    cases front with
    | nil => simp
    | cons d front =>
      simp only [reduceCtorEq, false_iff, not_and, List.cons_append, List.cons.injEq,
        utf8Length_cons]
      rintro ⟨rfl, -⟩
      omega

/-- A cursor stands before a text: the bytes up to it are those of what precedes the text. -/
def Before (text : List Char) (offset : Nat) (rest : List Char) : Prop :=
  ∃ front, text = front ++ rest ∧ utf8Length front = offset

variable {text part rest : List Char} {offset : Nat}

theorem Before.append (h : Before text offset (part ++ rest)) :
    Before text (offset + utf8Length part) rest := by
  obtain ⟨front, rfl, rfl⟩ := h
  exact ⟨front ++ part, by simp, by simp⟩

theorem Before.cons {c : Char} (h : Before text offset (c :: rest)) :
    Before text (offset + c.utf8Size) rest := by
  have hsplit : Before text offset ([c] ++ rest) := h
  exact hsplit.append

theorem Before.suffix (h : Before text offset rest) : rest <:+ text := by
  obtain ⟨front, rfl, -⟩ := h
  exact List.suffix_append front rest

theorem Before.offset_eq (h : Before text offset rest) :
    offset + utf8Length rest = utf8Length text := by
  obtain ⟨front, rfl, rfl⟩ := h
  rw [utf8Length_append]

end EdgeTemplate.Text

namespace EdgeTemplate.Condition

open Text Outcome

/-- Why reading with a cursor stops: the text is no condition, or the cursor is at no boundary. -/
inductive Halt where
  | refused (cause : SyntaxError)
  | astray (offset : Nat)
deriving DecidableEq, Repr

abbrev Cursor (α : Type) := StateT Nat (Except Halt) α

namespace Cursor

section Moves

variable (text : List Char)

def refuse {α : Type} (cause : SyntaxError) : Cursor α :=
  throw (.refused cause)

def split : Cursor (List Char × List Char) := do
  let offset ← get
  match splitBytes? offset text with
  | some parts => return parts
  | none => throw (.astray offset)

def rest : Cursor (List Char) := do
  let (_, rest) ← split text
  return rest

def peek : Cursor (Option Char) := do
  let rest ← rest text
  return rest.head?

def since (start : Nat) : Cursor (List Char) := do
  let (front, _) ← split text
  match splitBytes? start front with
  | some (_, part) => return part
  | none => throw (.astray start)

/-- Moves the cursor by a number of bytes, and goes astray unless it is at a boundary then. -/
def move (bytes : Nat) : Cursor Unit := do
  modify (· + bytes)
  let _ ← split text

def next : Cursor (Option Char) := do
  match ← peek text with
  | none => return none
  | some c =>
    move text c.utf8Size
    return some c

def passIf (test : List Char → Option (List Char)) (literal : List Char) : Cursor Bool := do
  match test (← rest text) with
  | some _ =>
    move text (utf8Length literal)
    return true
  | none => return false

def pass (literal : List Char) : Cursor Bool :=
  passIf text literal.isPrefixOf? literal

def passKeyword (keyword : List Char) : Cursor Bool :=
  passIf text (dropKeyword? keyword) keyword

/-- Moves over characters of a class, each of the given size, in at most so many rounds. -/
def passUpTo (p : Char → Bool) (size : Char → Nat) : Nat → Cursor Unit
  | 0 => return ()
  | rounds + 1 => do
    match ← peek text with
    | none => return ()
    | some c =>
      if p c then
        move text (size c)
        passUpTo p size rounds

def passWhile (p : Char → Bool) (size : Char → Nat) : Cursor Unit :=
  passUpTo text p size text.length

def passBlanks : Cursor Unit :=
  passWhile text isBlank Char.utf8Size

/-- Digits are taken to be one byte long. -/
def passDigits : Cursor Unit :=
  passWhile text Char.isDigit fun _ => 1

end Moves

/-! ### Results -/

def Located (text : List Char) : SyntaxError → Prop
  | .unexpected found offset => ∃ rest, Before text offset (found :: rest)
  | .leftover rest offset => rest ≠ [] ∧ Before text offset rest
  | _ => True

/-- A cursor and a reader come to the same value at the same place, or to the same error. -/
def Agrees {α : Type} (text : List Char) (moved : Except Halt (α × Nat))
    (read : Except SyntaxError (α × List Char)) : Prop :=
  Related (fun halt cause => halt = .refused cause ∧ Located text cause)
    (fun x y => x.1 = y.1 ∧ Before text x.2 y.2) moved read

section Results

variable {α β : Type} {text : List Char} {offset : Nat} {cs : List Char}

theorem agrees_ok {a : α} (h : Before text offset cs) :
    Agrees text (.ok (a, offset)) (.ok (a, cs)) :=
  .ok ⟨rfl, h⟩

theorem agrees_refuse {cause : SyntaxError} (h : Located text cause) :
    Agrees (α := α) text ((refuse cause).run offset) (.error cause) :=
  .error ⟨rfl, h⟩

theorem Agrees.map {cursor : Cursor α} {read : Except SyntaxError (α × List Char)}
    (h : Agrees text (cursor.run offset) read) (f : α → β) :
    Agrees text ((f <$> cursor).run offset) ((fun found => (f found.1, found.2)) <$> read) := by
  rw [StateT.run_map]
  refine Related.map h fun x y hxy => ⟨congrArg f hxy.1, hxy.2⟩

end Results

/-- From the same place a cursor and a reader come to the same result. -/
def implements (text : List Char) : Simulation Cursor Reader where
  Rel cursor reader := ∀ offset cs, Before text offset cs →
    Agrees text (cursor.run offset) (reader.run cs)
  pure _ _ _ h := agrees_ok h
  bind := by
    intro α β cursor reader f g h hnext offset cs hcs
    rw [StateT.run_bind, StateT.run_bind]
    apply Related.bind (h offset cs hcs)
    rintro ⟨a, after⟩ ⟨_, rest⟩ ⟨rfl, hplace⟩
    exact hnext a after rest hplace

/-! ### Moves -/

section Moves

variable {text part cs : List Char} {offset : Nat} {p : Char → Bool} {size : Char → Nat}

theorem run_get (offset : Nat) : (get : Cursor Nat).run offset = .ok (offset, offset) := rfl

theorem run_split (h : Before text offset cs) :
    ∃ front, splitBytes? offset text = some (front, cs) ∧
      (split text).run offset = .ok ((front, cs), offset) := by
  obtain ⟨front, hfront⟩ := h
  have hsplit := splitBytes?_eq_some_iff.mpr hfront
  refine ⟨front, hsplit, ?_⟩
  rw [split, run_bind_ok (run_get offset)]
  simp only [hsplit]
  rfl

theorem run_rest (h : Before text offset cs) : (rest text).run offset = .ok (cs, offset) := by
  obtain ⟨front, -, hrun⟩ := run_split h
  rw [rest, run_bind_ok hrun]
  rfl

theorem run_peek (h : Before text offset cs) :
    (peek text).run offset = .ok (cs.head?, offset) := by
  rw [peek, run_bind_ok (run_rest h)]
  rfl

theorem run_move_iff {bytes after : Nat} :
    (move text bytes).run offset = .ok ((), after) ↔
      after = offset + bytes ∧ ∃ rest, Before text after rest := by
  change (split text >>= fun _ => pure ()).run (offset + bytes) = _ ↔ _
  cases hsplit : splitBytes? (offset + bytes) text with
  | none =>
    have hrun : (split text).run (offset + bytes) = .error (.astray (offset + bytes)) := by
      rw [split, run_bind_ok (run_get _)]
      simp only [hsplit]
      rfl
    rw [StateT.run_bind, hrun]
    constructor
    · intro h
      cases h
    · rintro ⟨rfl, rest, front, hfront⟩
      rw [splitBytes?_eq_some_iff.mpr hfront] at hsplit
      cases hsplit
  | some parts =>
    have hbefore : Before text (offset + bytes) parts.2 :=
      ⟨parts.1, splitBytes?_eq_some_iff.mp hsplit⟩
    obtain ⟨front, -, hrun⟩ := run_split hbefore
    rw [run_bind_ok hrun]
    constructor
    · intro h
      cases h
      exact ⟨rfl, parts.2, hbefore⟩
    · rintro ⟨rfl, -⟩
      rfl

theorem run_move (h : Before text offset (part ++ cs)) :
    (move text (utf8Length part)).run offset = .ok ((), offset + utf8Length part) :=
  run_move_iff.mpr ⟨rfl, cs, h.append⟩

theorem run_move_char {c : Char} (h : Before text offset (c :: cs)) :
    (move text c.utf8Size).run offset = .ok ((), offset + c.utf8Size) := by
  have hsplit : Before text offset ([c] ++ cs) := h
  exact run_move hsplit

theorem run_move_one {c : Char} (hc : c.utf8Size = 1) (h : Before text offset (c :: cs)) :
    (move text 1).run offset = .ok ((), offset + 1) ∧ Before text (offset + 1) cs := by
  rw [← hc]
  exact ⟨run_move_char h, h.cons⟩

theorem run_since (h : Before text offset (part ++ cs)) :
    (since text offset).run (offset + utf8Length part) = .ok (part, offset + utf8Length part) := by
  obtain ⟨front, rfl, rfl⟩ := h
  have hbefore : Before (front ++ (part ++ cs)) (utf8Length front + utf8Length part) cs :=
    ⟨front ++ part, by simp, by simp⟩
  obtain ⟨whole, hwhole, hrun⟩ := run_split hbefore
  have hsplit : splitBytes? (utf8Length front) (front ++ part) = some (front, part) :=
    splitBytes?_eq_some_iff.mpr ⟨rfl, rfl⟩
  obtain ⟨hparts, -⟩ := splitBytes?_eq_some_iff.mp hwhole
  rw [← List.append_assoc] at hparts
  obtain rfl := List.append_cancel_right hparts
  rw [since, run_bind_ok hrun]
  simp only [hsplit]
  rfl

theorem run_next_nil (h : Before text offset []) :
    (next text).run offset = .ok (none, offset) := by
  rw [next, run_bind_ok (run_peek h)]
  rfl

theorem run_next_cons {c : Char} (h : Before text offset (c :: cs)) :
    (next text).run offset = .ok (some c, offset + c.utf8Size) := by
  rw [next, run_bind_ok (run_peek h)]
  simp only [List.head?_cons]
  rw [run_bind_ok (run_move_char h)]
  rfl

theorem run_passIf {test : List Char → Option (List Char)} {literal : List Char}
    (htest : ∀ tail, test cs = some tail → cs = literal ++ tail) (h : Before text offset cs) :
    (∃ tail, test cs = some tail ∧ Before text (offset + utf8Length literal) tail ∧
      (passIf text test literal).run offset = .ok (true, offset + utf8Length literal)) ∨
    (test cs = none ∧ (passIf text test literal).run offset = .ok (false, offset)) := by
  rw [passIf, run_bind_ok (run_rest h)]
  cases hfound : test cs with
  | none => exact .inr ⟨rfl, rfl⟩
  | some tail =>
    obtain rfl := htest tail hfound
    refine .inl ⟨tail, rfl, h.append, ?_⟩
    simp only
    rw [run_bind_ok (run_move h)]
    rfl

theorem run_passUpTo (hsize : ∀ c, p c = true → size c = c.utf8Size) {rounds : Nat}
    (hrounds : cs.length ≤ rounds) (h : Before text offset cs) :
    (passUpTo text p size rounds).run offset = .ok ((), offset + utf8Length (cs.takeWhile p)) := by
  induction cs generalizing offset rounds with
  | nil =>
    cases rounds with
    | zero => rfl
    | succ rounds =>
      rw [passUpTo, run_bind_ok (run_peek h)]
      rfl
  | cons c cs ih =>
    cases rounds with
    | zero => simp at hrounds
    | succ rounds =>
      rw [passUpTo, run_bind_ok (run_peek h)]
      by_cases hc : p c = true
      · simp only [List.head?_cons, hc, if_true, List.takeWhile_cons, utf8Length_cons, hsize c hc]
        rw [run_bind_ok (run_move_char h), ih (Nat.le_of_succ_le_succ hrounds) h.cons,
          Nat.add_assoc]
      · simp only [List.head?_cons, hc, List.takeWhile_cons]
        rfl

theorem run_passWhile (hsize : ∀ c, p c = true → size c = c.utf8Size)
    (h : Before text offset cs) :
    (passWhile text p size).run offset = .ok ((), offset + utf8Length (cs.takeWhile p)) ∧
      Before text (offset + utf8Length (cs.takeWhile p)) (cs.dropWhile p) := by
  refine ⟨run_passUpTo hsize h.suffix.length_le h, Before.append ?_⟩
  rwa [List.takeWhile_append_dropWhile]

end Moves

end Cursor

end EdgeTemplate.Condition
