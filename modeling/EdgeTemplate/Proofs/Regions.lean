import EdgeTemplate.Proofs.Balance
import EdgeTemplate.Proofs.Outcome
import EdgeTemplate.Template

/-!
# Regions of a template

What processing does is said here line by line, from the marks of all lines: a line is visible when
every opening marker around it has a true condition, and a fault is a line at which processing has
to stop. Processing itself keeps a flag and a stack of flags. The invariant `Tracks` ties the two
together: the nesting at a line is what the pending opening markers, and they alone, have built up.
-/
namespace EdgeTemplate

def Directive.mark : Directive → Mark
  | .opening _ => .opening
  | .closing => .closing
  | .inline _ | .text => .plain

namespace Template

open Mark Outcome

/-- The marks of the lines of a template. -/
def marks (lines : List (List Char)) : List Mark :=
  lines.map fun line => (Directive.ofLine line).mark

/-- Whether a condition can be evaluated and is true. -/
def holds (context : Context) (condition : List Char) : Bool :=
  match Condition.test context condition with
  | .ok value => value
  | .error _ => false

def opensTrue (context : Context) (line : List Char) : Bool :=
  match Directive.ofLine line with
  | .opening condition => holds context condition
  | _ => false

/-- A line is visible when every opening marker around it has a true condition. -/
def Visible (context : Context) (lines : List (List Char)) (j : Nat) : Prop :=
  ∀ i < j, Encloses (marks lines) i j → lines[i]?.any (opensTrue context) = true

instance (context : Context) (lines : List (List Char)) (j : Nat) :
    Decidable (Visible context lines j) :=
  inferInstanceAs (Decidable (∀ i < j, _))

/-- What a visible line adds to the output: text itself, and an inline conditional with the truth
value of its condition. -/
def rendered (context : Context) (line : List Char) : Option (List Char) :=
  match Directive.ofLine line with
  | .opening _ | .closing => none
  | .inline conditional => some (conditional.fill (holds context conditional.condition))
  | .text => some line

def shown (context : Context) (lines : List (List Char)) (line : List Char) (j : Nat) :
    Option (List Char) :=
  if Visible context lines j then rendered context line else none

def visibleLines (context : Context) (lines : List (List Char)) : List (List Char) :=
  lines.zipIdx.filterMap fun item => shown context lines item.1 item.2

/-- The line at position `j` cannot be processed, for the given reason: its opening marker has a
condition without a value, wherever it stands; it closes a region although every region before it
is closed; or it is a visible inline conditional without a value. -/
inductive Fault (context : Context) (lines : List (List Char)) : Nat → Error → Prop
  | opening {j line condition cause} : lines[j]? = some line →
      Directive.ofLine line = .opening condition → Condition.test context condition = .error cause →
      Fault context lines j (.evaluation (j + 1) (String.ofList condition) cause context)
  | closing {j line} : lines[j]? = some line → Directive.ofLine line = .closing →
      (∀ i, ¬ Encloses (marks lines) i j) → Fault context lines j (.unmatchedClose (j + 1))
  | inline {j line conditional cause} : lines[j]? = some line →
      Directive.ofLine line = .inline conditional → Visible context lines j →
      Condition.test context conditional.condition = .error cause →
      Fault context lines j
        (.evaluation (j + 1) (String.ofList conditional.condition) cause context)

variable {context : Context} {lines : List (List Char)}

theorem getElem?_marks {j : Nat} {line : List Char} (h : lines[j]? = some line) :
    (marks lines)[j]? = some (Directive.ofLine line).mark := by
  simp [marks, h]

theorem length_take_marks {j : Nat} (hj : j ≤ lines.length) :
    ((marks lines).take j).length = j := by
  rw [List.length_take, marks, List.length_map]
  exact Nat.min_eq_left hj

theorem take_succ_marks {j : Nat} {line : List Char} (h : lines[j]? = some line) :
    (marks lines).take (j + 1) = (marks lines).take j ++ [(Directive.ofLine line).mark] := by
  rw [List.take_add_one, getElem?_marks h]
  rfl

theorem test_eq_ok_iff {number : Nat} {condition : List Char} {value : Bool} :
    test context number condition = .ok value ↔ Condition.test context condition = .ok value :=
  mapError_eq_ok_iff

theorem test_eq_error_iff {number : Nat} {condition : List Char} {error : Error} :
    test context number condition = .error error ↔ ∃ cause,
      Condition.test context condition = .error cause ∧
        .evaluation number (String.ofList condition) cause context = error :=
  mapError_eq_error_iff

theorem holds_of_test {condition : List Char} {value : Bool}
    (h : Condition.test context condition = .ok value) : holds context condition = value := by
  simp [holds, h]

/-! ### The nesting at a line -/

/-- The nesting that the opening markers at the given positions build up, the last one first. -/
def nestingOf (context : Context) (lines : List (List Char)) : List Nat → Nesting
  | [] => .start
  | i :: stack =>
    (nestingOf context lines stack).enter (lines[i]?.any (opensTrue context)) (i + 1)

/-- Before the line at position `j` the nesting is that of the regions pending there. -/
def Tracks (context : Context) (lines : List (List Char)) (j : Nat) (nesting : Nesting) : Prop :=
  ∃ stack, Pending ((marks lines).take j) stack ∧ nesting = nestingOf context lines stack

theorem skipping_nestingOf (stack : List Nat) :
    (nestingOf context lines stack).skipping = false ↔
      ∀ i ∈ stack, lines[i]?.any (opensTrue context) = true := by
  induction stack with
  | nil => simp [nestingOf, Nesting.start]
  | cons i stack ih => simp [nestingOf, Nesting.enter, ih, and_comm]

theorem map_line_nestingOf (stack : List Nat) :
    (nestingOf context lines stack).regions.map Region.line = stack.map (· + 1) := by
  induction stack with
  | nil => rfl
  | cons i stack ih => simp [nestingOf, Nesting.enter, ih]

theorem tracks_start : Tracks context lines 0 .start :=
  ⟨[], by simpa using Pending.balanced .nil, rfl⟩

theorem mem_stack_iff {j : Nat} {stack : List Nat} (hj : j ≤ lines.length)
    (h : Pending ((marks lines).take j) stack) (i : Nat) :
    i ∈ stack ↔ Encloses (marks lines) i j := by
  rw [h.mem_iff i, length_take_marks hj, encloses_take_iff]

theorem skipping_iff {j : Nat} {stack : List Nat} (hj : j ≤ lines.length)
    (h : Pending ((marks lines).take j) stack) :
    (nestingOf context lines stack).skipping = false ↔ Visible context lines j := by
  rw [skipping_nestingOf]
  constructor
  · intro hall i _ hi
    exact hall i ((mem_stack_iff hj h i).mpr hi)
  · intro hvisible i hi
    have henc := (mem_stack_iff hj h i).mp hi
    exact hvisible i henc.1 henc

/-! ### One line -/

theorem fault_iff {j : Nat} {line : List Char} (hline : lines[j]? = some line) (error : Error) :
    Fault context lines j error ↔
      match Directive.ofLine line with
      | .opening condition => test context (j + 1) condition = .error error
      | .closing => (∀ i, ¬ Encloses (marks lines) i j) ∧ .unmatchedClose (j + 1) = error
      | .inline conditional =>
        Visible context lines j ∧ test context (j + 1) conditional.condition = .error error
      | .text => False := by
  constructor
  · intro h
    cases h with
    | opening hl hd ht =>
      obtain rfl := Option.some.inj (hl.symm.trans hline)
      rw [hd]
      exact test_eq_error_iff.mpr ⟨_, ht, rfl⟩
    | closing hl hd hi =>
      obtain rfl := Option.some.inj (hl.symm.trans hline)
      rw [hd]
      exact ⟨hi, rfl⟩
    | inline hl hd hv ht =>
      obtain rfl := Option.some.inj (hl.symm.trans hline)
      rw [hd]
      exact ⟨hv, test_eq_error_iff.mpr ⟨_, ht, rfl⟩⟩
  · intro h
    split at h
    · rename_i hd
      obtain ⟨cause, ht, rfl⟩ := test_eq_error_iff.mp h
      exact .opening hline hd ht
    · rename_i hd
      obtain ⟨hi, rfl⟩ := h
      exact .closing hline hd hi
    · rename_i hd
      obtain ⟨cause, ht, rfl⟩ := test_eq_error_iff.mp h.2
      exact .inline hline hd h.1 ht
    · exact h.elim

theorem Fault.lt_length {j : Nat} {error : Error} (h : Fault context lines j error) :
    j < lines.length := by
  cases h with
  | opening hl _ _ => exact (List.getElem?_eq_some_iff.mp hl).1
  | closing hl _ _ => exact (List.getElem?_eq_some_iff.mp hl).1
  | inline hl _ _ _ => exact (List.getElem?_eq_some_iff.mp hl).1

theorem not_fault_of_length_le {j : Nat} (hj : lines.length ≤ j) (error : Error) :
    ¬ Fault context lines j error := by
  intro hfault
  have hlt := hfault.lt_length
  omega

theorem Fault.unique {j : Nat} {e e' : Error} (h : Fault context lines j e)
    (h' : Fault context lines j e') : e = e' := by
  obtain ⟨line, hline⟩ : ∃ line, lines[j]? = some line :=
    ⟨_, List.getElem?_eq_getElem h.lt_length⟩
  rw [fault_iff hline] at h h'
  cases hd : Directive.ofLine line with
  | opening condition =>
    simp only [hd] at h h'
    exact Except.error.inj (h.symm.trans h')
  | closing =>
    simp only [hd] at h h'
    exact h.2.symm.trans h'.2
  | inline conditional =>
    simp only [hd] at h h'
    exact Except.error.inj (h.2.symm.trans h'.2)
  | text => simp [hd] at h

/-- A line that is processed has no fault, adds what it shows, and keeps the nesting on track. -/
theorem step_ok {j : Nat} {line : List Char} {nesting next : Nesting} {emitted : Option (List Char)}
    (hline : lines[j]? = some line) (htracks : Tracks context lines j nesting)
    (h : step context nesting (j + 1) line = .ok (next, emitted)) :
    Tracks context lines (j + 1) next ∧ (∀ error, ¬ Fault context lines j error) ∧
      emitted = shown context lines line j := by
  obtain ⟨stack, hstack, rfl⟩ := htracks
  have hj : j ≤ lines.length := Nat.le_of_lt (List.getElem?_eq_some_iff.mp hline).1
  have hskip : (nestingOf context lines stack).skipping = false ↔ Visible context lines j :=
    skipping_iff hj hstack
  have hmarks := take_succ_marks hline
  simp only [fault_iff hline, shown, rendered]
  unfold step at h
  cases hd : Directive.ofLine line with
  | opening condition =>
    simp only [hd, Directive.mark] at h hmarks ⊢
    obtain ⟨value, hvalue, hnext⟩ := bind_eq_ok_iff.mp h
    obtain ⟨rfl, rfl⟩ := Prod.mk.inj (Except.ok.inj hnext)
    refine ⟨⟨j :: stack, ?_, ?_⟩, by simp [hvalue], by simp⟩
    · rw [hmarks]
      simpa only [length_take_marks hj] using hstack.opening
    · have := holds_of_test (test_eq_ok_iff.mp hvalue)
      simp [nestingOf, hline, opensTrue, hd, this]
  | closing =>
    simp only [hd, Directive.mark] at h hmarks ⊢
    obtain ⟨value, hvalue, hnext⟩ := bind_eq_ok_iff.mp h
    obtain ⟨rfl, rfl⟩ := Prod.mk.inj (Except.ok.inj hnext)
    cases stack with
    | nil => simp [nestingOf, Nesting.start, Nesting.leave] at hvalue
    | cons i stack =>
      rw [nestingOf, Nesting.leave_enter] at hvalue
      obtain rfl := Except.ok.inj hvalue
      refine ⟨⟨stack, ?_, rfl⟩, ?_, by simp⟩
      · rw [hmarks]
        exact hstack.closing
      · rintro error ⟨hnone, -⟩
        exact hnone i ((mem_stack_iff hj hstack i).mp (by simp))
  | inline conditional =>
    simp only [hd, Directive.mark] at h hmarks ⊢
    have hplain : Pending ((marks lines).take (j + 1)) stack := by
      rw [hmarks]
      exact hstack.plain
    split at h
    · rename_i hs
      obtain ⟨rfl, rfl⟩ := Prod.mk.inj (Except.ok.inj h)
      have hv : ¬ Visible context lines j := by simp [← hskip, hs]
      exact ⟨⟨stack, hplain, rfl⟩, by simp [hv], by simp [hv]⟩
    · rename_i hs
      have hv : Visible context lines j := hskip.mp (by simpa using hs)
      obtain ⟨value, hvalue, hnext⟩ := bind_eq_ok_iff.mp h
      obtain ⟨rfl, rfl⟩ := Prod.mk.inj (Except.ok.inj hnext)
      have := holds_of_test (test_eq_ok_iff.mp hvalue)
      exact ⟨⟨stack, hplain, rfl⟩, by simp [hvalue], by simp [hv, this]⟩
  | text =>
    simp only [hd, Directive.mark] at h hmarks ⊢
    obtain ⟨rfl, rfl⟩ := Prod.mk.inj (Except.ok.inj h)
    refine ⟨⟨stack, ?_, rfl⟩, by simp, ?_⟩
    · rw [hmarks]
      exact hstack.plain
    · cases hs : (nestingOf context lines stack).skipping with
      | false => simp [hskip.mp hs]
      | true =>
        have hv : ¬ Visible context lines j := by simp [← hskip, hs]
        simp [hv]

theorem step_error {j : Nat} {line : List Char} {nesting : Nesting} {error : Error}
    (hline : lines[j]? = some line) (htracks : Tracks context lines j nesting)
    (h : step context nesting (j + 1) line = .error error) : Fault context lines j error := by
  obtain ⟨stack, hstack, rfl⟩ := htracks
  have hj : j ≤ lines.length := Nat.le_of_lt (List.getElem?_eq_some_iff.mp hline).1
  rw [fault_iff hline]
  unfold step at h
  cases hd : Directive.ofLine line with
  | opening condition =>
    simp only [hd] at h ⊢
    rcases bind_eq_error_iff.mp h with h | ⟨value, -, h⟩
    · exact h
    · cases h
  | closing =>
    simp only [hd] at h ⊢
    rcases bind_eq_error_iff.mp h with h | ⟨value, -, h⟩
    · cases stack with
      | nil =>
        refine ⟨?_, Except.error.inj h⟩
        intro i hi
        simpa using (mem_stack_iff hj hstack i).mpr hi
      | cons i stack =>
        rw [nestingOf, Nesting.leave_enter] at h
        cases h
    · cases h
  | inline conditional =>
    simp only [hd] at h ⊢
    split at h
    · cases h
    · rename_i hs
      refine ⟨(skipping_iff hj hstack).mp (by simpa using hs), ?_⟩
      rcases bind_eq_error_iff.mp h with h | ⟨value, -, h⟩
      · exact h
      · cases h
  | text =>
    simp only [hd] at h
    cases h

end Template

end EdgeTemplate
