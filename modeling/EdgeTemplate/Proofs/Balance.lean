import Mathlib.Data.List.Induction
import Mathlib.Data.List.Sort

/-!
# Balanced marks

The markers of a template nest like brackets. This file says which sequences of marks are balanced,
which opening mark a closing mark belongs to, and which opening marks enclose a position; none of
this mentions a stack. The opening marks that enclose the end of a sequence are then listed by
`Pending`, and each further mark changes that list at its innermost end only.
-/
namespace EdgeTemplate

/-- What an item of a sequence means for the nesting of regions. -/
inductive Mark where
  | opening
  | closing
  | plain
deriving DecidableEq, Repr

namespace Mark

/-- Every region that is opened is closed, and nothing else is closed. -/
inductive Balanced : List Mark → Prop
  | nil : Balanced []
  | plain {rest} : Balanced rest → Balanced (.plain :: rest)
  | region {body rest} : Balanced body → Balanced rest →
      Balanced (.opening :: (body ++ .closing :: rest))

/-- The opening mark at position `i` and the closing mark at position `k` belong together: what
stands between them is balanced. -/
def Matches (marks : List Mark) (i k : Nat) : Prop :=
  ∃ before body after, marks = before ++ .opening :: (body ++ .closing :: after) ∧
    Balanced body ∧ before.length = i ∧ i + body.length + 1 = k

/-- The opening mark at position `i` encloses the later position `j`: it is not closed before. -/
def Encloses (marks : List Mark) (i j : Nat) : Prop :=
  i < j ∧ marks[i]? = some .opening ∧ ∀ k < j, ¬ Matches marks i k

theorem Balanced.append {as bs : List Mark} (ha : Balanced as) (hb : Balanced bs) :
    Balanced (as ++ bs) := by
  induction ha with
  | nil => exact hb
  | plain _ ih => exact .plain ih
  | region hbody _ _ ih =>
    rw [List.cons_append, List.append_assoc, List.cons_append]
    exact .region hbody ih

/-- The number of open regions after a sequence that starts with `n` of them, or `none` if a mark
closes a region that is not there. -/
def height? : Nat → List Mark → Option Nat
  | n, [] => some n
  | n, .opening :: marks => height? (n + 1) marks
  | 0, .closing :: _ => none
  | n + 1, .closing :: marks => height? n marks
  | n, .plain :: marks => height? n marks

theorem height?_append (n : Nat) (as bs : List Mark) :
    height? n (as ++ bs) = (height? n as).bind (height? · bs) := by
  fun_induction height? n as with
  | case1 n => rfl
  | case2 n as ih => simpa [height?] using ih
  | case3 as => rfl
  | case4 n as ih => simpa [height?] using ih
  | case5 n as ih => simpa [height?] using ih

theorem Balanced.height?_eq {marks : List Mark} (h : Balanced marks) (n : Nat) :
    height? n marks = some n := by
  induction h generalizing n with
  | nil => rfl
  | plain _ ih => exact ih n
  | region _ _ ihb ihr =>
    rw [height?, height?_append, ihb, Option.bind_some, height?]
    exact ihr n

/-! ### Matching marks -/

theorem Matches.append {marks : List Mark} {i k : Nat} (h : Matches marks i k)
    (front back : List Mark) :
    Matches (front ++ (marks ++ back)) (front.length + i) (front.length + k) := by
  obtain ⟨before, body, after, rfl, hbody, rfl, rfl⟩ := h
  exact ⟨front ++ before, body, after ++ back, by simp, hbody, by simp, by omega⟩

theorem Matches.append_right {marks : List Mark} {i k : Nat} (h : Matches marks i k)
    (back : List Mark) : Matches (marks ++ back) i k := by
  simpa using h.append [] back

theorem Matches.lt_length {marks : List Mark} {i k : Nat} (h : Matches marks i k) :
    k < marks.length := by
  obtain ⟨before, body, after, rfl, _, rfl, rfl⟩ := h
  simp
  omega

/-- Whether two positions match is seen from the marks up to the later one. -/
theorem matches_take_iff {marks : List Mark} {i j k : Nat} (hk : k < j) :
    Matches (marks.take j) i k ↔ Matches marks i k := by
  constructor
  · intro h
    have := h.append_right (marks.drop j)
    rwa [List.take_append_drop] at this
  · rintro ⟨before, body, after, rfl, hbody, rfl, rfl⟩
    refine ⟨before, body, after.take (j - (before.length + body.length + 2)), ?_, hbody, rfl, rfl⟩
    have h1 : j - before.length = (j - before.length - 1 - body.length - 1) + 1 + body.length + 1 :=
      by omega
    rw [List.take_append, List.take_of_length_le (by omega), h1, List.take_succ_cons,
      List.take_append, List.take_of_length_le (by omega)]
    simp
    congr 1
    omega

theorem encloses_take_iff {marks : List Mark} {i j : Nat} :
    Encloses (marks.take j) i j ↔ Encloses marks i j := by
  unfold Encloses
  constructor
  · rintro ⟨hij, hi, h⟩
    refine ⟨hij, by simpa [List.getElem?_take, hij] using hi, ?_⟩
    intro k hk hm
    exact h k hk ((matches_take_iff hk).mpr hm)
  · rintro ⟨hij, hi, h⟩
    refine ⟨hij, by simpa [List.getElem?_take, hij] using hi, ?_⟩
    intro k hk hm
    exact h k hk ((matches_take_iff hk).mp hm)

theorem getElem?_opening_of_le (front : List Mark) {back : List Mark} {mark : Mark} {i : Nat}
    (hle : front.length ≤ i) (hne : i = front.length → mark ≠ .opening)
    (hi : (front ++ mark :: back)[i]? = some .opening) :
    ∃ m, i = front.length + 1 + m ∧ back[m]? = some .opening := by
  rcases Nat.eq_or_lt_of_le hle with he | hlt
  · rw [← he, List.getElem?_append_right (Nat.le_refl _), Nat.sub_self,
      List.getElem?_cons_zero] at hi
    exact (hne he.symm (Option.some.inj hi)).elim
  · obtain ⟨m, rfl⟩ := Nat.exists_eq_add_of_lt hlt
    refine ⟨m, by omega, ?_⟩
    rwa [List.getElem?_append_right hle,
      show front.length + m + 1 - front.length = m + 1 by omega, List.getElem?_cons_succ] at hi

theorem Matches.behind {back : List Mark} {m k : Nat} (h : Matches back m k) (front : List Mark)
    (mark : Mark) :
    Matches (front ++ mark :: back) (front.length + 1 + m) (front.length + 1 + k) := by
  have hmatch := h.append (front ++ [mark]) []
  simpa using hmatch

theorem Balanced.exists_matches {marks : List Mark} (h : Balanced marks) {i : Nat}
    (hi : marks[i]? = some .opening) : ∃ k, Matches marks i k := by
  induction h generalizing i with
  | nil => simp at hi
  | plain _ ih =>
    obtain ⟨m, rfl, hm⟩ := getElem?_opening_of_le [] (Nat.zero_le i) (fun _ => by decide) hi
    obtain ⟨k, hk⟩ := ih hm
    exact ⟨_, hk.behind [] .plain⟩
  | @region body rest hbody _ ihb ihr =>
    cases i with
    | zero => exact ⟨0 + body.length + 1, [], body, rest, rfl, hbody, rfl, rfl⟩
    | succ i =>
      by_cases hlt : i < body.length
      · rw [List.getElem?_cons_succ, List.getElem?_append_left hlt] at hi
        obtain ⟨k, hk⟩ := ihb hi
        have hmatch := hk.append [.opening] (.closing :: rest)
        rw [List.length_singleton, Nat.add_comm 1 i] at hmatch
        exact ⟨_, hmatch⟩
      · rw [← List.cons_append] at hi ⊢
        obtain ⟨m, hm, hopen⟩ := getElem?_opening_of_le (.opening :: body)
          (by simpa using Nat.le_of_not_lt hlt) (fun _ => by decide) hi
        obtain ⟨k, hk⟩ := ihr hopen
        rw [hm]
        exact ⟨_, hk.behind (.opening :: body) .closing⟩

/-! ### Pending regions -/

/-- The positions of the opening marks that are not closed in a sequence, the last one first. What
stands before, between and after these marks is balanced. -/
inductive Pending : List Mark → List Nat → Prop
  | balanced {marks} : Balanced marks → Pending marks []
  | opened {marks body stack} : Pending marks stack → Balanced body →
      Pending (marks ++ .opening :: body) (marks.length :: stack)

namespace Pending

variable {marks : List Mark} {stack : List Nat}

theorem append_balanced (h : Pending marks stack) {body : List Mark} (hb : Balanced body) :
    Pending (marks ++ body) stack := by
  cases h with
  | balanced h => exact .balanced (h.append hb)
  | opened h hbody =>
    rw [List.append_assoc, List.cons_append]
    exact .opened h (hbody.append hb)

theorem opening (h : Pending marks stack) :
    Pending (marks ++ [.opening]) (marks.length :: stack) :=
  .opened h .nil

theorem plain (h : Pending marks stack) : Pending (marks ++ [.plain]) stack :=
  h.append_balanced (.plain .nil)

theorem closing {i : Nat} (h : Pending marks (i :: stack)) :
    Pending (marks ++ [.closing]) stack := by
  cases h with
  | opened h hbody =>
    rw [List.append_assoc, List.cons_append]
    exact h.append_balanced (.region hbody .nil)

theorem height?_eq (h : Pending marks stack) : height? 0 marks = some stack.length := by
  induction h with
  | balanced h => exact h.height?_eq 0
  | opened _ hbody ih =>
    rw [height?_append, ih, Option.bind_some, height?, hbody.height?_eq, List.length_cons]

theorem nil_iff : Pending marks [] ↔ Balanced marks :=
  ⟨fun h => by cases h with | balanced h => exact h, .balanced⟩

theorem sorted (h : Pending marks stack) :
    (∀ i ∈ stack, i < marks.length) ∧ stack.Pairwise (· > ·) := by
  induction h with
  | balanced => simp
  | @opened marks body stack _ _ ih =>
    have hlt : ∀ i ∈ stack, i < marks.length := ih.1
    refine ⟨?_, List.pairwise_cons.mpr ⟨hlt, ih.2⟩⟩
    intro i hi
    simp only [List.length_append, List.length_cons]
    rcases List.mem_cons.mp hi with rfl | hi
    · omega
    · have := hlt i hi
      omega

/-- After a pending opening mark no region is closed that was not opened there. -/
theorem height?_drop (h : Pending marks stack) {i : Nat} (hi : i ∈ stack) :
    marks[i]? = some .opening ∧ (height? 0 (marks.drop (i + 1))).isSome := by
  induction h with
  | balanced => simp at hi
  | @opened marks body stack h hbody ih =>
    rcases List.mem_cons.mp hi with rfl | hi
    · rw [List.drop_append, List.drop_of_length_le (by omega)]
      simp [hbody.height?_eq]
    · have hlt : i < marks.length := h.sorted.1 i hi
      obtain ⟨hopen, hsome⟩ := ih hi
      obtain ⟨n, hn⟩ := Option.isSome_iff_exists.mp hsome
      refine ⟨by rwa [List.getElem?_append_left hlt], ?_⟩
      rw [List.drop_append_of_le_length hlt, height?_append, hn, Option.bind_some, height?,
        hbody.height?_eq]
      rfl

theorem exists_matches (h : Pending marks stack) {i : Nat} (hopen : marks[i]? = some .opening)
    (hmem : i ∉ stack) : ∃ k, Matches marks i k := by
  induction h with
  | balanced h => exact h.exists_matches hopen
  | @opened marks body stack _ hbody ih =>
    rw [List.mem_cons, not_or] at hmem
    by_cases hlt : i < marks.length
    · rw [List.getElem?_append_left hlt] at hopen
      obtain ⟨k, hk⟩ := ih hopen hmem.2
      exact ⟨k, hk.append_right _⟩
    · obtain ⟨m, rfl, hm⟩ := getElem?_opening_of_le marks (Nat.le_of_not_lt hlt)
        (fun he => (hmem.1 he).elim) hopen
      obtain ⟨k, hk⟩ := hbody.exists_matches hm
      exact ⟨_, hk.behind marks .opening⟩

/-- The pending marks are those that enclose the end of the sequence. -/
theorem mem_iff (h : Pending marks stack) (i : Nat) :
    i ∈ stack ↔ Encloses marks i marks.length := by
  constructor
  · intro hi
    obtain ⟨hopen, hsome⟩ := h.height?_drop hi
    refine ⟨h.sorted.1 i hi, hopen, ?_⟩
    rintro k - ⟨before, body, after, rfl, hbody, rfl, -⟩
    rw [List.drop_append, List.drop_of_length_le (by omega)] at hsome
    simp [height?_append, hbody.height?_eq, height?] at hsome
  · rintro ⟨hlt, hopen, hnot⟩
    by_contra hmem
    obtain ⟨k, hk⟩ := h.exists_matches hopen hmem
    exact hnot k hk.lt_length hk

theorem exists_of_height? (marks : List Mark) {n : Nat} (h : height? 0 marks = some n) :
    ∃ stack, Pending marks stack := by
  induction marks using List.reverseRecOn generalizing n with
  | nil => exact ⟨[], .balanced .nil⟩
  | append_singleton marks mark ih =>
    rw [height?_append] at h
    obtain ⟨m, hm, hlast⟩ := Option.bind_eq_some_iff.mp h
    obtain ⟨stack, hstack⟩ := ih hm
    cases mark with
    | opening => exact ⟨_, hstack.opening⟩
    | plain => exact ⟨_, hstack.plain⟩
    | closing =>
      cases stack with
      | nil =>
        obtain rfl : m = 0 := by simpa [hm] using hstack.height?_eq
        simp [height?] at hlast
      | cons i stack => exact ⟨_, hstack.closing⟩

end Pending

theorem balanced_iff_height? (marks : List Mark) : Balanced marks ↔ height? 0 marks = some 0 := by
  constructor
  · intro h
    exact h.height?_eq 0
  · intro h
    obtain ⟨stack, hstack⟩ := Pending.exists_of_height? marks h
    have hlen : stack.length = 0 := by simpa [h] using hstack.height?_eq.symm
    rw [List.length_eq_zero_iff.mp hlen] at hstack
    exact Pending.nil_iff.mp hstack

instance (marks : List Mark) : Decidable (Balanced marks) :=
  decidable_of_iff _ (balanced_iff_height? marks).symm

theorem Balanced.exists_encloses {marks : List Mark} (h : Balanced marks) {k : Nat}
    (hk : marks[k]? = some .closing) : ∃ i, Encloses marks i k := by
  obtain ⟨hlt, hclose⟩ := List.getElem?_eq_some_iff.mp hk
  have hsplit : marks.take k ++ .closing :: marks.drop (k + 1) = marks := by
    rw [← hclose, ← List.drop_eq_getElem_cons hlt, List.take_append_drop]
  have hheight := h.height?_eq 0
  rw [← hsplit, height?_append] at hheight
  obtain ⟨n, hn, hrest⟩ := Option.bind_eq_some_iff.mp hheight
  obtain ⟨stack, hstack⟩ := Pending.exists_of_height? _ hn
  cases stack with
  | nil =>
    obtain rfl : n = 0 := by simpa [hn] using hstack.height?_eq
    simp [height?] at hrest
  | cons i stack =>
    refine ⟨i, encloses_take_iff.mp ?_⟩
    have := (hstack.mem_iff i).mp (by simp)
    rwa [List.length_take_of_le (Nat.le_of_lt hlt)] at this

theorem matches_iff (marks : List Mark) (i k : Nat) :
    Matches marks i k ↔ i < k ∧ marks[i]? = some .opening ∧ marks[k]? = some .closing ∧
      Balanced ((marks.take k).drop (i + 1)) := by
  constructor
  · rintro ⟨before, body, after, rfl, hbody, rfl, rfl⟩
    have hk : before.length + body.length + 1 - before.length = body.length + 1 := by omega
    refine ⟨by omega, by simp, ?_, ?_⟩
    · rw [List.getElem?_append_right (by omega), hk, List.getElem?_cons_succ]
      simp
    · rw [List.take_append, List.take_of_length_le (by omega), hk, List.take_succ_cons,
        List.take_left, List.drop_append, List.drop_of_length_le (by omega)]
      simpa using hbody
  · rintro ⟨hik, hi, hk, hbody⟩
    obtain ⟨hi, hopen⟩ := List.getElem?_eq_some_iff.mp hi
    obtain ⟨hk, hclose⟩ := List.getElem?_eq_some_iff.mp hk
    refine ⟨marks.take i, _, marks.drop (k + 1), ?_, hbody, by simp; omega, by simp; omega⟩
    have hle : i + 1 ≤ (marks.take k).length := by
      rw [List.length_take]
      omega
    rw [← hclose, ← List.drop_eq_getElem_cons hk, ← List.drop_append_of_le_length hle,
      List.take_append_drop, ← hopen, ← List.drop_eq_getElem_cons hi, List.take_append_drop]

instance (marks : List Mark) (i k : Nat) : Decidable (Matches marks i k) :=
  decidable_of_iff _ (matches_iff marks i k).symm

instance (marks : List Mark) (i j : Nat) : Decidable (Encloses marks i j) :=
  inferInstanceAs (Decidable (_ ∧ _ ∧ _))

/-- The positions of the opening marks that are not closed up to the end, in increasing order. -/
def unmatched (marks : List Mark) : List Nat :=
  (List.range marks.length).filter fun i => Encloses marks i marks.length

theorem Pending.unmatched_eq {marks : List Mark} {stack : List Nat} (h : Pending marks stack) :
    unmatched marks = stack.reverse := by
  refine List.Pairwise.eq_of_mem_iff (r := (· < ·))
    (List.pairwise_lt_range.filter _) (List.pairwise_reverse.mpr h.sorted.2) ?_
  intro i
  simp only [unmatched, List.mem_filter, List.mem_range, List.mem_reverse, decide_eq_true_eq,
    h.mem_iff i]
  exact ⟨fun h => h.2, fun h => ⟨h.1, h⟩⟩

end Mark

end EdgeTemplate
