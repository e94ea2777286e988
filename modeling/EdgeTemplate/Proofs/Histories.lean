import EdgeTemplate.Nesting
import EdgeTemplate.Proofs.Balance
import EdgeTemplate.Proofs.Outcome

/-!
# Histories of a nesting

A nesting changes by opening and by closing regions. It keeps one flag for each open region and one
for the text inside them, and closing a region brings back a flag without looking at any condition.
A history is a sequence of such changes; its marks say which openings in it are not closed, by
matching alone. Here the nesting after a history is shown to be what these openings build up, so
each flag says what it should, and a balanced history leaves everything as it was.
-/
namespace EdgeTemplate.Nesting

open Mark (Balanced Pending)
open Outcome

structure Opening where
  condition : Bool
  line : Nat
deriving DecidableEq, Repr

inductive Move where
  | enter (opening : Opening)
  | leave (line : Nat)
deriving DecidableEq, Repr

namespace Move

def mark : Move → Mark
  | enter _ => .opening
  | leave _ => .closing

def opening? : Move → Option Opening
  | enter opening => some opening
  | leave _ => none

end Move

def apply (nesting : Nesting) : Move → Except Error Nesting
  | .enter opening => .ok (nesting.enter opening.condition opening.line)
  | .leave line => nesting.leave line

def run (nesting : Nesting) (moves : List Move) : Except Error Nesting :=
  moves.foldlM apply nesting

def marks (moves : List Move) : List Mark :=
  moves.map Move.mark

/-- The openings at the given positions of a history. -/
def openingsAt (moves : List Move) (positions : List Nat) : List Opening :=
  positions.filterMap fun i => moves[i]?.bind Move.opening?

/-- The openings of a history that it does not close, in their order. -/
def unmatched (moves : List Move) : List Opening :=
  openingsAt moves (Mark.unmatched (marks moves))

/-- The nesting that openings build up one after the other. -/
def ofOpenings (openings : List Opening) : Nesting :=
  openings.foldl (fun nesting opening => nesting.enter opening.condition opening.line) .start

variable {moves body : List Move} {nesting : Nesting} {stack : List Nat}

/-! ### Openings alone -/

theorem ofOpenings_concat (openings : List Opening) (opening : Opening) :
    ofOpenings (openings ++ [opening]) =
      (ofOpenings openings).enter opening.condition opening.line := by
  rw [ofOpenings, List.foldl_append]
  rfl

theorem lines_ofOpenings (openings : List Opening) :
    (ofOpenings openings).regions.reverse.map Region.line = openings.map Opening.line := by
  induction openings using List.reverseRecOn with
  | nil => rfl
  | append_singleton openings opening ih =>
    rw [ofOpenings_concat, enter, List.reverse_cons, List.map_append, ih, List.map_append]
    rfl

theorem depth_ofOpenings (openings : List Opening) :
    (ofOpenings openings).depth = openings.length := by
  have hlines := congrArg List.length (lines_ofOpenings openings)
  rwa [List.length_map, List.length_reverse, List.length_map] at hlines

theorem skipping_ofOpenings (openings : List Opening) :
    (ofOpenings openings).skipping = true ↔
      ∃ opening ∈ openings, opening.condition = false := by
  induction openings using List.reverseRecOn with
  | nil => simp [ofOpenings, start]
  | append_singleton openings opening ih =>
    rw [ofOpenings_concat, enter, Bool.or_eq_true, ih, Bool.not_eq_true']
    simp [or_and_right, exists_or]

/-- The flags of the regions, from the outermost one: as long as nothing is skipped they are all
false, and from the first skipped region on they are all true. -/
theorem inherited_ofOpenings (openings : List Opening) :
    ∃ shown skipped, (ofOpenings openings).regions.reverse.map Region.inherited =
        List.replicate shown false ++ List.replicate skipped true ∧
      ((ofOpenings openings).skipping = false → skipped = 0) := by
  -- A region keeps the flag from before its opening, so openings are taken off the end. That no
  -- region is skipped as long as no text is, is what the next flag needs.
  induction openings using List.reverseRecOn with
  | nil => exact ⟨0, 0, rfl, fun _ => rfl⟩
  | append_singleton openings opening ih =>
    obtain ⟨shown, skipped, hflags, hnone⟩ := ih
    rw [ofOpenings_concat, enter, List.reverse_cons, List.map_append, hflags]
    cases hskipping : (ofOpenings openings).skipping with
    | false =>
      obtain rfl := hnone hskipping
      exact ⟨shown + 1, 0, by simp [List.replicate_succ'], fun _ => rfl⟩
    | true => exact ⟨shown, skipped + 1, by simp [List.replicate_succ'], by simp⟩

/-! ### One move -/

theorem length_marks (moves : List Move) : (marks moves).length = moves.length :=
  List.length_map _

theorem marks_concat (moves : List Move) (move : Move) :
    marks (moves ++ [move]) = marks moves ++ [move.mark] :=
  List.map_append

theorem openingsAt_concat (moves : List Move) (positions : List Nat) (i : Nat) :
    openingsAt moves (positions ++ [i]) =
      openingsAt moves positions ++ (moves[i]?.bind Move.opening?).toList := by
  rw [openingsAt, List.filterMap_append, List.filterMap_cons]
  cases moves[i]?.bind Move.opening? with
  | none => rfl
  | some opening => rfl

theorem openingsAt_append (moves more : List Move) {positions : List Nat}
    (h : ∀ i ∈ positions, i < moves.length) :
    openingsAt (moves ++ more) positions = openingsAt moves positions := by
  apply List.filterMap_congr
  intro i hi
  rw [List.getElem?_append_left (h i hi)]

theorem exists_opening {i : Nat} (h : (marks moves)[i]? = some .opening) :
    ∃ opening, moves[i]?.bind Move.opening? = some opening := by
  rw [marks, List.getElem?_map, Option.map_eq_some_iff] at h
  obtain ⟨move, hmove, hmark⟩ := h
  rw [hmove]
  cases move with
  | enter opening => exact ⟨opening, rfl⟩
  | leave line => cases hmark

/-- The nesting is what the openings build up that are pending in the marks of a history. -/
def Built (moves : List Move) (nesting : Nesting) : Prop :=
  ∃ stack, Pending (marks moves) stack ∧ nesting = ofOpenings (openingsAt moves stack.reverse)

theorem lt_length_of_pending (h : Pending (marks moves) stack) :
    ∀ i ∈ stack.reverse, i < moves.length := by
  intro i hi
  rw [← length_marks]
  exact h.sorted.1 i (List.mem_reverse.mp hi)

theorem Built.enter (h : Built moves nesting) (opening : Opening) :
    Built (moves ++ [.enter opening]) (nesting.enter opening.condition opening.line) := by
  obtain ⟨stack, hstack, rfl⟩ := h
  refine ⟨moves.length :: stack, ?_, ?_⟩
  · rw [marks_concat, ← length_marks]
    exact hstack.opening
  · have hlast : (moves ++ [.enter opening])[moves.length]? = some (.enter opening) := by simp
    rw [List.reverse_cons, openingsAt_concat, openingsAt_append _ _ (lt_length_of_pending hstack),
      hlast]
    exact (ofOpenings_concat _ opening).symm

/-- Closing takes back the last pending opening, and what it did to the flag. -/
theorem Built.leave {line : Nat} {next : Nesting} (h : Built moves nesting)
    (hnext : nesting.leave line = .ok next) : Built (moves ++ [.leave line]) next := by
  obtain ⟨stack, hstack, rfl⟩ := h
  cases stack with
  | nil => cases hnext
  | cons i stack =>
    -- What a pending position names is an opening, and it is the one that was entered last.
    obtain ⟨opening, hopening⟩ := exists_opening (hstack.height?_drop List.mem_cons_self).1
    rw [List.reverse_cons, openingsAt_concat, hopening, Option.toList_some, ofOpenings_concat,
      leave_enter] at hnext
    obtain rfl := Except.ok.inj hnext
    have hbounds := lt_length_of_pending hstack
    rw [List.reverse_cons, List.forall_mem_append] at hbounds
    refine ⟨stack, ?_, by rw [openingsAt_append _ _ hbounds.1]⟩
    rw [marks_concat]
    exact hstack.closing

/-! ### Whole histories -/

theorem run_append (nesting : Nesting) (moves more : List Move) :
    nesting.run (moves ++ more) = (nesting.run moves >>= fun next => next.run more) :=
  List.foldlM_append

theorem run_singleton (nesting : Nesting) (move : Move) :
    nesting.run [move] = nesting.apply move := by
  rw [run, List.foldlM_cons]
  simp only [List.foldlM_nil, bind_pure]

theorem built_of_run (h : run .start moves = .ok nesting) : Built moves nesting := by
  induction moves using List.reverseRecOn generalizing nesting with
  | nil =>
    obtain rfl := Except.ok.inj h
    exact ⟨[], .balanced .nil, rfl⟩
  | append_singleton moves move ih =>
    rw [run_append] at h
    obtain ⟨before, hbefore, hmove⟩ := bind_eq_ok_iff.mp h
    rw [run_singleton] at hmove
    cases move with
    | enter opening =>
      obtain rfl := Except.ok.inj hmove
      exact (ih hbefore).enter opening
    | leave line => exact (ih hbefore).leave hmove

theorem eq_ofOpenings_unmatched (h : run .start moves = .ok nesting) :
    nesting = ofOpenings (unmatched moves) := by
  obtain ⟨stack, hstack, rfl⟩ := built_of_run h
  rw [unmatched, hstack.unmatched_eq]

theorem run_region (nesting : Nesting) (opening : Opening) (line : Nat) {inner : List Move}
    (hinner : (nesting.enter opening.condition opening.line).run inner =
      .ok (nesting.enter opening.condition opening.line)) (rest : List Move) :
    nesting.run (.enter opening :: (inner ++ .leave line :: rest)) = nesting.run rest := by
  change (nesting.enter opening.condition opening.line).run (inner ++ .leave line :: rest) = _
  rw [run_append, hinner]
  rfl

theorem run_of_balanced (h : Balanced (marks body)) (nesting : Nesting) :
    nesting.run body = .ok nesting := by
  generalize hmarks : marks body = items at h
  induction h generalizing body nesting with
  | nil =>
    obtain rfl := List.map_eq_nil_iff.mp hmarks
    rfl
  | plain =>
    obtain ⟨move, moves, rfl, hmark, -⟩ := List.map_eq_cons_iff.mp hmarks
    cases move <;> cases hmark
  | region _ _ ihinner ihrest =>
    obtain ⟨first, others, rfl, hfirst, hothers⟩ := List.map_eq_cons_iff.mp hmarks
    obtain ⟨inner, tail, rfl, hinner, htail⟩ := List.map_eq_append_iff.mp hothers
    obtain ⟨last, rest, rfl, hlast, hrest⟩ := List.map_eq_cons_iff.mp htail
    cases first with
    | leave line => cases hfirst
    | enter opening =>
      cases last with
      | enter opening => cases hlast
      | leave line => rw [run_region _ _ _ (ihinner _ hinner), ihrest _ hrest]

/-- What a nesting is after any history from the start. Its regions are the openings that are not
closed, in their order; text is skipped if one of them has a false condition; the flags of the
regions, from the outermost one, are false up to some region and true from there on. A balanced
history that follows succeeds and changes nothing. -/
theorem run_start_faithful {moves : List Move} {nesting : Nesting}
    (h : run .start moves = .ok nesting) :
    nesting.depth = (unmatched moves).length ∧
    nesting.regions.reverse.map Region.line = (unmatched moves).map Opening.line ∧
    (nesting.skipping = true ↔ ∃ opening ∈ unmatched moves, opening.condition = false) ∧
    (∃ shown skipped, nesting.regions.reverse.map Region.inherited =
      List.replicate shown false ++ List.replicate skipped true) ∧
    ∀ body, Balanced (marks body) → nesting.run body = .ok nesting := by
  have hrestored : ∀ body, Balanced (marks body) → nesting.run body = .ok nesting :=
    fun body hbody => run_of_balanced hbody nesting
  obtain rfl := eq_ofOpenings_unmatched h
  obtain ⟨shown, skipped, hflags, -⟩ := inherited_ofOpenings (unmatched moves)
  exact ⟨depth_ofOpenings _, lines_ofOpenings _, skipping_ofOpenings _,
    ⟨shown, skipped, hflags⟩, hrestored⟩

/-- A region is closed and another one opened in its place; then a balanced history follows. -/
theorem run_start_faithful_reopened :
    let moves :=
      [.enter ⟨true, 1⟩, .enter ⟨false, 2⟩, .leave 3, .enter ⟨false, 4⟩, .enter ⟨true, 6⟩]
    let nesting : Nesting := ⟨[⟨true, 6⟩, ⟨false, 4⟩, ⟨false, 1⟩], true⟩
    run .start moves = .ok nesting ∧ unmatched moves = [⟨true, 1⟩, ⟨false, 4⟩, ⟨true, 6⟩] ∧
      nesting.depth = 3 ∧ (∃ opening ∈ unmatched moves, opening.condition = false) ∧
      nesting.run [.enter ⟨false, 7⟩, .enter ⟨true, 8⟩, .leave 9, .leave 10] = .ok nesting := by
  intro moves nesting
  have hrun : run .start moves = .ok nesting := rfl
  have hunmatched : unmatched moves = [⟨true, 1⟩, ⟨false, 4⟩, ⟨true, 6⟩] := by decide
  obtain ⟨hdepth, -, hskipping, -, hrestored⟩ := run_start_faithful hrun
  refine ⟨hrun, hunmatched, ?_, hskipping.mp rfl, hrestored _ (by decide)⟩
  rw [hdepth, hunmatched]
  rfl

end EdgeTemplate.Nesting
