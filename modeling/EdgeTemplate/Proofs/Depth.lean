import EdgeTemplate.Proofs.Parsing
import EdgeTemplate.Proofs.Simulation

/-!
# The depth of conditions

The tree of a condition is as deep as its negations and groups nest, up to a factor: between two of
them stand at most a disjunction, a conjunction and a comparison. Reading has a budget for nesting,
and so the trees that it builds are bounded, however long the text is.

The budget is handed down from one level to the next. Keeping count of what is open comes to the
same: a counting scanner has a counter that goes up before the inside of a negation or a group is
read and down after it, and it refuses the text where the counter passes the limit. After every
phrase the counter is back at the value it had before, so phrases that stand side by side do not
share the limit.
-/
namespace EdgeTemplate.Condition

open Text Outcome

/-! ### Trees -/

inductive Child : Condition → Condition → Prop
  | not {operand} : Child (.not operand) operand
  | all {operands operand} : operand ∈ operands → Child (.all operands) operand
  | any {operands operand} : operand ∈ operands → Child (.any operands) operand
  | left {relation left right} : Child (.compare relation left right) left
  | right {relation left right} : Child (.compare relation left right) right

/-- A path with the given number of edges leads from a condition down to another. -/
inductive Below : Condition → Nat → Condition → Prop
  | here {root} : Below root 0 root
  | down {root child node edges} : Child root child → Below child edges node →
      Below root (edges + 1) node

def Chained : Condition → Prop
  | .all operands | .any operands => 2 ≤ operands.length
  | _ => True

/-- No path from the root is longer than the bound, and all chains on it have two operands. -/
def Bounded (root : Condition) (bound : Nat) : Prop :=
  ∀ edges node, Below root edges node → edges ≤ bound ∧ node.Chained

variable {root : Condition} {bound n size : Nat} {cs rest : List Char}

theorem Bounded.mono (h : Bounded root bound) {other : Nat} (hle : bound ≤ other) :
    Bounded root other := by
  intro edges node hbelow
  obtain ⟨hedges, hchained⟩ := h edges node hbelow
  exact ⟨hedges.trans hle, hchained⟩

theorem Bounded.of_children (hroot : root.Chained)
    (h : ∀ child, Child root child → Bounded child bound) : Bounded root (bound + 1) := by
  intro edges node hbelow
  cases hbelow with
  | here => exact ⟨Nat.zero_le _, hroot⟩
  | down hchild hbelow =>
    obtain ⟨hedges, hchained⟩ := h _ hchild _ _ hbelow
    exact ⟨Nat.succ_le_succ hedges, hchained⟩

theorem bounded_of_leaf (h : Leaf cs root) : Bounded root 0 := by
  intro edges node hbelow
  cases hbelow with
  | here => cases h <;> exact ⟨Nat.le_refl 0, trivial⟩
  | down hchild => cases h <;> cases hchild

/-- The levels that a phrase adds to those of the groups and negations in it. -/
def Phrase.levels : Phrase → Nat
  | .disjunction => 3
  | .conjunction => 2
  | .comparison => 1
  | .unary | .primary => 0

theorem bounded_of_links {first : Condition} {links : List Link} (hne : links ≠ [])
    (hfirst : Bounded first bound) (hlinks : ∀ link ∈ links, Bounded link.operand bound) :
    Bounded (.any (first :: links.map Link.operand)) (bound + 1) ∧
      Bounded (.all (first :: links.map Link.operand)) (bound + 1) := by
  have hlength : 2 ≤ (first :: links.map Link.operand).length := by
    rw [List.length_cons, List.length_map]
    have := List.length_pos_of_ne_nil hne
    omega
  have hoperands : ∀ operand ∈ first :: links.map Link.operand, Bounded operand bound := by
    rw [List.forall_mem_cons, List.forall_mem_map]
    exact ⟨hfirst, hlinks⟩
  constructor
  · refine .of_children hlength fun child hchild => ?_
    cases hchild with
    | any hmem => exact hoperands child hmem
  · refine .of_children hlength fun child hchild => ?_
    cases hchild with
    | all hmem => exact hoperands child hmem

/-- Every negation and group adds at most three levels. -/
theorem Derives.bounded {phrase : Phrase} (h : Derives phrase n cs root) :
    Bounded root (3 * n + phrase.levels) := by
  induction h with
  | conjunction _ ih => exact ih.mono (by simp [Phrase.levels])
  | comparison _ ih => exact ih.mono (by simp [Phrase.levels])
  | unary _ ih => exact ih.mono (by simp [Phrase.levels])
  | primary _ ih => exact ih
  | any _ hne _ _ ihfirst ihlinks => exact (bounded_of_links hne ihfirst ihlinks).1
  | all _ hne _ _ ihfirst ihlinks => exact (bounded_of_links hne ihfirst ihlinks).2
  | compare _ _ _ _ ihleft ihright =>
    refine .of_children trivial fun child hchild => ?_
    cases hchild with
    | left => exact ihleft
    | right => exact ihright
  | not _ _ ih =>
    have hnot : Bounded (.not _) (3 * _ + 0 + 1) := .of_children trivial fun child hchild => by
      cases hchild with
      | not => exact ih
    exact hnot.mono (by simp only [Phrase.levels]; omega)
  | group _ _ _ ih => exact ih.mono (by simp only [Phrase.levels]; omega)
  | leaf _ hleaf => exact (bounded_of_leaf hleaf).mono (Nat.zero_le _)

theorem bounded_of_parse {text : List Char} (h : parse text = .ok root) :
    Bounded root (3 * (maxNesting + 1)) := by
  obtain ⟨cs, blanks, -, hcs, -⟩ := derivable_of_parse h
  exact hcs.bounded

/-! ### Counting -/

abbrev Counting (α : Type) := StateT Nat Reader α

/-- Counts one more and fails if that is too many. -/
def enter : Counting Unit := do
  modify (· + 1)
  if maxNesting < (← get) then throw .nestedTooDeep

/-- The scanner of a text of the given size in bytes that keeps count of what is open. -/
def counting (size : Nat) : Scanner Counting where
  rest := StateT.lift (plain size).rest
  position := StateT.lift (plain size).position
  atEnd := StateT.lift (plain size).atEnd
  skipBlanks := StateT.lift (plain size).skipBlanks
  pass literal := StateT.lift ((plain size).pass literal)
  passKeyword keyword := StateT.lift ((plain size).passKeyword keyword)
  string := StateT.lift (plain size).string
  number := StateT.lift (plain size).number
  word := StateT.lift (plain size).word
  refuse cause := StateT.lift ((plain size).refuse cause)
  nested inner := do
    enter
    let result ← inner
    modify (· - 1)
    return result

/-- The condition that a text holds, read with a counter that starts at zero. The counter alone
decides how deep negations and groups nest; the levels only make the recursion end. -/
def countParse (levels : Nat) (text : List Char) : Except SyntaxError Condition :=
  (((counting (utf8Length text)).whole levels).run' 0).run' text

/-- With the counter at the given depth, counting comes to what plain reading comes to, and the
counter is at the same depth after it. -/
def mirrors (depth : Nat) : Simulation Counting Reader where
  Rel counted plain := counted.run depth = (fun a => (a, depth)) <$> plain
  pure a := by rw [StateT.run_pure, map_pure]
  bind h hnext := by simp only [StateT.run_bind, h, hnext, bind_map_left, map_bind]

section Mirrors

variable {α : Type} {depth : Nat} {counted : Counting α} {reader : Reader α}

theorem mirrors_lift (reader : Reader α) : (mirrors depth).Rel (StateT.lift reader) reader := by
  change (StateT.lift reader).run depth = (fun a => (a, depth)) <$> reader
  rw [StateT.run_lift, map_eq_pure_bind]

theorem mirrors_counting (size depth : Nat) :
    (counting size).Simulated (mirrors depth) (plain size) where
  rest := mirrors_lift _
  skipBlanks := mirrors_lift _
  pass _ := mirrors_lift _
  passKeyword _ := mirrors_lift _
  string := mirrors_lift _
  number := mirrors_lift _
  word := mirrors_lift _
  unclosed := mirrors_lift _
  unexpected := by
    refine (mirrors depth).bind (mirrors_lift _) fun cs => ?_
    cases cs with
    | nil => exact mirrors_lift _
    | cons c cs => exact (mirrors depth).bind (mirrors_lift _) fun _ => mirrors_lift _
  finish := by
    refine (mirrors depth).bind (mirrors_lift _) fun _ => ?_
    refine (mirrors depth).bind (mirrors_lift _) fun _ => (mirrors depth).ite ?_ ?_
    · exact (mirrors depth).pure ()
    · exact (mirrors depth).bind (mirrors_lift _) fun _ =>
        (mirrors depth).bind (mirrors_lift _) fun _ => mirrors_lift _

theorem run_enter (depth : Nat) :
    enter.run depth =
      if maxNesting < depth + 1 then throw .nestedTooDeep else pure ((), depth + 1) := by
  change (if maxNesting < depth + 1 then (throw .nestedTooDeep : Counting Unit) else pure ()).run
    (depth + 1) = _
  split
  · rfl
  · rfl

theorem mirrors_nested (hdepth : depth < maxNesting) (h : (mirrors (depth + 1)).Rel counted reader) :
    (mirrors depth).Rel ((counting size).nested counted) reader := by
  change ((counting size).nested counted).run depth = (fun a => (a, depth)) <$> reader
  rw [counting, StateT.run_bind, run_enter, if_neg (by omega), pure_bind, StateT.run_bind, h,
    bind_map_left, map_eq_pure_bind]
  rfl

theorem mirrors_nested_too_deep (hdepth : maxNesting ≤ depth) (counted : Counting α) :
    (mirrors depth).Rel ((counting size).nested counted) ((plain size).refuse .nestedTooDeep) := by
  change ((counting size).nested counted).run depth = (fun a => (a, depth)) <$> _
  rw [counting, StateT.run_bind, run_enter, if_pos (by omega)]
  rfl

end Mirrors

/-- Counting up to the limit is reading with the budget that is left. -/
theorem mirrors_unary (size depth : Nat) {levels : Nat} (hlevels : 0 < levels)
    (h : maxNesting < depth + levels) :
    (mirrors depth).Rel ((counting size).unary levels) ((plain size).unary (maxNesting - depth)) ∧
      (mirrors depth).Rel ((counting size).grouped levels)
        ((plain size).grouped (maxNesting - depth)) := by
  induction levels generalizing depth with
  | zero => omega
  | succ levels ih =>
    have hcounting := mirrors_counting size depth
    by_cases hdepth : depth < maxNesting
    · obtain ⟨hunary, -⟩ := ih (depth + 1) (by omega) (by omega)
      have hgrouped : (mirrors depth).Rel ((counting size).nested _) _ :=
        mirrors_nested hdepth ((mirrors_counting size (depth + 1)).group hunary)
      rw [show maxNesting - depth = maxNesting - (depth + 1) + 1 by omega]
      refine ⟨hcounting.negationOr ?_ hgrouped, hgrouped⟩
      exact mirrors_nested hdepth ((mirrors (depth + 1)).bind hunary fun _ => (mirrors _).pure _)
    · have htoodeep : ∀ counted : Counting Condition, (mirrors depth).Rel
          ((counting size).nested counted) ((plain size).refuse .nestedTooDeep) :=
        mirrors_nested_too_deep (Nat.le_of_not_lt hdepth)
      rw [show maxNesting - depth = 0 by omega]
      exact ⟨hcounting.negationOr (htoodeep _) (htoodeep _), htoodeep _⟩

theorem mirrors_phrase {depth levels : Nat} (h : maxNesting < levels) (phrase : Phrase) :
    (mirrors depth).Rel ((counting size).phrase levels phrase)
      ((plain size).phrase (maxNesting - depth) phrase) := by
  have hlevels : 0 < levels ∧ maxNesting < depth + levels := by omega
  obtain ⟨hunary, hgrouped⟩ := mirrors_unary size depth hlevels.1 hlevels.2
  exact (mirrors_counting size depth).phrase hunary hgrouped phrase

/-- A phrase that is read with the counter is read with the budget that the counter leaves, and the
counter is as it was. -/
theorem eq_of_count {levels depth after : Nat} {phrase : Phrase} {condition : Condition}
    (h : maxNesting < levels)
    (hcount : (((counting size).phrase levels phrase).run depth).run cs =
      .ok ((condition, after), rest)) :
    after = depth ∧
      ((plain size).phrase (maxNesting - depth) phrase).run cs = .ok (condition, rest) := by
  have hmirrors : ((counting size).phrase levels phrase).run depth =
      (fun condition => (condition, depth)) <$> (plain size).phrase (maxNesting - depth) phrase :=
    mirrors_phrase h phrase
  rw [hmirrors, StateT.run_map] at hcount
  obtain ⟨⟨_, _⟩, hread, hpair⟩ := map_eq_ok_iff.mp hcount
  cases hpair
  exact ⟨rfl, hread⟩

theorem countParse_eq {levels : Nat} (h : maxNesting < levels) (text : List Char) :
    countParse levels text = parse text := by
  have hwhole : ((counting (utf8Length text)).whole levels).run 0 =
      (fun condition => (condition, 0)) <$> (plain (utf8Length text)).whole maxNesting :=
    (mirrors_counting _ 0).whole (mirrors_unary _ 0 (by omega) (by omega)).1
  have hvalue : ((counting (utf8Length text)).whole levels).run' 0 =
      (plain (utf8Length text)).whole maxNesting := by
    rw [StateT.run'_eq, hwhole, ← comp_map]
    exact id_map _
  rw [countParse, hvalue, parse]

theorem parse_siblings {text : List Char} {first : Condition} {links : List Link}
    (hfirst : Derives .unary maxNesting text first) (hne : links ≠ [])
    (hblanks : ∀ link ∈ links, Blank link.blanks)
    (hlinks : ∀ link ∈ links, Derives .unary maxNesting link.text link.operand) :
    parse (text ++ links.flatMap (Link.source ['&', '&'])) =
        .ok (.all (first :: links.map Link.operand)) ∧
      parse (text ++ links.flatMap (Link.source ['|', '|'])) =
        .ok (.any (first :: links.map Link.operand)) := by
  constructor
  · exact parse_of_derives
      (.conjunction (.all (.unary hfirst) hne hblanks fun link hlink => .unary (hlinks link hlink)))
  · exact parse_of_derives (.any (.comparison (.unary hfirst)) hne hblanks
      fun link hlink => .comparison (.unary (hlinks link hlink)))

/-- What is accepted is bounded, whatever the length of the text: no path in the tree has more than
195 edges, and every chain has two operands. Reading with a counter of open negations and groups is
reading, and the counter is the same after every phrase as before it. So a chain of any length is
accepted, though each of its operands nests as deep as the limit allows. -/
theorem parse_bounded (text : List Char) :
    (∀ condition, parse text = .ok condition → ∀ edges node, Below condition edges node →
      edges ≤ 195 ∧ node.Chained) ∧
    (∀ size levels depth phrase cs condition rest after, maxNesting < levels →
      (((counting size).phrase levels phrase).run depth).run cs = .ok ((condition, after), rest) →
      after = depth ∧
        ((plain size).phrase (maxNesting - depth) phrase).run cs = .ok (condition, rest)) ∧
    (∀ levels, maxNesting < levels → countParse levels text = parse text) ∧
    ∀ (first : Condition) (links : List Link), Derives .unary maxNesting text first → links ≠ [] →
      (∀ link ∈ links, Blank link.blanks) →
      (∀ link ∈ links, Derives .unary maxNesting link.text link.operand) →
      parse (text ++ links.flatMap (Link.source ['&', '&'])) =
          .ok (.all (first :: links.map Link.operand)) ∧
        parse (text ++ links.flatMap (Link.source ['|', '|'])) =
          .ok (.any (first :: links.map Link.operand)) := by
  refine ⟨?_, ?_, ?_, ?_⟩
  · intro condition h
    exact bounded_of_parse h
  · intro size levels depth phrase cs condition rest after hlevels hcount
    exact eq_of_count hlevels hcount
  · intro levels hlevels
    exact countParse_eq hlevels text
  · intro first links hfirst hne hblanks hlinks
    exact parse_siblings hfirst hne hblanks hlinks

/-! ### The deepest trees -/

/-- The text of a disjunction of a conjunction of a comparison with the given operand. -/
def deepenText (operand : List Char) : List Char :=
  ['a', '|', '|', 'a', '&', '&', 'a', '=', '='] ++ operand

def deepen (operand : Condition) : Condition :=
  .any [.path ["a"], .all [.path ["a"], .compare .eq (.path ["a"]) operand]]

def deepText : Nat → List Char
  | 0 => ['a']
  | n + 1 => '(' :: (deepenText (deepText n) ++ [')'])

def deepTree : Nat → Condition
  | 0 => .path ["a"]
  | n + 1 => deepen (deepTree n)

theorem derives_name (n : Nat) : Derives .unary n ['a'] (.path ["a"]) := by
  have hword : Word ['a'] := by decide
  have hleaf : Leaf ['a'] (.path ["a"]) :=
    .path hword (by decide) (by decide) (List.forall_mem_nil _)
  exact .primary (.leaf (List.forall_mem_nil _) hleaf)

theorem derives_deepenText {operand : Condition} (h : Derives .unary n cs operand) :
    Derives .disjunction n (deepenText cs) (deepen operand) := by
  have hnil : Blank [] := List.forall_mem_nil _
  have hspelling : (['=', '='], Relation.eq) ∈ spellings := by decide
  let compared : Link := ⟨[], ['a', '=', '='] ++ cs, .compare .eq (.path ["a"]) operand⟩
  have hcompared : Derives .comparison n compared.text compared.operand :=
    .compare (derives_name n) hnil hspelling h
  let joined : Link := ⟨[], ['a', '&', '&'] ++ compared.text, .all [.path ["a"], compared.operand]⟩
  have hjoined : Derives .conjunction n joined.text joined.operand := by
    have hall := Derives.all (.unary (derives_name n)) (List.cons_ne_nil compared [])
      (List.forall_mem_singleton.mpr hnil) (List.forall_mem_singleton.mpr hcompared)
    rwa [List.flatMap_singleton] at hall
  have hany := Derives.any (.comparison (.unary (derives_name n))) (List.cons_ne_nil joined [])
    (List.forall_mem_singleton.mpr hnil) (List.forall_mem_singleton.mpr hjoined)
  rwa [List.flatMap_singleton] at hany

theorem derives_deepText (n : Nat) : Derives .unary n (deepText n) (deepTree n) := by
  have hnil : Blank [] := List.forall_mem_nil _
  induction n with
  | zero => exact derives_name 0
  | succ n ih => exact .primary (.group hnil (derives_deepenText ih) hnil)

theorem below_deepen {operand node : Condition} {edges : Nat} (h : Below operand edges node) :
    Below (deepen operand) (edges + 3) node := by
  have hsecond : ∀ {a b : Condition}, b ∈ [a, b] := List.mem_cons_of_mem _ List.mem_cons_self
  have hcompare : Below (.compare .eq (.path ["a"]) operand) (edges + 1) node := .down .right h
  exact .down (.any hsecond) (.down (.all hsecond) hcompare)

theorem below_deepTree (n : Nat) : Below (deepTree n) (3 * n) (.path ["a"]) := by
  induction n with
  | zero => exact .here
  | succ n ih => exact below_deepen ih

/-- The bound is attained where groups nest as deep as the limit allows. -/
theorem parse_bounded_deepest :
    let text := deepenText (deepText maxNesting)
    let condition := deepen (deepTree maxNesting)
    parse text = .ok condition ∧ Below condition 195 (.path ["a"]) ∧
      (∀ edges node, Below condition edges node → edges ≤ 195) ∧
      countParse 100 text = .ok condition := by
  intro text condition
  have hparse : parse text = .ok condition :=
    parse_of_derives (derives_deepenText (derives_deepText maxNesting))
  refine ⟨hparse, below_deepen (below_deepTree maxNesting), ?_, ?_⟩
  · intro edges node hbelow
    exact ((parse_bounded text).1 condition hparse edges node hbelow).1
  · rw [(parse_bounded text).2.2.1 100 (by decide), hparse]

end EdgeTemplate.Condition
