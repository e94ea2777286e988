import EdgeTemplate.Proofs.Phrases

/-!
# Reading conditions by their grammar

Reading accepts the texts of the grammar, with their trees, and no others. A phrase is read as a
whole, by induction on its derivation, wherever the text goes on with something that cannot belong
to it; `Follows` says for each kind of phrase what that is.
-/
namespace EdgeTemplate.Condition

open Text Outcome

variable {cs rest : List Char} {condition : Condition} {size n : Nat}

def continuations : Phrase → List (List Char)
  | .disjunction => ['|', '|'] :: ['&', '&'] :: spellings.map Prod.fst
  | .conjunction => ['&', '&'] :: spellings.map Prod.fst
  | .comparison => spellings.map Prod.fst
  | .unary | .primary => []

/-- What may follow a phrase: no character that would lengthen its last token, and no token that the
phrase could go on with. -/
def Follows (phrase : Phrase) (rest : List Char) : Prop :=
  Ends lengthens rest ∧ ∀ token ∈ continuations phrase, token.isPrefixOf? (skipBlanks rest) = none

/-- A reader comes to a value at the start of a text, up to blanks, and no further. -/
def Reads {α : Type} (reader : Reader α) (cs : List Char) (a : α) (rest : List Char) : Prop :=
  ∃ last, reader.run cs = .ok (a, last) ∧ skipBlanks last = skipBlanks rest

theorem ends_blanks {blanks : List Char} (hblanks : Blank blanks) (h : Ends lengthens rest) :
    Ends lengthens (blanks ++ rest) := by
  cases blanks with
  | nil => exact h
  | cons c blanks =>
    have hc := toNat_of_isBlank (hblanks c (by simp))
    rw [List.cons_append, ends_cons_iff]
    by_contra hlong
    simp only [lengthens, Bool.not_eq_false, Bool.or_eq_true, beq_iff_eq] at hlong
    rcases hlong with hword | rfl
    · have := toNat_of_isWordChar hword
      omega
    · revert hc
      decide

theorem follows_blanks {blanks : List Char} (hblanks : Blank blanks) {phrase : Phrase}
    (h : Follows phrase rest) : Follows phrase (blanks ++ rest) := by
  refine ⟨ends_blanks hblanks h.1, ?_⟩
  rw [skipBlanks_append hblanks]
  exact h.2

theorem Follows.of_subset {phrase other : Phrase} (h : Follows phrase rest)
    (hsub : continuations other ⊆ continuations phrase) : Follows other rest :=
  ⟨h.1, fun token htoken => h.2 token (hsub htoken)⟩

theorem follows_nil : Follows .disjunction [] :=
  ⟨ends_nil, by decide⟩

theorem follows_cons {phrase : Phrase} {c : Char} (hlong : lengthens c = false)
    (hblank : isBlank c = false)
    (h : ∀ token ∈ continuations phrase, token.head?.any (· != c) = true) :
    Follows phrase (c :: rest) := by
  refine ⟨ends_cons_iff.mpr hlong, ?_⟩
  intro token htoken
  rw [skipBlanks_cons_of_not_blank hblank]
  have hhead := h token htoken
  cases token with
  | nil => simp at hhead
  | cons d token =>
    have hne : d ≠ c := by simpa using hhead
    simp [List.isPrefixOf?, hne]

theorem follows_close : Follows .disjunction (')' :: rest) :=
  follows_cons (by decide) (by decide) (by decide)

theorem follows_or : Follows .conjunction ('|' :: rest) :=
  follows_cons (by decide) (by decide) (by decide)

theorem follows_and : Follows .comparison ('&' :: rest) :=
  follows_cons (by decide) (by decide) (by decide)

theorem exists_cons_of_mem_spellings {spelling : List Char} {relation : Relation}
    (h : (spelling, relation) ∈ spellings) :
    ∃ c others, spelling = c :: others ∧ isBlank c = false ∧ lengthens c = false := by
  have hheads : ∀ entry ∈ spellings,
      entry.1.head?.any (fun c => !isBlank c && !lengthens c) = true := by decide
  have hhead := hheads _ h
  cases spelling with
  | nil => simp at hhead
  | cons c others => exact ⟨c, others, rfl, by simpa using hhead⟩

theorem follows_spelling {spelling : List Char} {relation : Relation}
    (h : (spelling, relation) ∈ spellings) : Follows .unary (spelling ++ rest) := by
  obtain ⟨c, others, rfl, -, hlong⟩ := exists_cons_of_mem_spellings h
  exact ⟨ends_cons_iff.mpr hlong, List.forall_mem_nil _⟩

theorem relation?_eq_none (h : Follows .comparison rest) :
    relation? spellings (skipBlanks rest) = none := by
  rw [relation?, List.findSome?_eq_none_iff]
  intro entry hentry
  rw [h.2 entry.1 (List.mem_map_of_mem hentry), Option.map_none]

/-- The longest spelling is taken, because no operand starts with `=`. -/
theorem relation?_complete {spelling : List Char} {relation : Relation}
    (h : (spelling, relation) ∈ spellings) (hrest : rest.head? ≠ some '=') :
    relation? spellings (spelling ++ rest) = some (relation, rest) := by
  simp only [spellings, List.mem_cons, List.not_mem_nil, or_false, Prod.mk.injEq] at h
  rcases h with ⟨rfl, rfl⟩ | ⟨rfl, rfl⟩ | ⟨rfl, rfl⟩ | ⟨rfl, rfl⟩ | ⟨rfl, rfl⟩ | ⟨rfl, rfl⟩ |
    ⟨rfl, rfl⟩ | ⟨rfl, rfl⟩
  all_goals
    cases rest with
    | nil => rfl
    | cons c rest =>
      have hne : c ≠ '=' := by simpa using hrest
      have hc : ('=' == c) = false := beq_eq_false_iff_ne.mpr hne.symm
      simp [relation?, spellings, List.isPrefixOf?, hc]

theorem skipBlanks_cons {blanks : List Char} (hblanks : Blank blanks) {c : Char}
    (hc : isBlank c = false) : skipBlanks (blanks ++ c :: rest) = c :: rest := by
  rw [skipBlanks_append hblanks, skipBlanks_cons_of_not_blank hc]

theorem Derives.exists_start {phrase : Phrase} (h : Derives phrase n cs condition) :
    ∃ blanks c tail, cs = blanks ++ c :: tail ∧ Blank blanks ∧ isBlank c = false ∧ c ≠ '=' ∧
      (phrase = .primary → c ≠ '!') := by
  induction h with
  | conjunction _ ih =>
    obtain ⟨blanks, c, tail, rfl, hblanks, hc, heq, -⟩ := ih
    exact ⟨blanks, c, tail, rfl, hblanks, hc, heq, nofun⟩
  | comparison _ ih =>
    obtain ⟨blanks, c, tail, rfl, hblanks, hc, heq, -⟩ := ih
    exact ⟨blanks, c, tail, rfl, hblanks, hc, heq, nofun⟩
  | unary _ ih =>
    obtain ⟨blanks, c, tail, rfl, hblanks, hc, heq, -⟩ := ih
    exact ⟨blanks, c, tail, rfl, hblanks, hc, heq, nofun⟩
  | primary _ ih =>
    obtain ⟨blanks, c, tail, rfl, hblanks, hc, heq, -⟩ := ih
    exact ⟨blanks, c, tail, rfl, hblanks, hc, heq, nofun⟩
  | any _ _ _ _ ih _ =>
    obtain ⟨blanks, c, tail, rfl, hblanks, hc, heq, -⟩ := ih
    exact ⟨blanks, c, _, List.append_assoc _ _ _, hblanks, hc, heq, nofun⟩
  | all _ _ _ _ ih _ =>
    obtain ⟨blanks, c, tail, rfl, hblanks, hc, heq, -⟩ := ih
    exact ⟨blanks, c, _, List.append_assoc _ _ _, hblanks, hc, heq, nofun⟩
  | compare _ _ _ _ ih _ =>
    obtain ⟨blanks, c, tail, rfl, hblanks, hc, heq, -⟩ := ih
    exact ⟨blanks, c, _, List.append_assoc _ _ _, hblanks, hc, heq, nofun⟩
  | not hblanks _ _ => exact ⟨_, '!', _, rfl, hblanks, by decide, by decide, nofun⟩
  | group hblanks _ _ _ => exact ⟨_, '(', _, rfl, hblanks, by decide, by decide, by decide⟩
  | leaf hblanks hleaf =>
    obtain ⟨c, tail, rfl, hc, hmarks⟩ := hleaf.exists_start
    exact ⟨_, c, tail, rfl, hblanks, hc, by simp_all, by simp_all⟩

theorem Derives.head?_ne {phrase : Phrase} (h : Derives phrase n cs condition)
    (rest : List Char) : (cs ++ rest).head? ≠ some '=' := by
  obtain ⟨blanks, c, tail, rfl, hblanks, -, hc, -⟩ := h.exists_start
  cases blanks with
  | nil => simpa using hc
  | cons d blanks =>
    intro hhead
    obtain rfl : d = '=' := by simpa using hhead
    exact absurd (hblanks '=' (by simp)) (by decide)

section Levels

variable {operand : Reader Condition}

theorem length_le_of_links {connective : List Char} {links : List Link}
    (hconnective : ∃ c others, connective = c :: others ∧ isBlank c = false)
    (hblanks : ∀ link ∈ links, Blank link.blanks)
    (h : skipBlanks cs = skipBlanks (links.flatMap (Link.source connective) ++ rest)) :
    links.length ≤ cs.length := by
  obtain ⟨c, others, rfl, hc⟩ := hconnective
  have hle : (skipBlanks cs).length ≤ cs.length := (List.dropWhile_suffix _).length_le
  cases links with
  | nil => exact Nat.zero_le _
  | cons link links =>
    have hmore : links.length ≤ (links.flatMap (Link.source (c :: others))).length :=
      length_le_length_flatMap (by simp [Link.source])
    rw [List.flatMap_cons, Link.source, List.append_assoc, List.append_assoc, List.append_assoc,
      skipBlanks_append (hblanks link (by simp)), List.cons_append,
      skipBlanks_cons_of_not_blank hc] at h
    rw [h] at hle
    simp only [List.length_cons, List.length_append] at hle ⊢
    omega

theorem reads_operands (good : List Char → Prop) {connective text : List Char}
    {join : List Condition → Condition} {first : Condition} {links : List Link}
    (hconnective : ∃ c others, connective = c :: others ∧ isBlank c = false)
    (hfirst : ∀ tail, good tail → Reads operand (text ++ tail) first tail)
    (hlinks : ∀ link ∈ links, ∀ tail, good tail →
      Reads operand (link.text ++ tail) link.operand tail)
    (hblanks : ∀ link ∈ links, Blank link.blanks)
    (hgood : ∀ blanks tail, Blank blanks → good (blanks ++ (connective ++ tail)))
    (hrest : good rest) (hstop : connective.isPrefixOf? (skipBlanks rest) = none) :
    Reads ((plain size).operands connective join operand)
      (text ++ links.flatMap (Link.source connective) ++ rest)
      (chain join first (links.map Link.operand)) rest := by
  have hstart : ∀ tail, skipBlanks (connective ++ tail) = connective ++ tail := by
    intro tail
    obtain ⟨c, others, rfl, hc⟩ := hconnective
    exact skipBlanks_cons_of_not_blank hc _
  have hsource : ∀ link ∈ links, ∀ tail, good (link.source connective ++ tail) := by
    intro link hlink tail
    rw [Link.source, List.append_assoc, List.append_assoc]
    exact hgood _ _ (hblanks link hlink)
  have hstep : ∀ link ∈ links, ∀ tail cs, good tail →
      skipBlanks cs = skipBlanks (link.source connective ++ tail) →
      Reads ((plain size).nextOperand connective operand) cs (some link.operand) tail := by
    intro link hlink tail cs htail hcs
    obtain ⟨last, hread, hlast⟩ := hlinks link hlink tail htail
    rw [Link.source, List.append_assoc, List.append_assoc, skipBlanks_append (hblanks link hlink),
      hstart] at hcs
    refine ⟨last, ?_, hlast⟩
    rw [Scanner.nextOperand, run_bind_ok (run_skipBlanks cs), hcs,
      run_bind_ok (run_pass_append connective _), if_pos rfl, run_bind_ok hread]
    rfl
  have hdecline : ∀ cs, skipBlanks cs = skipBlanks rest →
      Reads ((plain size).nextOperand connective operand) cs none rest := by
    intro cs hcs
    refine ⟨skipBlanks rest, ?_, skipBlanks_skipBlanks rest⟩
    rw [Scanner.nextOperand, run_bind_ok (run_skipBlanks cs), hcs,
      run_bind_ok (run_pass_none hstop)]
    rfl
  obtain ⟨mid, hread, hmid⟩ := hfirst _ (flatMap_append_of_parts hsource hrest)
  obtain ⟨last, hmany, hlast⟩ :=
    collect_complete (fun text cs => skipBlanks cs = skipBlanks text) good hstep hsource hrest
      hdecline (length_le_of_links hconnective hblanks hmid) hmid
  refine ⟨last, ?_, hlast⟩
  rw [List.append_assoc, Scanner.operands, run_bind_ok hread, readMany, bind_assoc,
    run_bind_ok (run_rest mid), run_bind_ok hmany]
  rfl

theorem reads_comparison_single {text : List Char} (h : Reads operand (text ++ rest) condition rest)
    (hrest : Follows .comparison rest) :
    Reads ((plain size).comparison operand) (text ++ rest) condition rest := by
  obtain ⟨mid, hread, hmid⟩ := h
  refine ⟨skipBlanks rest, ?_, skipBlanks_skipBlanks rest⟩
  rw [Scanner.comparison, run_bind_ok hread, run_bind_ok (run_skipBlanks mid), hmid,
    run_bind_ok (run_relation _ _), relation?_eq_none hrest]
  rfl

theorem reads_comparison_pair {left right blanks spelling : List Char} {l r : Condition}
    {relation : Relation} (hblanks : Blank blanks) (hmem : (spelling, relation) ∈ spellings)
    (hleft : Reads operand (left ++ (blanks ++ (spelling ++ (right ++ rest)))) l
      (blanks ++ (spelling ++ (right ++ rest))))
    (hright : Reads operand (right ++ rest) r rest) (hhead : (right ++ rest).head? ≠ some '=') :
    Reads ((plain size).comparison operand) (left ++ (blanks ++ spelling ++ right) ++ rest)
      (.compare relation l r) rest := by
  have hskip : skipBlanks (blanks ++ (spelling ++ (right ++ rest))) =
      spelling ++ (right ++ rest) := by
    obtain ⟨c, others, rfl, hc, -⟩ := exists_cons_of_mem_spellings hmem
    exact skipBlanks_cons hblanks hc
  obtain ⟨mid, hread, hmid⟩ := hleft
  obtain ⟨last, hlast, hend⟩ := hright
  refine ⟨last, ?_, hend⟩
  simp only [List.append_assoc]
  rw [Scanner.comparison, run_bind_ok hread, run_bind_ok (run_skipBlanks mid), hmid, hskip,
    run_bind_ok (run_relation _ _), relation?_complete hmem hhead]
  exact run_bind_ok hlast _

end Levels

section Primary

variable {negated grouped : Reader Condition}

theorem run_negationOr (h : ['!'].isPrefixOf? (skipBlanks cs) = none) :
    ((plain size).negationOr negated grouped).run cs = ((plain size).primary grouped).run cs := by
  rw [Scanner.negationOr, run_bind_ok (run_skipBlanks cs)]
  refine (run_bind_ok (run_pass_none h) _).trans ?_
  change ((plain size).primary grouped).run (skipBlanks cs) = _
  rw [Scanner.primary, run_bind_ok (run_skipBlanks _), run_bind_ok (run_skipBlanks _),
    skipBlanks_skipBlanks]

theorem run_primary_group {blanks : List Char} (hblanks : Blank blanks) :
    ((plain size).primary grouped).run (blanks ++ '(' :: cs) = grouped.run cs := by
  rw [Scanner.primary, run_bind_ok (run_skipBlanks _), skipBlanks_cons hblanks (by decide),
    run_bind_ok (run_rest _)]
  exact run_bind_ok (run_pass_append ['('] cs) _

end Primary

theorem reads_not {blanks : List Char} (hblanks : Blank blanks)
    (h : Reads ((plain size).unary n) (cs ++ rest) condition rest) :
    Reads ((plain size).unary (n + 1)) (blanks ++ '!' :: cs ++ rest) (.not condition) rest := by
  obtain ⟨last, hread, hlast⟩ := h
  refine ⟨last, ?_, hlast⟩
  rw [List.append_assoc, List.cons_append, Scanner.unary, Scanner.negationOr,
    run_bind_ok (run_skipBlanks _), skipBlanks_cons hblanks (by decide)]
  refine (run_bind_ok (run_pass_append ['!'] _) _).trans ?_
  exact run_bind_ok hread _

theorem reads_group {blanks inner : List Char} (hblanks : Blank blanks) (hinner : Blank inner)
    (h : Reads ((plain size).disjunction ((plain size).unary n)) (cs ++ (inner ++ ')' :: rest))
      condition (inner ++ ')' :: rest)) :
    Reads ((plain size).primary ((plain size).grouped (n + 1)))
      (blanks ++ '(' :: (cs ++ (inner ++ [')'])) ++ rest) condition rest := by
  obtain ⟨mid, hread, hmid⟩ := h
  have hcs : blanks ++ '(' :: (cs ++ (inner ++ [')'])) ++ rest =
      blanks ++ '(' :: (cs ++ (inner ++ ')' :: rest)) := by simp
  rw [skipBlanks_cons hinner (by decide)] at hmid
  refine ⟨rest, ?_, rfl⟩
  rw [hcs, run_primary_group hblanks]
  refine (run_bind_ok hread _).trans ?_
  rw [run_bind_ok (run_skipBlanks mid), hmid]
  exact run_bind_ok (run_pass_append [')'] rest) _

theorem reads_leaf {blanks : List Char} {grouped : Reader Condition} (hblanks : Blank blanks)
    (hleaf : Leaf cs condition) (hrest : Ends lengthens rest) :
    Reads ((plain size).primary grouped) (blanks ++ cs ++ rest) condition rest := by
  obtain ⟨c, tail, rfl, hblank, hmarks⟩ := hleaf.exists_start
  have hread : ((plain size).leaf c).run _ = _ := leaf_complete hleaf hrest
  have hopen : ['('].isPrefixOf? (c :: tail ++ rest) = none := by
    have hne : '(' ≠ c := by
      rintro rfl
      simp at hmarks
    simp [List.isPrefixOf?, hne]
  refine ⟨rest, ?_, rfl⟩
  rw [List.append_assoc, Scanner.primary, run_bind_ok (run_skipBlanks _), List.cons_append,
    skipBlanks_cons hblanks hblank, run_bind_ok (run_rest _)]
  exact (run_bind_ok (run_pass_none hopen) _).trans hread

theorem reads_unary_primary (hprimary : Derives .primary n cs condition)
    (h : Reads ((plain size).primary ((plain size).grouped n)) (cs ++ rest) condition rest) :
    Reads ((plain size).unary n) (cs ++ rest) condition rest := by
  obtain ⟨last, hread, hlast⟩ := h
  obtain ⟨blanks, c, tail, rfl, hblanks, hblank, -, hc⟩ := hprimary.exists_start
  have hnot : ['!'].isPrefixOf? (skipBlanks (blanks ++ c :: tail ++ rest)) = none := by
    rw [List.append_assoc, List.cons_append, skipBlanks_cons hblanks hblank]
    simp [List.isPrefixOf?, Ne.symm (hc rfl)]
  refine ⟨last, ?_, hlast⟩
  cases n with
  | zero => exact (run_negationOr hnot).trans hread
  | succ n => exact (run_negationOr hnot).trans hread

theorem reads_disjunction {text : List Char} {first : Condition} {links : List Link}
    (hfirst : ∀ tail, Follows .conjunction tail →
      Reads ((plain size).phrase n .conjunction) (text ++ tail) first tail)
    (hlinks : ∀ link ∈ links, ∀ tail, Follows .conjunction tail →
      Reads ((plain size).phrase n .conjunction) (link.text ++ tail) link.operand tail)
    (hblanks : ∀ link ∈ links, Blank link.blanks) (hrest : Follows .disjunction rest) :
    Reads ((plain size).phrase n .disjunction)
      (text ++ links.flatMap (Link.source ['|', '|']) ++ rest)
      (chain .any first (links.map Link.operand)) rest :=
  reads_operands (Follows .conjunction) ⟨'|', ['|'], rfl, by decide⟩ hfirst hlinks hblanks
    (fun _ _ hb => follows_blanks hb follows_or) (hrest.of_subset (by decide))
    (hrest.2 _ (by decide))

theorem reads_conjunction {text : List Char} {first : Condition} {links : List Link}
    (hfirst : ∀ tail, Follows .comparison tail →
      Reads ((plain size).phrase n .comparison) (text ++ tail) first tail)
    (hlinks : ∀ link ∈ links, ∀ tail, Follows .comparison tail →
      Reads ((plain size).phrase n .comparison) (link.text ++ tail) link.operand tail)
    (hblanks : ∀ link ∈ links, Blank link.blanks) (hrest : Follows .conjunction rest) :
    Reads ((plain size).phrase n .conjunction)
      (text ++ links.flatMap (Link.source ['&', '&']) ++ rest)
      (chain .all first (links.map Link.operand)) rest :=
  reads_operands (Follows .comparison) ⟨'&', ['&'], rfl, by decide⟩ hfirst hlinks hblanks
    (fun _ _ hb => follows_blanks hb follows_and) (hrest.of_subset (by decide))
    (hrest.2 _ (by decide))

/-- A phrase is read as a whole where nothing follows that could belong to it. -/
theorem reads_phrase {phrase : Phrase} (h : Derives phrase n cs condition)
    (hrest : Follows phrase rest) :
    Reads ((plain size).phrase n phrase) (cs ++ rest) condition rest := by
  induction h generalizing rest with
  | conjunction _ ih =>
    have hread := reads_disjunction (fun _ => ih) (List.forall_mem_nil _) (List.forall_mem_nil _)
      hrest
    rwa [List.flatMap_nil, List.append_nil] at hread
  | @any n cs e links _ hne hblanks _ ihfirst ihlinks =>
    have hread := reads_disjunction (fun _ => ihfirst) (fun link hlink _ => ihlinks link hlink)
      hblanks hrest
    obtain ⟨link, links, rfl⟩ := List.exists_cons_of_ne_nil hne
    exact hread
  | comparison _ ih =>
    have hread := reads_conjunction (fun _ => ih) (List.forall_mem_nil _) (List.forall_mem_nil _)
      hrest
    rwa [List.flatMap_nil, List.append_nil] at hread
  | @all n cs e links _ hne hblanks _ ihfirst ihlinks =>
    have hread := reads_conjunction (fun _ => ihfirst) (fun link hlink _ => ihlinks link hlink)
      hblanks hrest
    obtain ⟨link, links, rfl⟩ := List.exists_cons_of_ne_nil hne
    exact hread
  | unary _ ih => exact reads_comparison_single (ih (hrest.of_subset (by decide))) hrest
  | @compare n left right l r blanks spelling relation _ hblanks hmem hright ihleft ihright =>
    refine reads_comparison_pair hblanks hmem (ihleft ?_) (ihright (hrest.of_subset (by decide))) ?_
    · exact follows_blanks hblanks (follows_spelling hmem)
    · exact hright.head?_ne rest
  | not hblanks _ ih => exact reads_not hblanks (ih hrest)
  | primary hprimary ih => exact reads_unary_primary hprimary (ih hrest)
  | group hblanks _ hinner ih =>
    exact reads_group hblanks hinner (ih (follows_blanks hinner follows_close))
  | leaf hblanks hleaf => exact reads_leaf hblanks hleaf hrest.1

/-! ### Whole texts -/

theorem run_finish (h : skipBlanks cs = []) : (plain size).finish.run cs = .ok ((), []) := by
  rw [Scanner.finish, run_bind_ok (run_skipBlanks cs), h]
  rfl

theorem blank_of_finish (h : (plain size).finish.run cs = .ok ((), rest)) : Blank cs := by
  rw [Scanner.finish, run_bind_ok (run_skipBlanks cs)] at h
  apply skipBlanks_eq_nil_iff.mp
  cases hskip : skipBlanks cs with
  | nil => rfl
  | cons c tail =>
    rw [hskip] at h
    cases h

theorem parse_eq_ok_iff_run {text : List Char} :
    parse text = .ok condition ↔
      ∃ rest, ((plain (utf8Length text)).whole maxNesting).run text = .ok (condition, rest) := by
  refine map_eq_ok_iff.trans ⟨?_, ?_⟩
  · rintro ⟨⟨_, rest⟩, hrun, rfl⟩
    exact ⟨rest, hrun⟩
  · rintro ⟨rest, hrun⟩
    exact ⟨(condition, rest), hrun, rfl⟩

theorem derivable_of_parse {text : List Char} (h : parse text = .ok condition) :
    Derivable maxNesting text condition := by
  obtain ⟨rest, hrun⟩ := parse_eq_ok_iff_run.mp h
  obtain ⟨inner, tail, hread, hnext⟩ := run_bind_eq_ok_iff.mp hrun
  obtain ⟨⟨⟩, last, hfinish, hend⟩ := run_bind_eq_ok_iff.mp hnext
  obtain ⟨rfl, rfl⟩ := Prod.mk.inj (Except.ok.inj hend)
  obtain ⟨cs, blanks, rfl, hblanks, hcs⟩ := takes_phrase _ maxNesting .disjunction _ _ _ hread
  refine ⟨cs, blanks ++ tail, rfl, hcs, ?_⟩
  exact List.forall_mem_append.mpr ⟨hblanks, blank_of_finish hfinish⟩

theorem parse_of_derivable {text : List Char} (h : Derivable maxNesting text condition) :
    parse text = .ok condition := by
  obtain ⟨cs, blanks, rfl, hcs, hblanks⟩ := h
  have hfollows : Follows .disjunction (blanks ++ []) := follows_blanks hblanks follows_nil
  rw [List.append_nil] at hfollows
  have hreads : Reads ((plain (utf8Length (cs ++ blanks))).phrase maxNesting .disjunction)
      (cs ++ blanks) condition blanks := reads_phrase hcs hfollows
  obtain ⟨mid, hread, hmid⟩ := hreads
  rw [skipBlanks_eq_nil_iff.mpr hblanks] at hmid
  refine parse_eq_ok_iff_run.mpr ⟨[], (run_bind_ok hread _).trans ?_⟩
  exact run_bind_ok (run_finish hmid) _

theorem derivable_of_derives {text : List Char} (h : Derives .disjunction n text condition) :
    Derivable n text condition :=
  ⟨text, [], (List.append_nil text).symm, h, List.forall_mem_nil _⟩

theorem parse_of_derives {text : List Char}
    (h : Derives .disjunction maxNesting text condition) : parse text = .ok condition :=
  parse_of_derivable (derivable_of_derives h)

/-- A text is read as a condition exactly when the grammar derives it with that tree and with
negations and groups nested no deeper than is allowed. -/
theorem parse_eq_ok_iff (text : List Char) (condition : Condition) :
    parse text = .ok condition ↔ Derivable maxNesting text condition :=
  ⟨derivable_of_parse, parse_of_derivable⟩

theorem derives_groups (n : Nat) :
    Derives .primary n (List.replicate n '(' ++ (boolWord true ++ List.replicate n ')'))
      (.literal (.bool true)) := by
  have hnil : Blank [] := by simp [Blank]
  induction n with
  | zero => exact .leaf hnil (.bool true)
  | succ n ih =>
    have hinner := Derives.conjunction (.comparison (.unary (.primary ih)))
    have hgroup := Derives.group hnil hinner hnil
    rw [List.replicate_succ, List.replicate_succ']
    simpa using hgroup

theorem disjunction_error {operand : Reader Condition} {error : SyntaxError}
    (h : operand.run cs = .error error) :
    ((plain size).disjunction operand).run cs = .error error :=
  run_bind_error (run_bind_error (run_bind_error h _) _) _

theorem unary_groups (size n : Nat) (rest : List Char) :
    ((plain size).unary n).run (List.replicate (n + 1) '(' ++ rest) = .error .nestedTooDeep := by
  have hunary : ∀ (negated grouped : Reader Condition) (cs : List Char),
      ((plain size).negationOr negated grouped).run ('(' :: cs) = grouped.run cs := by
    intro negated grouped cs
    have hskip : skipBlanks ('(' :: cs) = '(' :: cs := skipBlanks_cons_of_not_blank (by decide) cs
    rw [run_negationOr (by rw [hskip]; rfl)]
    exact run_primary_group (List.forall_mem_nil _)
  induction n with
  | zero => exact hunary _ _ rest
  | succ n ih =>
    rw [List.replicate_succ, List.cons_append, Scanner.unary, hunary]
    exact run_bind_error (disjunction_error ih) _

/-- The grammar derives groups of any depth, but one group too many is refused. -/
theorem parse_deep_groups :
    (∃ n, Derivable n (List.replicate 65 '(' ++ (boolWord true ++ List.replicate 65 ')'))
      (.literal (.bool true))) ∧
    parse (List.replicate 65 '(' ++ (boolWord true ++ List.replicate 65 ')')) =
      .error .nestedTooDeep := by
  constructor
  · exact ⟨65, derivable_of_derives
      (.conjunction (.comparison (.unary (.primary (derives_groups 65)))))⟩
  · refine map_eq_error_iff.mpr ?_
    exact run_bind_error (disjunction_error (unary_groups _ 64 _)) _

end EdgeTemplate.Condition
