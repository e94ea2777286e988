import EdgeTemplate.Proofs.Literals

/-!
# What is read is a phrase

Every reader takes a phrase of its kind off the front of a text, by induction on the budget for
nesting. Where a connective or a comparison could follow, it also goes over the blanks behind the
phrase.
-/
namespace EdgeTemplate.Condition

open Text Outcome

variable {cs rest : List Char} {condition : Condition} {size n : Nat}

namespace Scanner

variable {m : Type → Type} [Monad m] (scanner : Scanner m)

def grouped : Nat → m Condition
  | 0 => scanner.refuse .nestedTooDeep
  | budget + 1 => scanner.nested (scanner.group (scanner.unary budget))

def phrase (budget : Nat) : Phrase → m Condition
  | .disjunction => scanner.disjunction (scanner.unary budget)
  | .conjunction => scanner.conjunction (scanner.unary budget)
  | .comparison => scanner.comparison (scanner.unary budget)
  | .unary => scanner.unary budget
  | .primary => scanner.primary (scanner.grouped budget)

end Scanner

theorem run_skipBlanks (cs : List Char) :
    (plain size).skipBlanks.run cs = .ok ((), skipBlanks cs) := rfl

theorem run_rest (cs : List Char) : (plain size).rest.run cs = .ok (cs, cs) := rfl

def relation? (table : List (List Char × Relation)) (cs : List Char) :
    Option (Relation × List Char) :=
  table.findSome? fun entry => (entry.1.isPrefixOf? cs).map (entry.2, ·)

theorem run_relation (table : List (List Char × Relation)) (cs : List Char) :
    let found := relation? table cs
    ((plain size).relation table).run cs =
      .ok (found.map Prod.fst, (found.map Prod.snd).getD cs) := by
  induction table with
  | nil => rfl
  | cons entry others ih =>
    rw [Scanner.relation, relation?, List.findSome?_cons]
    cases hprefix : entry.1.isPrefixOf? cs with
    | none =>
      rw [run_bind_ok (run_pass_none hprefix)]
      exact ih
    | some rest =>
      obtain rfl := List.isPrefixOf?_eq_some_iff_append_eq.mp hprefix
      rw [run_bind_ok (run_pass_append entry.1 rest)]
      rfl

/-- What a reader takes off a text is a part with the given property and blanks behind it. -/
def Takes {α : Type} (reader : Reader α) (P : List Char → α → Prop) : Prop :=
  ∀ cs a rest, reader.run cs = .ok (a, rest) →
    ∃ text blanks, cs = text ++ (blanks ++ rest) ∧ Blank blanks ∧ P text a

theorem takes_refuse {P : List Char → Condition → Prop} (cause : SyntaxError) :
    Takes ((plain size).refuse cause) P := by
  intro cs condition rest h
  cases h

section Levels

variable {operand : Reader Condition} {P : List Char → Condition → Prop}

theorem nextOperand_sound (hoperand : Takes operand P) {connective : List Char}
    {found : Option Condition}
    (h : ((plain size).nextOperand connective operand).run cs = .ok (found, rest)) :
    (found = none ∧ ∃ blanks, Blank blanks ∧ cs = blanks ++ rest) ∨
      ∃ (link : Link) (blanks : List Char), (Blank link.blanks ∧ P link.text link.operand) ∧
        Blank blanks ∧ cs = link.source connective ++ (blanks ++ rest) ∧
        found = some link.operand := by
  have hcs := leadingBlanks_append_skipBlanks cs
  rw [Scanner.nextOperand, run_bind_ok (run_skipBlanks cs)] at h
  obtain ⟨passed, after, hpass, hnext⟩ := run_bind_eq_ok_iff.mp h
  rcases pass_eq_ok_iff.mp hpass with ⟨rfl, hafter⟩ | ⟨rfl, -, rfl⟩
  · rw [if_pos rfl] at hnext
    obtain ⟨next, last, hread, hend⟩ := run_bind_eq_ok_iff.mp hnext
    obtain ⟨rfl, rfl⟩ := Prod.mk.inj (Except.ok.inj hend)
    obtain ⟨text, blanks, rfl, hblanks, htext⟩ := hoperand _ _ _ hread
    refine .inr ⟨⟨leadingBlanks cs, text, next⟩, blanks, ⟨blank_leadingBlanks cs, htext⟩, hblanks,
      ?_, rfl⟩
    rw [hafter] at hcs
    simp only [Link.source, List.append_assoc]
    exact hcs.symm
  · obtain ⟨rfl, rfl⟩ := Prod.mk.inj (Except.ok.inj hnext)
    exact .inl ⟨rfl, leadingBlanks cs, blank_leadingBlanks cs, hcs.symm⟩

/-- Blanks that were passed before a link are blanks of that link. -/
theorem links_sound (hoperand : Takes operand P) {connective : List Char} {rounds : Nat}
    {others : List Condition} {before : List Char} (hbefore : Blank before)
    (h : (collect ((plain size).nextOperand connective operand) rounds).run cs =
      .ok (others, rest)) :
    ∃ (links : List Link) (blanks : List Char),
      (∀ link ∈ links, Blank link.blanks ∧ P link.text link.operand) ∧ Blank blanks ∧
        before ++ cs = links.flatMap (Link.source connective) ++ (blanks ++ rest) ∧
        others = links.map Link.operand := by
  revert before
  refine collect_induction (Q := fun cs others rest => ∀ {before}, Blank before →
    ∃ (links : List Link) (blanks : List Char),
      (∀ link ∈ links, Blank link.blanks ∧ P link.text link.operand) ∧ Blank blanks ∧
        before ++ cs = links.flatMap (Link.source connective) ++ (blanks ++ rest) ∧
        others = links.map Link.operand) ?_ ?_ ?_ h
  · intro cs before hbefore
    exact ⟨[], before, List.forall_mem_nil _, hbefore, rfl, rfl⟩
  · intro cs rest hstop before hbefore
    rcases nextOperand_sound hoperand hstop with ⟨-, blanks, hblanks, rfl⟩ | ⟨_, _, -, -, -, hnone⟩
    · exact ⟨[], before ++ blanks, List.forall_mem_nil _,
        List.forall_mem_append.mpr ⟨hbefore, hblanks⟩, by simp, rfl⟩
    · cases hnone
  · intro cs next mid others rest hnext ih before hbefore
    rcases nextOperand_sound hoperand hnext with ⟨hnone, -⟩ |
      ⟨link, blanks, ⟨hlink, htext⟩, hblanks, rfl, hsome⟩
    · cases hnone
    obtain rfl := Option.some.inj hsome
    obtain ⟨links, last, hlinks, hlast, hmid, rfl⟩ := ih hblanks
    refine ⟨⟨before ++ link.blanks, link.text, link.operand⟩ :: links, last, ?_, hlast, ?_, rfl⟩
    · exact List.forall_mem_cons.mpr
        ⟨⟨List.forall_mem_append.mpr ⟨hbefore, hlink⟩, htext⟩, hlinks⟩
    · rw [hmid]
      simp [Link.source]

theorem takes_operands (hoperand : Takes operand P) (connective : List Char)
    (join : List Condition → Condition) :
    Takes ((plain size).operands connective join operand) fun text condition =>
      ∃ (head : List Char) (first : Condition) (links : List Link), P head first ∧
        (∀ link ∈ links, Blank link.blanks ∧ P link.text link.operand) ∧
        text = head ++ links.flatMap (Link.source connective) ∧
        condition = chain join first (links.map Link.operand) := by
  intro cs condition rest h
  obtain ⟨first, mid, hfirst, h⟩ := run_bind_eq_ok_iff.mp h
  obtain ⟨others, last, hothers, h⟩ := run_bind_eq_ok_iff.mp h
  obtain ⟨rfl, rfl⟩ := Prod.mk.inj (Except.ok.inj h)
  obtain ⟨head, before, rfl, hbefore, hhead⟩ := hoperand _ _ _ hfirst
  rw [readMany, run_bind_ok (run_rest mid)] at hothers
  obtain ⟨links, blanks, hlinks, hblanks, hmid, rfl⟩ := links_sound hoperand hbefore hothers
  refine ⟨_, blanks, ?_, hblanks, head, first, links, hhead, hlinks, rfl, rfl⟩
  rw [hmid, List.append_assoc]

theorem takes_comparison (hoperand : Takes operand (Derives .unary n)) :
    Takes ((plain size).comparison operand) (Derives .comparison n) := by
  intro cs condition rest h
  obtain ⟨l, tail, hleft, hnext⟩ := run_bind_eq_ok_iff.mp h
  obtain ⟨left, before, rfl, hbefore, hl⟩ := hoperand _ _ _ hleft
  have htail := leadingBlanks_append_skipBlanks tail
  have hblanks : Blank (before ++ leadingBlanks tail) :=
    List.forall_mem_append.mpr ⟨hbefore, blank_leadingBlanks tail⟩
  rw [run_bind_ok (run_skipBlanks tail), run_bind_ok (run_relation _ _)] at hnext
  cases hrelation : relation? spellings (skipBlanks tail) with
  | none =>
    simp only [hrelation, Option.map_none, Option.getD_none] at hnext
    obtain ⟨rfl, rfl⟩ := Prod.mk.inj (Except.ok.inj hnext)
    exact ⟨left, _, by rw [List.append_assoc, htail], hblanks, .unary hl⟩
  | some found =>
    obtain ⟨relation, after⟩ := found
    rw [hrelation] at hnext
    obtain ⟨r, last, hright, hend⟩ := run_bind_eq_ok_iff.mp hnext
    obtain ⟨rfl, rfl⟩ := Prod.mk.inj (Except.ok.inj hend)
    obtain ⟨right, blanks, rfl, hlast, hr⟩ := hoperand _ _ _ hright
    obtain ⟨⟨spelling, _⟩, hmem, hfound⟩ := List.exists_of_findSome?_eq_some hrelation
    obtain ⟨_, hprefix, hpair⟩ := Option.map_eq_some_iff.mp hfound
    obtain ⟨rfl, rfl⟩ := Prod.mk.inj hpair
    refine ⟨_, blanks, ?_, hlast, .compare hl hblanks hmem hr⟩
    rw [← List.isPrefixOf?_eq_some_iff_append_eq.mp hprefix] at htail
    simp only [List.append_assoc]
    rw [htail]

end Levels

/-- Chains of both kinds, given the rules of the grammar for a single operand and for several. -/
theorem takes_chain {operand : Reader Condition} {inner outer : Phrase} {connective : List Char}
    {join : List Condition → Condition}
    (hsingle : ∀ {cs e}, Derives inner n cs e → Derives outer n cs e)
    (hjoin : ∀ {cs e} {links : List Link}, Derives inner n cs e → links ≠ [] →
      (∀ link ∈ links, Blank link.blanks) →
      (∀ link ∈ links, Derives inner n link.text link.operand) →
      Derives outer n (cs ++ links.flatMap (Link.source connective))
        (join (e :: links.map Link.operand)))
    (hoperand : Takes operand (Derives inner n)) :
    Takes ((plain size).operands connective join operand) (Derives outer n) := by
  intro cs condition rest h
  obtain ⟨_, blanks, hcs, hblanks, head, first, links, hfirst, hlinks, rfl, rfl⟩ :=
    takes_operands hoperand _ _ _ _ _ h
  refine ⟨_, blanks, hcs, hblanks, ?_⟩
  cases links with
  | nil => simpa [chain] using hsingle hfirst
  | cons link links =>
    exact hjoin hfirst (List.cons_ne_nil link links) (fun l hl => (hlinks l hl).1)
      (fun l hl => (hlinks l hl).2)

theorem takes_conjunction {operand : Reader Condition}
    (hoperand : Takes operand (Derives .unary n)) :
    Takes ((plain size).conjunction operand) (Derives .conjunction n) :=
  takes_chain .comparison .all (takes_comparison hoperand)

theorem takes_disjunction {operand : Reader Condition}
    (hoperand : Takes operand (Derives .unary n)) :
    Takes ((plain size).disjunction operand) (Derives .disjunction n) :=
  takes_chain .conjunction .any (takes_conjunction hoperand)

theorem takes_group {operand : Reader Condition} (hoperand : Takes operand (Derives .unary n)) :
    Takes ((plain size).group operand) fun text condition =>
      Derives .primary (n + 1) ('(' :: text) condition := by
  intro cs condition rest h
  obtain ⟨inner, tail, hread, hnext⟩ := run_bind_eq_ok_iff.mp h
  obtain ⟨text, before, rfl, hbefore, htext⟩ := takes_disjunction hoperand _ _ _ hread
  have htail := leadingBlanks_append_skipBlanks tail
  rw [run_bind_ok (run_skipBlanks tail)] at hnext
  obtain ⟨passed, after, hpass, hend⟩ := run_bind_eq_ok_iff.mp hnext
  rcases pass_eq_ok_iff.mp hpass with ⟨rfl, hafter⟩ | ⟨rfl, -, rfl⟩
  · obtain ⟨rfl, rfl⟩ := Prod.mk.inj (Except.ok.inj hend)
    refine ⟨text ++ (before ++ leadingBlanks tail ++ [')']), [], ?_, List.forall_mem_nil _, ?_⟩
    · rw [hafter] at htail
      conv_lhs => rw [← htail]
      simp
    · exact Derives.group (List.forall_mem_nil _) htext
        (List.forall_mem_append.mpr ⟨hbefore, blank_leadingBlanks tail⟩)
  · cases hend

theorem takes_negation {operand : Reader Condition} (hoperand : Takes operand (Derives .unary n)) :
    Takes (Scanner.negation operand) fun text condition =>
      Derives .unary (n + 1) ('!' :: text) condition := by
  intro cs condition rest h
  obtain ⟨inner, last, hread, hend⟩ := run_bind_eq_ok_iff.mp h
  obtain ⟨rfl, rfl⟩ := Prod.mk.inj (Except.ok.inj hend)
  obtain ⟨text, blanks, hcs, hblanks, htext⟩ := hoperand _ _ _ hread
  exact ⟨text, blanks, hcs, hblanks, .not (List.forall_mem_nil _) htext⟩

theorem Derives.prepend {phrase : Phrase} {blanks : List Char} (hblanks : Blank blanks)
    (h : Derives phrase n cs condition) : Derives phrase n (blanks ++ cs) condition := by
  have happend : ∀ {inner : List Char}, Blank inner → Blank (blanks ++ inner) :=
    fun hinner => List.forall_mem_append.mpr ⟨hblanks, hinner⟩
  induction h with
  | conjunction _ ih => exact .conjunction ih
  | comparison _ ih => exact .comparison ih
  | unary _ ih => exact .unary ih
  | primary _ ih => exact .primary ih
  | any _ hne hlinks htexts ih _ =>
    rw [← List.append_assoc]
    exact .any ih hne hlinks htexts
  | all _ hne hlinks htexts ih _ =>
    rw [← List.append_assoc]
    exact .all ih hne hlinks htexts
  | compare _ hinner hmem hright ih _ =>
    rw [← List.append_assoc]
    exact .compare ih hinner hmem hright
  | not hinner hoperand _ =>
    rw [← List.append_assoc]
    exact .not (happend hinner) hoperand
  | group hinner htext hlast _ =>
    rw [← List.append_assoc]
    exact .group (happend hinner) htext hlast
  | leaf hinner hleaf =>
    rw [← List.append_assoc]
    exact .leaf (happend hinner) hleaf

theorem takes_primary {grouped : Reader Condition}
    (hgrouped : Takes grouped fun text condition => Derives .primary n ('(' :: text) condition) :
    Takes ((plain size).primary grouped) (Derives .primary n) := by
  intro cs condition rest h
  have hcs := leadingBlanks_append_skipBlanks cs
  have hblanks := blank_leadingBlanks cs
  rw [Scanner.primary, run_bind_ok (run_skipBlanks cs), run_bind_ok (run_rest _)] at h
  cases hskip : skipBlanks cs with
  | nil =>
    rw [hskip] at h
    exact (unexpected_ne_ok h).elim
  | cons c tail =>
    rw [hskip] at h hcs
    obtain ⟨passed, after, hpass, hnext⟩ := run_bind_eq_ok_iff.mp h
    rcases pass_eq_ok_iff.mp hpass with ⟨rfl, hafter⟩ | ⟨rfl, -, rfl⟩
    · obtain ⟨text, blanks, rfl, hlast, htext⟩ := hgrouped _ _ _ hnext
      refine ⟨leadingBlanks cs ++ '(' :: text, blanks, ?_, hlast, htext.prepend hblanks⟩
      refine hcs.symm.trans ?_
      rw [hafter]
      simp
    · obtain ⟨text, htext, hleaf⟩ := leaf_sound hnext
      refine ⟨leadingBlanks cs ++ text, [], ?_, List.forall_mem_nil _, .leaf hblanks hleaf⟩
      refine hcs.symm.trans ?_
      rw [htext]
      simp

theorem takes_negationOr {negated grouped : Reader Condition}
    (hnegated : Takes negated fun text condition => Derives .unary n ('!' :: text) condition)
    (hgrouped : Takes grouped fun text condition => Derives .primary n ('(' :: text) condition) :
    Takes ((plain size).negationOr negated grouped) (Derives .unary n) := by
  intro cs condition rest h
  have hcs := leadingBlanks_append_skipBlanks cs
  have hbefore := blank_leadingBlanks cs
  rw [Scanner.negationOr, run_bind_ok (run_skipBlanks cs)] at h
  obtain ⟨passed, after, hpass, hnext⟩ := run_bind_eq_ok_iff.mp h
  rcases pass_eq_ok_iff.mp hpass with ⟨rfl, hafter⟩ | ⟨rfl, -, rfl⟩
  · obtain ⟨text, blanks, rfl, hblanks, htext⟩ := hnegated _ _ _ hnext
    refine ⟨leadingBlanks cs ++ '!' :: text, blanks, ?_, hblanks, htext.prepend hbefore⟩
    refine hcs.symm.trans ?_
    rw [hafter]
    simp
  · obtain ⟨text, blanks, htext, hblanks, hprimary⟩ := takes_primary hgrouped _ _ _ hnext
    refine ⟨leadingBlanks cs ++ text, blanks, ?_, hblanks, .primary (hprimary.prepend hbefore)⟩
    rw [List.append_assoc, ← htext, hcs]

theorem takes_unary (size n : Nat) : Takes ((plain size).unary n) (Derives .unary n) := by
  induction n with
  | zero => exact takes_negationOr (takes_refuse _) (takes_refuse _)
  | succ n ih => exact takes_negationOr (takes_negation ih) (takes_group ih)

theorem takes_phrase (size n : Nat) (phrase : Phrase) :
    Takes ((plain size).phrase n phrase) (Derives phrase n) := by
  have hunary := takes_unary size n
  cases phrase with
  | disjunction => exact takes_disjunction hunary
  | conjunction => exact takes_conjunction hunary
  | comparison => exact takes_comparison hunary
  | unary => exact hunary
  | primary =>
    cases n with
    | zero => exact takes_primary (takes_refuse _)
    | succ n => exact takes_primary (takes_group (takes_unary size n))

end EdgeTemplate.Condition
