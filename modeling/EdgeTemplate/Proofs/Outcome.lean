/-!
# Results that may fail

How a composed computation comes to its value or to its error. The readers of conditions and the
processing of templates are opened step by step with these equivalences.
-/
namespace EdgeTemplate.Outcome

variable {ε δ α β : Type}

theorem bind_eq_ok_iff {x : Except ε α} {f : α → Except ε β} {b : β} :
    x >>= f = .ok b ↔ ∃ a, x = .ok a ∧ f a = .ok b := by
  cases x with
  | error e => simp [bind, Except.bind]
  | ok a => simp [bind, Except.bind]

theorem bind_eq_error_iff {x : Except ε α} {f : α → Except ε β} {e : ε} :
    x >>= f = .error e ↔ x = .error e ∨ ∃ a, x = .ok a ∧ f a = .error e := by
  cases x with
  | error e' => simp [bind, Except.bind]
  | ok a => simp [bind, Except.bind]

theorem map_eq_ok_iff {x : Except ε α} {f : α → β} {b : β} :
    f <$> x = .ok b ↔ ∃ a, x = .ok a ∧ f a = b := by
  cases x with
  | error e => simp [Functor.map, Except.map]
  | ok a => simp [Functor.map, Except.map]

theorem map_eq_error_iff {x : Except ε α} {f : α → β} {e : ε} :
    f <$> x = .error e ↔ x = .error e := by
  cases x with
  | error e' => simp [Functor.map, Except.map]
  | ok a => simp [Functor.map, Except.map]

theorem mapError_eq_ok_iff {x : Except ε α} {f : ε → δ} {a : α} :
    x.mapError f = .ok a ↔ x = .ok a := by
  cases x with
  | error e =>
    change Except.error (f e) = .ok a ↔ _
    simp
  | ok b =>
    change Except.ok b = .ok a ↔ _
    simp

theorem mapError_eq_error_iff {x : Except ε α} {f : ε → δ} {d : δ} :
    x.mapError f = .error d ↔ ∃ e, x = .error e ∧ f e = d := by
  cases x with
  | error e =>
    change Except.error (f e) = .error d ↔ _
    simp
  | ok b =>
    change Except.ok b = .error d ↔ _
    simp

section State

variable {σ : Type} {x : StateT σ (Except ε) α} {f : α → StateT σ (Except ε) β} {s mid last : σ}

theorem run_bind_eq_ok_iff {b : β} :
    (x >>= f).run s = .ok (b, last) ↔
      ∃ a mid, x.run s = .ok (a, mid) ∧ (f a).run mid = .ok (b, last) := by
  rw [StateT.run_bind, bind_eq_ok_iff, Prod.exists]

theorem run_bind_ok {a : α} (h : x.run s = .ok (a, mid)) (f : α → StateT σ (Except ε) β) :
    (x >>= f).run s = (f a).run mid := by
  rw [StateT.run_bind, h]
  rfl

theorem run_bind_error {e : ε} (h : x.run s = .error e) (f : α → StateT σ (Except ε) β) :
    (x >>= f).run s = .error e := by
  rw [StateT.run_bind, h]
  rfl

end State

/-! ### Lists of results -/

theorem mapM_append_cons_eq_ok {f : α → Except ε β} {front back : List α} {x : α} {ys : List β}
    (h : (front ++ x :: back).mapM f = .ok ys) :
    ∃ before y after, f x = .ok y ∧ back.mapM f = .ok after ∧ ys = before ++ y :: after := by
  rw [List.mapM_append, List.mapM_cons] at h
  obtain ⟨before, -, h⟩ := bind_eq_ok_iff.mp h
  obtain ⟨others, hothers, h⟩ := bind_eq_ok_iff.mp h
  obtain ⟨y, hy, hothers⟩ := bind_eq_ok_iff.mp hothers
  obtain ⟨after, hafter, hothers⟩ := bind_eq_ok_iff.mp hothers
  obtain rfl := Except.ok.inj hothers
  exact ⟨before, y, after, hy, hafter, (Except.ok.inj h).symm⟩

theorem exists_of_mem_mapM {f : α → Except ε β} {xs : List α} {ys : List β}
    (h : xs.mapM f = .ok ys) {y : β} (hy : y ∈ ys) : ∃ x ∈ xs, f x = .ok y := by
  induction xs generalizing ys with
  | nil =>
    obtain rfl := Except.ok.inj h
    cases hy
  | cons x xs ih =>
    rw [List.mapM_cons] at h
    obtain ⟨first, hfirst, h⟩ := bind_eq_ok_iff.mp h
    obtain ⟨others, hothers, h⟩ := bind_eq_ok_iff.mp h
    obtain rfl := Except.ok.inj h
    rcases List.mem_cons.mp hy with rfl | hy
    · exact ⟨x, by simp, hfirst⟩
    · obtain ⟨other, hother, hresult⟩ := ih hothers hy
      exact ⟨other, by simp [hother], hresult⟩

/-! ### Related results -/

section Related

variable {α' β' : Type} {r : ε → δ → Prop} {s : α → β → Prop} {t : α' → β' → Prop}
  {x : Except ε α} {y : Except δ β}

/-- Both results are values, which are related, or both are errors, which are related. -/
inductive Related (r : ε → δ → Prop) (s : α → β → Prop) : Except ε α → Except δ β → Prop
  | ok {a : α} {b : β} : s a b → Related r s (.ok a) (.ok b)
  | error {e : ε} {d : δ} : r e d → Related r s (.error e) (.error d)

theorem related_refl {r : ε → ε → Prop} {s : α → α → Prop} (hr : ∀ e, r e e) (hs : ∀ a, s a a)
    (x : Except ε α) : Related r s x x := by
  cases x with
  | error e => exact .error (hr e)
  | ok a => exact .ok (hs a)

theorem Related.bind (h : Related r s x y) {f : α → Except ε α'} {g : β → Except δ β'}
    (hnext : ∀ a b, s a b → Related r t (f a) (g b)) : Related r t (x >>= f) (y >>= g) := by
  cases h with
  | ok hab => exact hnext _ _ hab
  | error he => exact .error he

theorem Related.map (h : Related r s x y) {f : α → α'} {g : β → β'}
    (hmap : ∀ a b, s a b → t (f a) (g b)) : Related r t (f <$> x) (g <$> y) := by
  cases h with
  | ok hab => exact .ok (hmap _ _ hab)
  | error he => exact .error he

theorem Related.mapError (h : Related r s x y) {ε' δ' : Type} {r' : ε' → δ' → Prop} {f : ε → ε'}
    {g : δ → δ'} (hmap : ∀ e d, r e d → r' (f e) (g d)) :
    Related r' s (x.mapError f) (y.mapError g) := by
  cases h with
  | ok hab => exact .ok hab
  | error he => exact .error (hmap _ _ he)

theorem Related.eq_or_eq (h : Related r s x y) :
    (∃ a b, x = .ok a ∧ y = .ok b ∧ s a b) ∨ ∃ e d, x = .error e ∧ y = .error d ∧ r e d := by
  cases h with
  | ok hab => exact .inl ⟨_, _, rfl, rfl, hab⟩
  | error he => exact .inr ⟨_, _, rfl, rfl, he⟩

theorem Related.cases_eq {y : Except δ α} (h : Related r Eq x y) :
    (∃ a, x = .ok a ∧ y = .ok a) ∨ ∃ e d, x = .error e ∧ y = .error d ∧ r e d := by
  rcases h.eq_or_eq with ⟨a, _, hx, hy, rfl⟩ | herror
  · exact .inl ⟨a, hx, hy⟩
  · exact .inr herror

end Related

end EdgeTemplate.Outcome
