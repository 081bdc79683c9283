import Mathlib.Data.List.Forall2

/-! When a chain of steps that may fail succeeds: each of its steps does. These lemmas take a
successful computation apart, so that no later proof opens the chain itself. -/
namespace EpochSeal.Outcome

variable {ε ε' α β : Type}

@[simp] theorem bind_ok_iff {x : Except ε α} {f : α → Except ε β} {b : β} :
    (x >>= f) = .ok b ↔ ∃ a, x = .ok a ∧ f a = .ok b := by
  cases x with
  | error e =>
      constructor
      · intro h
        cases h
      · rintro ⟨a, ha, _⟩
        cases ha
  | ok a =>
      constructor
      · intro h
        exact ⟨a, rfl, h⟩
      · rintro ⟨a', ha, h⟩
        cases ha
        exact h

@[simp] theorem exists_unit {p : Unit → Prop} : (∃ u, p u) ↔ p () :=
  ⟨fun ⟨_, h⟩ => h, fun h => ⟨(), h⟩⟩

@[simp] theorem map_ok_iff {x : Except ε α} {f : α → β} {b : β} :
    x.map f = .ok b ↔ ∃ a, x = .ok a ∧ f a = b := by
  cases x <;> simp [Except.map]

@[simp] theorem functor_map_ok_iff {x : Except ε α} {f : α → β} {b : β} :
    (f <$> x) = .ok b ↔ ∃ a, x = .ok a ∧ f a = b := map_ok_iff

@[simp] theorem mapError_ok_iff {x : Except ε α} {f : ε → ε'} {a : α} :
    x.mapError f = .ok a ↔ x = .ok a := by
  constructor
  · intro h
    cases x with
    | error e => cases h
    | ok a' =>
        cases h
        rfl
  · rintro rfl
    rfl

theorem toOption_eq_some_iff {x : Except ε α} {a : α} : x.toOption = some a ↔ x = .ok a := by
  cases x <;> simp [Except.toOption]

@[simp] theorem pure_ok_iff {a b : α} : (pure a : Except ε α) = .ok b ↔ a = b := by
  simp only [pure, Except.pure, Except.ok.injEq]

theorem ite_error_ok_iff {p : Prop} [Decidable p] {e : ε} {x : Except ε α} {a : α} :
    (if p then .error e else x) = .ok a ↔ ¬ p ∧ x = .ok a := by
  by_cases hp : p <;> simp [hp]

/-- One step for each item: all of them have to succeed. -/
theorem mapM_ok_iff {f : α → Except ε β} {items : List α} {results : List β} :
    items.mapM f = .ok results ↔ List.Forall₂ (fun a b => f a = .ok b) items results := by
  induction items generalizing results with
  | nil =>
      rw [List.mapM_nil, pure_ok_iff, List.forall₂_nil_left_iff]
      exact eq_comm
  | cons a items ih =>
      simp only [List.mapM_cons, bind_ok_iff, pure_ok_iff, ih, List.forall₂_cons_left_iff]
      constructor
      · rintro ⟨b, hb, results, hresults, rfl⟩
        exact ⟨b, results, hb, hresults, rfl⟩
      · rintro ⟨b, results, hb, hresults, rfl⟩
        exact ⟨b, hb, results, hresults, rfl⟩

theorem map_eq_of_mapM {γ : Type} {f : α → Except ε β} {left : α → γ} {right : β → γ} {items : List α}
    {results : List β} (h : items.mapM f = .ok results) (hstep : ∀ a b, f a = .ok b → left a = right b) :
    items.map left = results.map right := by
  rw [← List.forall₂_eq_eq_eq, List.forall₂_map_left_iff, List.forall₂_map_right_iff]
  exact (mapM_ok_iff.1 h).imp hstep

/-- One step for each item: all of them can succeed, with results of some kind. -/
theorem exists_mapM_ok_iff {f : α → Except ε β} {p : β → Prop} {items : List α} :
    (∃ results, items.mapM f = .ok results ∧ ∀ b ∈ results, p b) ↔
      ∀ a ∈ items, ∃ b, f a = .ok b ∧ p b := by
  simp only [mapM_ok_iff]
  induction items with
  | nil => simp
  | cons a items ih =>
      simp only [List.forall₂_cons_left_iff, List.forall_mem_cons, ← ih]
      constructor
      · rintro ⟨_, ⟨b, results, hb, hresults, rfl⟩, hall⟩
        obtain ⟨hp, hrest⟩ := List.forall_mem_cons.1 hall
        exact ⟨⟨b, hb, hp⟩, results, hresults, hrest⟩
      · rintro ⟨⟨b, hb, hp⟩, results, hresults, hrest⟩
        exact ⟨_, ⟨b, results, hb, hresults, rfl⟩, List.forall_mem_cons.2 ⟨hp, hrest⟩⟩

section refusals

/-- Steps that may be refused, but not for this cause. -/
def Never (e : ε) (x : Except ε α) : Prop := x ≠ .error e

variable {e : ε}

theorem Never.pure (a : α) : Never e (pure a : Except ε α) := by
  intro h
  cases h

theorem Never.throw {e' : ε} (h : e' ≠ e) : Never e (throw e' : Except ε α) := by
  intro heq
  exact h (Except.error.inj heq)

theorem Never.bind {x : Except ε α} {f : α → Except ε β} (hx : Never e x) (hf : ∀ a, Never e (f a)) :
    Never e (x >>= f) := by
  cases x with
  | error e' =>
      intro heq
      exact hx (congrArg Except.error (Except.error.inj heq))
  | ok a => exact hf a

theorem Never.mapError {x : Except ε' α} {f : ε' → ε} (h : ∀ e', f e' ≠ e) : Never e (x.mapError f) := by
  cases x with
  | error e' =>
      intro heq
      exact h e' (Except.error.inj heq)
  | ok a =>
      intro heq
      cases heq

theorem Never.mapM {f : α → Except ε β} (h : ∀ a, Never e (f a)) (items : List α) :
    Never e (items.mapM f) := by
  induction items with
  | nil => exact Never.pure []
  | cons a items ih =>
      rw [List.mapM_cons]
      exact (h a).bind fun _ => ih.bind fun _ => Never.pure _

end refusals

section state

variable {σ : Type}

/-- A chain of steps on a state goes on from where the first step leaves it. -/
theorem run_bind_ok {x : ExceptT ε (StateM σ) α} {f : α → ExceptT ε (StateM σ) β} {s s' : σ} {a : α}
    (h : x.run s = (.ok a, s')) : (x >>= f).run s = (f a).run s' := by
  change ExceptT.bindCont f (x.run s).1 (x.run s).2 = _
  rw [h]
  rfl

theorem run_bind_error {x : ExceptT ε (StateM σ) α} {f : α → ExceptT ε (StateM σ) β} {s s' : σ}
    {e : ε} (h : x.run s = (.error e, s')) : (x >>= f).run s = (.error e, s') := by
  change ExceptT.bindCont f (x.run s).1 (x.run s).2 = _
  rw [h]
  rfl

theorem run_mk_pure (x : Except ε α) (s : σ) :
    (ExceptT.mk (pure x) : ExceptT ε (StateM σ) α).run s = (x, s) := rfl

theorem run_bind_ok_iff {x : ExceptT ε (StateM σ) α} {f : α → ExceptT ε (StateM σ) β} {s s'' : σ}
    {b : β} : (x >>= f).run s = (.ok b, s'') ↔
      ∃ a s', x.run s = (.ok a, s') ∧ (f a).run s' = (.ok b, s'') := by
  cases h : x.run s with
  | mk result s' =>
      cases result with
      | error e =>
          rw [run_bind_error h]
          constructor
          · intro h
            cases h
          · rintro ⟨_, _, h, _⟩
            cases h
      | ok a =>
          rw [run_bind_ok h]
          constructor
          · intro h
            exact ⟨a, s', rfl, h⟩
          · rintro ⟨_, _, ha, h⟩
            cases ha
            exact h

theorem run_bind_error_iff {x : ExceptT ε (StateM σ) α} {f : α → ExceptT ε (StateM σ) β} {s s'' : σ}
    {e : ε} : (x >>= f).run s = (.error e, s'') ↔ x.run s = (.error e, s'') ∨
      ∃ a s', x.run s = (.ok a, s') ∧ (f a).run s' = (.error e, s'') := by
  cases h : x.run s with
  | mk result s' =>
      cases result with
      | error e' =>
          rw [run_bind_error h]
          constructor
          · intro h
            cases h
            exact .inl rfl
          · rintro (h | ⟨_, _, h, _⟩) <;> cases h
            rfl
      | ok a =>
          rw [run_bind_ok h]
          constructor
          · intro h
            exact .inr ⟨a, s', rfl, h⟩
          · rintro (h | ⟨_, _, ha, h⟩)
            · cases h
            · cases ha
              exact h

/-- A chain sees of the state only what its first step makes of it. -/
theorem run_bind_congr {x : ExceptT ε (StateM σ) α} (f : α → ExceptT ε (StateM σ) β) {s s' : σ}
    (h : x.run s = x.run s') : (x >>= f).run s = (x >>= f).run s' := by
  change ExceptT.bindCont f (x.run s).1 (x.run s).2 = ExceptT.bindCont f (x.run s').1 (x.run s').2
  rw [h]

/-- A step that does not look at the state leaves it as it is. -/
theorem run_lift_bind_ok_iff {x : Except ε α} {f : α → ExceptT ε (StateM σ) β} {s s' : σ} {b : β} :
    ((liftM x : ExceptT ε (StateM σ) α) >>= f).run s = (.ok b, s') ↔
      ∃ a, x = .ok a ∧ (f a).run s = (.ok b, s') := by
  have hlift : (liftM x : ExceptT ε (StateM σ) α).run s = (x, s) := rfl
  cases x with
  | error e =>
      rw [run_bind_error hlift]
      constructor
      · intro h
        cases h
      · rintro ⟨_, h, _⟩
        cases h
  | ok a =>
      rw [run_bind_ok hlift]
      constructor
      · intro h
        exact ⟨a, rfl, h⟩
      · rintro ⟨_, ha, h⟩
        cases ha
        exact h

/-- Steps that keep a property of the state, whether they succeed or fail. -/
def Keeps (p : σ → Prop) (x : ExceptT ε (StateM σ) α) : Prop := ∀ s, p s → p (x.run s).2

theorem Keeps.mk_pure (p : σ → Prop) (x : Except ε α) :
    Keeps p (ExceptT.mk (pure x) : ExceptT ε (StateM σ) α) := by
  intro s hs
  exact hs

theorem Keeps.get (p : σ → Prop) : Keeps p (get : ExceptT ε (StateM σ) σ) := by
  intro s hs
  exact hs

theorem Keeps.bind {p : σ → Prop} {x : ExceptT ε (StateM σ) α} {f : α → ExceptT ε (StateM σ) β}
    (hx : Keeps p x) (hf : ∀ a, Keeps p (f a)) : Keeps p (x >>= f) := by
  intro s hs
  have hnext := hx s hs
  cases h : x.run s with
  | mk result s' =>
      rw [h] at hnext
      cases result with
      | error e =>
          rw [run_bind_error h]
          exact hnext
      | ok a =>
          rw [run_bind_ok h]
          exact hf a s' hnext

theorem Keeps.set {p : σ → Prop} {s : σ} (h : p s) : Keeps p (set s : ExceptT ε (StateM σ) PUnit) := by
  intro _ _
  exact h

/-- What does not look at the state may be followed by steps that keep the property for its result. -/
theorem Keeps.lift_bind {p : σ → Prop} (x : Except ε α) {f : α → ExceptT ε (StateM σ) β}
    (hf : ∀ a, x = .ok a → Keeps p (f a)) : Keeps p ((liftM x : ExceptT ε (StateM σ) α) >>= f) := by
  cases x with
  | error e =>
      intro s hs
      exact hs
  | ok a => exact hf a rfl

/-- Steps that leave the state as it is if they fail. -/
def Atomic (x : ExceptT ε (StateM σ) α) : Prop := ∀ s s' e, x.run s = (.error e, s') → s' = s

theorem Atomic.pure (a : α) : Atomic (pure a : ExceptT ε (StateM σ) α) := by
  intro s s' e h
  cases h

theorem Atomic.set (s : σ) : Atomic (set s : ExceptT ε (StateM σ) PUnit) := by
  intro s s' e h
  cases h

/-- What does not look at the state may fail before steps like these, but not behind them. -/
theorem Atomic.lift_bind (x : Except ε α) {f : α → ExceptT ε (StateM σ) β} (hf : ∀ a, Atomic (f a)) :
    Atomic ((liftM x : ExceptT ε (StateM σ) α) >>= f) := by
  have hlift (s : σ) : (liftM x : ExceptT ε (StateM σ) α).run s = (x, s) := rfl
  intro s s' e h
  rcases run_bind_error_iff.1 h with hfirst | ⟨a, _, hfirst, hrest⟩
  · rw [hlift] at hfirst
    exact (congrArg Prod.snd hfirst).symm
  · rw [hlift] at hfirst
    cases hfirst
    exact hf a s s' e hrest

end state

end EpochSeal.Outcome
