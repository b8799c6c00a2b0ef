import XelmaMarket.Lib.Transaction

/-!
# Permitted failures

`FailsOnly permitted m env s post` lies between partial and total correctness: from `s`, `m` returns
and the value and the new state satisfy `post`, or it ends with a failure that is permitted. With
every failure permitted it is partial correctness, with none it is total. Each combinator has one
equation, and a loop has one invariant rule.
-/

universe u

namespace Transaction

variable {ρ σ τ ε α β : Type u}

/-! ## Computations that only may fail -/

/-- The computation has a value with the property, or its failure is permitted. -/
def Yields (permitted : ε → Prop) (result : Except ε α) (post : α → Prop) : Prop :=
  match result with
  | .ok value => post value
  | .error failure => permitted failure

section Yields

variable {permitted : ε → Prop} {result : Except ε α} {post : α → Prop}

@[simp] theorem yields_ok (value : α) :
    Yields permitted (.ok value : Except ε α) post ↔ post value :=
  .rfl

theorem Yields.of_eq {value : α} (hvalue : result = .ok value) (hpost : post value) :
    Yields permitted result post := by
  rw [hvalue]
  exact hpost

theorem Yields.mono {weaker : α → Prop} (hyields : Yields permitted result post)
    (hweaker : ∀ value, post value → weaker value) : Yields permitted result weaker := by
  cases result with
  | ok value => exact hweaker value hyields
  | error failure => exact hyields

/-- What is known of the value when there is one. -/
theorem Yields.and_eq (hyields : Yields permitted result post) :
    Yields permitted result fun value => post value ∧ result = .ok value := by
  cases result with
  | ok value => exact ⟨hyields, rfl⟩
  | error failure => exact hyields

@[simp] theorem yields_bind (next : α → Except ε β) (post : β → Prop) :
    Yields permitted (result >>= next) post ↔
      Yields permitted result fun value => Yields permitted (next value) post := by
  cases result with
  | ok value => exact .rfl
  | error failure => exact .rfl

end Yields

/-! ## Transactions -/

/-- From `s`, `m` returns with the postcondition, or it fails as permitted. -/
def FailsOnly (permitted : ε → Prop) (m : Transaction ρ σ ε α) (env : ρ) (s : σ)
    (post : α → σ → Prop) : Prop :=
  Yields permitted (m env s) fun result => post result.1 result.2

variable {permitted : ε → Prop} {m : Transaction ρ σ ε α} {env : ρ} {s : σ} {post : α → σ → Prop}

/-- A failure of a run is a permitted one. -/
theorem FailsOnly.error (hfails : FailsOnly permitted m env s post) {failure : ε}
    (hrun : m env s = .error failure) : permitted failure := by
  unfold FailsOnly at hfails
  rwa [hrun] at hfails

/-- A transaction that returns fails with nothing. -/
theorem Returns.failsOnly (hreturns : Returns m env s post) :
    FailsOnly permitted m env s post := by
  obtain ⟨value, s', hrun, hpost⟩ := hreturns
  exact Yields.of_eq hrun hpost

/-- What can fail with nothing returns. -/
theorem FailsOnly.returns (hfails : FailsOnly permitted m env s post)
    (hnone : ∀ failure, ¬ permitted failure) : Returns m env s post := by
  unfold FailsOnly at hfails
  cases hrun : m env s with
  | ok result =>
      rw [hrun] at hfails
      exact ⟨result.1, result.2, hrun, hfails⟩
  | error failure =>
      rw [hrun] at hfails
      exact absurd hfails (hnone failure)

theorem FailsOnly.mono {weaker : α → σ → Prop} (hfails : FailsOnly permitted m env s post)
    (hweaker : ∀ value s', post value s' → weaker value s') :
    FailsOnly permitted m env s weaker :=
  Yields.mono hfails fun result hpost => hweaker result.1 result.2 hpost

/-- More failures may be permitted. -/
theorem FailsOnly.weaken {weaker : ε → Prop} (hfails : FailsOnly permitted m env s post)
    (hweaker : ∀ failure, permitted failure → weaker failure) :
    FailsOnly weaker m env s post := by
  unfold FailsOnly Yields at hfails ⊢
  cases hrun : m env s with
  | ok result =>
      rw [hrun] at hfails
      exact hfails
  | error failure =>
      rw [hrun] at hfails
      exact hweaker failure hfails

/-- What the transaction ensures holds when it returns. -/
theorem FailsOnly.and {other : α → σ → Prop} (hfails : FailsOnly permitted m env s post)
    (hensures : Ensures m env s other) :
    FailsOnly permitted m env s fun value s' => post value s' ∧ other value s' :=
  (Yields.and_eq hfails).mono fun _ h => ⟨h.1, hensures.elim h.2⟩

/-- The postcondition is what the transaction ensures. -/
theorem FailsOnly.ensuring (hfails : FailsOnly permitted m env s fun _ _ => True)
    (hensures : Ensures m env s post) : FailsOnly permitted m env s post :=
  (hfails.and hensures).mono fun _ _ h => h.2

@[simp] theorem failsOnly_pure (value : α) :
    FailsOnly permitted (pure value : Transaction ρ σ ε α) env s post ↔ post value s :=
  .rfl

@[simp] theorem failsOnly_bind (next : α → Transaction ρ σ ε β) (post : β → σ → Prop) :
    FailsOnly permitted (m >>= next) env s post ↔
      FailsOnly permitted m env s fun value s' => FailsOnly permitted (next value) env s' post := by
  have hbind : (m >>= next) env s = m env s >>= fun result => next result.1 env result.2 := by
    show Transaction.bind m next env s = _
    unfold Transaction.bind
    cases m env s <;> rfl
  unfold FailsOnly
  rw [hbind, yields_bind]

/-- The sequencing rule. -/
theorem FailsOnly.bind {next : α → Transaction ρ σ ε β} {post' : β → σ → Prop}
    (hfirst : FailsOnly permitted m env s post)
    (hnext : ∀ value s', post value s' → FailsOnly permitted (next value) env s' post') :
    FailsOnly permitted (m >>= next) env s post' :=
  (failsOnly_bind next post').mpr (hfirst.mono hnext)

/-- A guard that leaves the state alone: the rest runs from the same state. -/
theorem FailsOnly.guard {next : α → Transaction ρ σ ε β} {post' : β → σ → Prop}
    (hguard : FailsOnly permitted m env s fun _ s' => s' = s)
    (hnext : ∀ value, FailsOnly permitted (next value) env s post') :
    FailsOnly permitted (m >>= next) env s post' :=
  hguard.bind fun value _ hsame => hsame ▸ hnext value

@[simp] theorem failsOnly_map (f : α → β) (post : β → σ → Prop) :
    FailsOnly permitted (f <$> m) env s post ↔
      FailsOnly permitted m env s fun value s' => post (f value) s' := by
  show FailsOnly permitted (m >>= fun value => pure (f value)) env s post ↔ _
  simp

@[simp] theorem failsOnly_liftM (result : Except ε α) :
    FailsOnly permitted (liftM result : Transaction ρ σ ε α) env s post ↔
      Yields permitted result fun value => post value s := by
  cases result with
  | ok value => exact .rfl
  | error failure => exact .rfl

@[simp] theorem failsOnly_asks (f : ρ → α) :
    FailsOnly permitted (asks f : Transaction ρ σ ε α) env s post ↔ post (f env) s :=
  .rfl

@[simp] theorem failsOnly_gets (f : σ → α) :
    FailsOnly permitted (gets f : Transaction ρ σ ε α) env s post ↔ post (f s) s :=
  .rfl

@[simp] theorem failsOnly_update (f : σ → σ) (post : PUnit → σ → Prop) :
    FailsOnly permitted (update f : Transaction ρ σ ε PUnit) env s post ↔ post ⟨⟩ (f s) :=
  .rfl

@[simp] theorem failsOnly_fail (failure : ε) :
    FailsOnly permitted (fail failure : Transaction ρ σ ε α) env s post ↔ permitted failure :=
  .rfl

@[simp] theorem failsOnly_failIf (condition : Prop) [Decidable condition] (failure : ε)
    (post : PUnit → σ → Prop) :
    FailsOnly permitted (failIf condition failure : Transaction ρ σ ε PUnit) env s post ↔
      (condition → permitted failure) ∧ (¬ condition → post ⟨⟩ s) := by
  unfold failIf
  split <;> simp [*]

@[simp] theorem failsOnly_orFail (value : Option α) (failure : ε) :
    FailsOnly permitted (orFail value failure : Transaction ρ σ ε α) env s post ↔
      (value = none → permitted failure) ∧ ∀ a, value = some a → post a s := by
  cases value <;> simp [orFail]

@[simp] theorem failsOnly_onlyIf (condition : Prop) [Decidable condition]
    (m : Transaction ρ σ ε PUnit) (post : PUnit → σ → Prop) :
    FailsOnly permitted (onlyIf condition m) env s post ↔
      (condition → FailsOnly permitted m env s post) ∧ (¬ condition → post ⟨⟩ s) := by
  unfold onlyIf
  split <;> simp [*]

@[simp] theorem failsOnly_onSome (value : Option β) (m : β → Transaction ρ σ ε PUnit)
    (post : PUnit → σ → Prop) :
    FailsOnly permitted (onSome value m) env s post ↔
      (∀ a, value = some a → FailsOnly permitted (m a) env s post) ∧
        (value = none → post ⟨⟩ s) := by
  cases value <;> simp [onSome]

@[simp] theorem failsOnly_ite (condition : Prop) [Decidable condition]
    (first second : Transaction ρ σ ε α) :
    FailsOnly permitted (if condition then first else second) env s post ↔
      (condition → FailsOnly permitted first env s post) ∧
        (¬ condition → FailsOnly permitted second env s post) := by
  split <;> simp [*]

@[simp] theorem failsOnly_zoom (focus : Focus σ τ) (m : Transaction ρ τ ε α) :
    FailsOnly permitted (zoom focus m) env s post ↔
      FailsOnly permitted m env (focus.view s)
        fun value part => post value (focus.replace part s) := by
  unfold FailsOnly zoom
  cases m env (focus.view s) with
  | ok result => exact .rfl
  | error failure => exact .rfl

/-- The loop rule: a loop fails only as its turns do, from where the invariant holds. -/
theorem failsOnly_foldEach (invariant : List α → β → σ → Prop)
    {body : β → α → Transaction ρ σ ε β}
    (hstep : ∀ a rest acc s, invariant (a :: rest) acc s →
      FailsOnly permitted (body acc a) env s fun acc' s' => invariant rest acc' s')
    {items : List α} {acc : β} {s : σ} (hinit : invariant items acc s) :
    FailsOnly permitted (foldEach items acc body) env s fun acc' s' => invariant [] acc' s' := by
  induction items generalizing acc s with
  | nil => exact hinit
  | cons a rest ih => exact (hstep a rest acc s hinit).bind fun acc' s' hs' => ih hs'

end Transaction
