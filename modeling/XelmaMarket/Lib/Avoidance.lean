import XelmaMarket.Lib.Transaction

/-!
# Failures that a transaction never ends with

`Avoids failure m` says that `m` never ends with the failure, from whatever state it is run, and
`AvoidsAt` says so of one state. `Spares` is the same of a computation that only may fail. The
combinators have instances, so that what a transaction avoids is found from its parts; the places
that do fail have to be shown to fail with something else.
-/

universe u

namespace Transaction

variable {ρ σ τ ε α β : Type u}

/-! ## Computations that only may fail -/

/-- The computation does not end with the failure. -/
class Spares (failure : ε) (result : Except ε α) : Prop where
  ne_error : result ≠ .error failure

section Spares

variable {failure : ε}

instance (value : α) : Spares failure (pure value : Except ε α) :=
  ⟨nofun⟩

instance (value : α) : Spares failure (.ok value : Except ε α) :=
  ⟨nofun⟩

/-- Another failure. -/
theorem Spares.error {other : ε} (hother : other ≠ failure) :
    Spares failure (.error other : Except ε α) :=
  ⟨fun h => hother (Except.error.inj h)⟩

/-- A sequence spares what its parts spare. -/
theorem Spares.bind {first : Except ε α} {next : α → Except ε β} (hfirst : Spares failure first)
    (hnext : ∀ value, Spares failure (next value)) : Spares failure (first >>= next) where
  ne_error := by
    cases hvalue : first with
    | error other =>
        intro h
        exact hfirst.ne_error (hvalue.trans (congrArg Except.error (Except.error.inj h)))
    | ok value => exact (hnext value).ne_error

instance (first : Except ε α) (next : α → Except ε β) [Spares failure first]
    [∀ value, Spares failure (next value)] : Spares failure (first >>= next) :=
  .bind inferInstance inferInstance

instance (condition : Prop) [Decidable condition] (first second : Except ε α)
    [Spares failure first] [Spares failure second] :
    Spares failure (if condition then first else second) := by
  split <;> assumption

/-- A fold spares what its turns spare. -/
theorem Spares.foldlM {items : List α} {acc : β} {body : β → α → Except ε β}
    (hbody : ∀ acc a, Spares failure (body acc a)) : Spares failure (items.foldlM body acc) := by
  induction items generalizing acc with
  | nil => exact inferInstanceAs (Spares failure (pure acc))
  | cons a rest ih => exact .bind (hbody acc a) fun _ => ih

instance (items : List α) (acc : β) (body : β → α → Except ε β)
    [∀ acc a, Spares failure (body acc a)] : Spares failure (items.foldlM body acc) :=
  .foldlM inferInstance

end Spares

/-! ## Transactions -/

/-- From `s`, `m` does not end with the failure. -/
def AvoidsAt (failure : ε) (m : Transaction ρ σ ε α) (env : ρ) (s : σ) : Prop :=
  m env s ≠ .error failure

/-- From no state does `m` end with the failure. -/
class Avoids (failure : ε) (m : Transaction ρ σ ε α) : Prop where
  avoidsAt : ∀ env s, AvoidsAt failure m env s

section Avoids

variable {failure : ε} {m : Transaction ρ σ ε α} {env : ρ} {s : σ} {post : α → σ → Prop}

/-- The sequencing rule: the second transaction is run where the first one ends. -/
theorem AvoidsAt.bind {next : α → Transaction ρ σ ε β} (hfirst : AvoidsAt failure m env s)
    (hensures : Ensures m env s post)
    (hnext : ∀ value s', post value s' → AvoidsAt failure (next value) env s') :
    AvoidsAt failure (m >>= next) env s := by
  show Transaction.bind m next env s ≠ .error failure
  unfold Transaction.bind
  cases hrun : m env s with
  | error other =>
      intro h
      exact hfirst (hrun.trans (congrArg Except.error (Except.error.inj h)))
  | ok result => exact hnext result.1 result.2 (hensures.elim hrun)

instance (value : α) : Avoids failure (pure value : Transaction ρ σ ε α) :=
  ⟨fun _ _ => nofun⟩

instance (result : Except ε α) [hspares : Spares failure result] :
    Avoids failure (liftM result : Transaction ρ σ ε α) where
  avoidsAt env s := by
    show result.map (fun value => (value, s)) ≠ .error failure
    cases hresult : result with
    | error other =>
        intro h
        exact hspares.ne_error (hresult.trans (congrArg Except.error (Except.error.inj h)))
    | ok value => nofun

instance (f : ρ → α) : Avoids failure (asks f : Transaction ρ σ ε α) :=
  ⟨fun _ _ => nofun⟩

instance (f : σ → α) : Avoids failure (gets f : Transaction ρ σ ε α) :=
  ⟨fun _ _ => nofun⟩

instance (f : σ → σ) : Avoids failure (update f : Transaction ρ σ ε PUnit) :=
  ⟨fun _ _ => nofun⟩

/-- Another failure. -/
theorem Avoids.fail {other : ε} (hother : other ≠ failure) :
    Avoids failure (fail other : Transaction ρ σ ε α) :=
  ⟨fun _ _ h => hother (Except.error.inj h)⟩

/-- A sequence avoids what its parts avoid. -/
theorem Avoids.bind {next : α → Transaction ρ σ ε β} (hfirst : Avoids failure m)
    (hnext : ∀ value, Avoids failure (next value)) : Avoids failure (m >>= next) where
  avoidsAt env s := by
    have hensures : Ensures m env s fun _ _ => True := fun _ _ _ => trivial
    exact (hfirst.avoidsAt env s).bind hensures fun value s' _ => (hnext value).avoidsAt env s'

/-- After a check that leaves the state alone the second transaction is run from the same state. -/
theorem AvoidsAt.check {next : α → Transaction ρ σ ε β} (havoids : Avoids failure m)
    (hsame : Ensures m env s fun _ s' => s' = s)
    (hnext : ∀ value, AvoidsAt failure (next value) env s) : AvoidsAt failure (m >>= next) env s :=
  (havoids.avoidsAt env s).bind hsame fun value _ hs => hs ▸ hnext value

instance (m : Transaction ρ σ ε α) (next : α → Transaction ρ σ ε β) [Avoids failure m]
    [∀ value, Avoids failure (next value)] : Avoids failure (m >>= next) :=
  .bind inferInstance inferInstance

instance (m : Transaction ρ σ ε α) (f : α → β) [Avoids failure m] : Avoids failure (f <$> m) :=
  inferInstanceAs (Avoids failure (m >>= fun value => pure (f value)))

instance (condition : Prop) [Decidable condition] (first second : Transaction ρ σ ε α)
    [Avoids failure first] [Avoids failure second] :
    Avoids failure (if condition then first else second) := by
  split <;> assumption

theorem Avoids.failIf {condition : Prop} [Decidable condition] {other : ε}
    (hother : other ≠ failure) :
    Avoids failure (failIf condition other : Transaction ρ σ ε PUnit) :=
  have : Avoids failure (Transaction.fail other : Transaction ρ σ ε PUnit) := .fail hother
  inferInstanceAs (Avoids failure (if condition then Transaction.fail other else pure PUnit.unit))

theorem Avoids.orFail {value : Option α} {other : ε} (hother : other ≠ failure) :
    Avoids failure (orFail value other : Transaction ρ σ ε α) := by
  unfold Transaction.orFail
  split
  · infer_instance
  · exact .fail hother

theorem Avoids.onlyIf {condition : Prop} [Decidable condition] {m : Transaction ρ σ ε PUnit}
    (havoids : Avoids failure m) : Avoids failure (onlyIf condition m) :=
  inferInstanceAs (Avoids failure (if condition then m else pure PUnit.unit))

instance (condition : Prop) [Decidable condition] (m : Transaction ρ σ ε PUnit)
    [Avoids failure m] : Avoids failure (onlyIf condition m) :=
  .onlyIf inferInstance

theorem Avoids.onSome {value : Option β} {m : β → Transaction ρ σ ε PUnit}
    (havoids : ∀ a, Avoids failure (m a)) : Avoids failure (onSome value m) := by
  unfold Transaction.onSome
  split <;> infer_instance

instance (value : Option β) (m : β → Transaction ρ σ ε PUnit) [∀ a, Avoids failure (m a)] :
    Avoids failure (onSome value m) :=
  .onSome inferInstance

/-- A transaction over a part avoids what it avoids on the part. -/
instance (focus : Focus σ τ) (m : Transaction ρ τ ε α) [havoids : Avoids failure m] :
    Avoids failure (zoom focus m) where
  avoidsAt env s := by
    show Transaction.zoom focus m env s ≠ .error failure
    unfold Transaction.zoom
    cases hrun : m env (focus.view s) with
    | error other =>
        intro h
        exact havoids.avoidsAt env _ (hrun.trans (congrArg Except.error (Except.error.inj h)))
    | ok result => nofun

/-- A loop avoids what its turns avoid. -/
theorem Avoids.forEach {items : List α} {body : α → Transaction ρ σ ε PUnit}
    (hbody : ∀ a, Avoids failure (body a)) : Avoids failure (forEach items body) := by
  induction items with
  | nil => exact inferInstanceAs (Avoids failure (pure PUnit.unit))
  | cons a rest ih => exact .bind (hbody a) fun _ => ih

/-- A loop with an accumulator avoids what its turns avoid. -/
theorem Avoids.foldEach {items : List α} {acc : β} {body : β → α → Transaction ρ σ ε β}
    (hbody : ∀ acc a, Avoids failure (body acc a)) :
    Avoids failure (foldEach items acc body) := by
  induction items generalizing acc with
  | nil => exact inferInstanceAs (Avoids failure (pure acc))
  | cons a rest ih => exact .bind (hbody acc a) fun _ => ih

instance (items : List α) (body : α → Transaction ρ σ ε PUnit) [∀ a, Avoids failure (body a)] :
    Avoids failure (forEach items body) :=
  .forEach inferInstance

instance (items : List α) (acc : β) (body : β → α → Transaction ρ σ ε β)
    [∀ acc a, Avoids failure (body acc a)] : Avoids failure (foldEach items acc body) :=
  .foldEach inferInstance

end Avoids

end Transaction
