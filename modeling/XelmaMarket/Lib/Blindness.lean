import XelmaMarket.Lib.Transaction

/-!
# Changes of the state that a transaction does not see

`Ignores change m` says that `m` runs from a changed state just as it runs from the state itself:
it fails with the same failure or returns the same value, and the states it leaves differ by the
change. The combinators have instances, so that what a transaction ignores is found from its parts.
`IgnoresAt` says so of one state, for a transaction that ignores a change from some states only.
-/

universe u

namespace Transaction

variable {ρ σ τ ε α β : Type u}

/-- `m` neither sees the change nor undoes it. -/
class Ignores (change : σ → σ) (m : Transaction ρ σ ε α) : Prop where
  run_eq : ∀ env s, m env (change s) = (m env s).map fun result => (result.1, change result.2)

/-- From `s`, `m` neither sees the change nor undoes it. -/
def IgnoresAt (change : σ → σ) (m : Transaction ρ σ ε α) (env : ρ) (s : σ) : Prop :=
  m env (change s) = (m env s).map fun result => (result.1, change result.2)

section Ignores

variable {change : σ → σ} {m : Transaction ρ σ ε α} {env : ρ} {s s' : σ} {value : α}

/-- A run that returned returns from the changed state too. -/
theorem Ignores.ok [hignores : Ignores change m] (hrun : m env s = .ok (value, s')) :
    m env (change s) = .ok (value, change s') := by
  rw [hignores.run_eq, hrun]
  rfl

/-- A reading that does not see the change. -/
theorem Ignores.gets {f : σ → α} (hsame : ∀ s, f (change s) = f s) :
    Ignores change (gets f : Transaction ρ σ ε α) :=
  ⟨fun _ s => congrArg (fun value => Except.ok (value, change s)) (hsame s)⟩

/-- An update that commutes with the change. -/
theorem Ignores.update {f : σ → σ} (hsame : ∀ s, f (change s) = change (f s)) :
    Ignores change (update f : Transaction ρ σ ε PUnit) :=
  ⟨fun _ s => congrArg (fun s' => Except.ok (PUnit.unit, s')) (hsame s)⟩

/-- A transaction over a part ignores a change that is one of the part or lies outside it. -/
theorem Ignores.zoom (focus : Focus σ τ) (partChange : τ → τ) {m : Transaction ρ τ ε α}
    [hignores : Ignores partChange m]
    (hview : ∀ s, focus.view (change s) = partChange (focus.view s))
    (hreplace : ∀ part s, focus.replace (partChange part) (change s) =
      change (focus.replace part s)) : Ignores change (zoom focus m) where
  run_eq env s := by
    simp only [Transaction.zoom, hview, hignores.run_eq]
    cases m env (focus.view s) with
    | error failure => rfl
    | ok result => simp [Except.map, hreplace]

/-- Every transaction ignores the change that changes nothing. -/
instance (m : Transaction ρ σ ε α) : Ignores id m :=
  ⟨fun env s => by cases h : m env s <;> simp [Except.map, h]⟩

instance (value : α) : Ignores change (pure value : Transaction ρ σ ε α) :=
  ⟨fun _ _ => rfl⟩

instance (result : Except ε α) : Ignores change (liftM result : Transaction ρ σ ε α) :=
  ⟨fun _ _ => by cases result <;> rfl⟩

instance (f : ρ → α) : Ignores change (asks f : Transaction ρ σ ε α) :=
  ⟨fun _ _ => rfl⟩

instance (failure : ε) : Ignores change (fail failure : Transaction ρ σ ε α) :=
  ⟨fun _ _ => rfl⟩

/-- A sequence ignores what its parts ignore. -/
theorem Ignores.bind {next : α → Transaction ρ σ ε β} (hfirst : Ignores change m)
    (hnext : ∀ value, Ignores change (next value)) : Ignores change (m >>= next) where
  run_eq env s := by
    show Transaction.bind m next env (change s) = (Transaction.bind m next env s).map _
    simp only [Transaction.bind, hfirst.run_eq]
    cases m env s with
    | error failure => rfl
    | ok result => exact (hnext result.1).run_eq env result.2

instance (m : Transaction ρ σ ε α) (next : α → Transaction ρ σ ε β) [Ignores change m]
    [∀ value, Ignores change (next value)] : Ignores change (m >>= next) :=
  .bind inferInstance inferInstance

instance (m : Transaction ρ σ ε α) (f : α → β) [Ignores change m] : Ignores change (f <$> m) :=
  inferInstanceAs (Ignores change (m >>= fun value => pure (f value)))

instance (condition : Prop) [Decidable condition] (first second : Transaction ρ σ ε α)
    [Ignores change first] [Ignores change second] :
    Ignores change (if condition then first else second) := by
  split <;> assumption

instance (condition : Prop) [Decidable condition] (failure : ε) :
    Ignores change (failIf condition failure : Transaction ρ σ ε PUnit) :=
  inferInstanceAs (Ignores change (if condition then fail failure else pure PUnit.unit))

theorem Ignores.onlyIf {condition : Prop} [Decidable condition] {m : Transaction ρ σ ε PUnit}
    (hignores : Ignores change m) : Ignores change (onlyIf condition m) :=
  inferInstanceAs (Ignores change (if condition then m else pure PUnit.unit))

instance (condition : Prop) [Decidable condition] (m : Transaction ρ σ ε PUnit)
    [Ignores change m] : Ignores change (onlyIf condition m) :=
  .onlyIf inferInstance

instance (value : Option α) (failure : ε) :
    Ignores change (orFail value failure : Transaction ρ σ ε α) := by
  unfold orFail
  split <;> infer_instance

theorem Ignores.onSome {value : Option β} {m : β → Transaction ρ σ ε PUnit}
    (hignores : ∀ a, Ignores change (m a)) : Ignores change (onSome value m) := by
  unfold Transaction.onSome
  split <;> infer_instance

instance (value : Option β) (m : β → Transaction ρ σ ε PUnit) [∀ a, Ignores change (m a)] :
    Ignores change (onSome value m) :=
  .onSome inferInstance

/-- A loop ignores what its turns ignore. -/
theorem Ignores.forEach {items : List α} {body : α → Transaction ρ σ ε PUnit}
    (hbody : ∀ a, Ignores change (body a)) : Ignores change (forEach items body) := by
  induction items with
  | nil => exact inferInstanceAs (Ignores change (pure PUnit.unit))
  | cons a rest ih => exact .bind (hbody a) fun _ => ih

/-- A loop with an accumulator ignores what its turns ignore. -/
theorem Ignores.foldEach {items : List α} {acc : β} {body : β → α → Transaction ρ σ ε β}
    (hbody : ∀ acc a, Ignores change (body acc a)) :
    Ignores change (foldEach items acc body) := by
  induction items generalizing acc with
  | nil => exact inferInstanceAs (Ignores change (pure acc))
  | cons a rest ih => exact .bind (hbody acc a) fun _ => ih

instance (items : List α) (body : α → Transaction ρ σ ε PUnit) [∀ a, Ignores change (body a)] :
    Ignores change (forEach items body) :=
  .forEach inferInstance

instance (items : List α) (acc : β) (body : β → α → Transaction ρ σ ε β)
    [∀ acc a, Ignores change (body acc a)] : Ignores change (foldEach items acc body) :=
  .foldEach inferInstance

/-- The sequencing rule: the second transaction is run where the first one ends. -/
theorem IgnoresAt.bind {post : α → σ → Prop} {next : α → Transaction ρ σ ε β}
    (hfirst : IgnoresAt change m env s) (hensures : Ensures m env s post)
    (hnext : ∀ value s', post value s' → IgnoresAt change (next value) env s') :
    IgnoresAt change (m >>= next) env s := by
  show Transaction.bind m next env (change s) = (Transaction.bind m next env s).map _
  unfold Transaction.bind
  rw [show m env (change s) = _ from hfirst]
  cases hrun : m env s with
  | error failure => rfl
  | ok result => exact hnext result.1 result.2 (hensures.elim hrun)

/-- A transaction that ignores a change does so from every state. -/
theorem Ignores.ignoresAt (hignores : Ignores change m) : IgnoresAt change m env s :=
  hignores.run_eq env s

/-- A transaction returns from a state if and only if it does from the changed one. -/
theorem IgnoresAt.returns_iff (hignores : IgnoresAt change m env s) :
    Returns m env (change s) (fun _ _ => True) ↔ Returns m env s fun _ _ => True := by
  unfold Returns
  rw [show m env (change s) = _ from hignores]
  cases m env s with
  | error failure => simp [Except.map]
  | ok result => simp [Except.map, Prod.ext_iff]

/-- After a check that leaves the state alone the second transaction is run from the same state. -/
theorem IgnoresAt.check {next : α → Transaction ρ σ ε β} (hignores : Ignores change m)
    (hsame : Ensures m env s fun _ s' => s' = s)
    (hnext : ∀ value, IgnoresAt change (next value) env s) :
    IgnoresAt change (m >>= next) env s :=
  hignores.ignoresAt.bind hsame fun value _ hs => hs ▸ hnext value

end Ignores

end Transaction
