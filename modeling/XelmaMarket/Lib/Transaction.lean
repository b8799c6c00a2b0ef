import Mathlib.Control.Basic
import Mathlib.Data.List.Basic

/-!
# Transactions: state passing with an environment and failure

A transaction reads an environment, updates a state and either returns a value or fails. A
failure returns no state, so whoever runs a transaction keeps the old state when it fails. The
rest is two calculi. `Ensures m env s post` is partial correctness: whenever `m` returns from `s`,
the value and the new state satisfy `post`. `Returns m env s post` is total correctness: `m` does
return, and so. Each combinator has one equation for either, and a loop has one invariant rule.
-/

universe u

/-- A computation over environment `ρ` and state `σ` that returns an `α` with the new state or
fails with an `ε`. -/
def Transaction (ρ σ ε α : Type u) : Type u :=
  ρ → σ → Except ε (α × σ)

namespace Transaction

variable {ρ σ τ ε α β : Type u}

/-- Return a value without touching the state. -/
protected def pure (value : α) : Transaction ρ σ ε α :=
  fun _ s => .ok (value, s)

/-- Run `m`, then run `next` on its value in the state `m` left. -/
protected def bind (m : Transaction ρ σ ε α) (next : α → Transaction ρ σ ε β) :
    Transaction ρ σ ε β :=
  fun env s =>
    match m env s with
    | .ok (value, s') => next value env s'
    | .error failure => .error failure

instance : Monad (Transaction ρ σ ε) where
  pure := Transaction.pure
  bind := Transaction.bind

/-- A computation that only may fail is a transaction that leaves the state alone. -/
instance : MonadLift (Except ε) (Transaction ρ σ ε) where
  monadLift result := fun _ s => result.map fun value => (value, s)

/-- Read a part of the environment. -/
def asks (f : ρ → α) : Transaction ρ σ ε α :=
  fun env s => .ok (f env, s)

/-- Read a part of the state. -/
def gets (f : σ → α) : Transaction ρ σ ε α :=
  fun _ s => .ok (f s, s)

/-- Update the state. -/
def update (f : σ → σ) : Transaction ρ σ ε PUnit :=
  fun _ s => .ok (⟨⟩, f s)

/-- Fail. -/
def fail (failure : ε) : Transaction ρ σ ε α :=
  fun _ _ => .error failure

/-- Fail when the condition holds, otherwise go on. -/
def failIf (condition : Prop) [Decidable condition] (failure : ε) : Transaction ρ σ ε PUnit :=
  if condition then fail failure else pure ⟨⟩

/-- The value of an option, or a failure. -/
def orFail (value : Option α) (failure : ε) : Transaction ρ σ ε α :=
  match value with
  | some a => pure a
  | none => fail failure

/-- Run `m` only when the condition holds. -/
def onlyIf (condition : Prop) [Decidable condition] (m : Transaction ρ σ ε PUnit) :
    Transaction ρ σ ε PUnit :=
  if condition then m else pure ⟨⟩

/-- Run `m` on the value of an option, if there is one. -/
def onSome (value : Option α) (m : α → Transaction ρ σ ε PUnit) : Transaction ρ σ ε PUnit :=
  match value with
  | some a => m a
  | none => pure ⟨⟩

/-- Run `body` on the elements of a list in order. -/
def forEach : List α → (α → Transaction ρ σ ε PUnit) → Transaction ρ σ ε PUnit
  | [], _ => pure ⟨⟩
  | a :: rest, body => body a >>= fun _ => forEach rest body

/-- Run `body` on the elements of a list in order, threading an accumulator. -/
def foldEach : List α → β → (β → α → Transaction ρ σ ε β) → Transaction ρ σ ε β
  | [], acc, _ => pure acc
  | a :: rest, acc, body => body acc a >>= fun acc' => foldEach rest acc' body

/-- A part `τ` of a larger state `σ`: how to read it and how to replace it. -/
structure Focus (σ τ : Type u) where
  view : σ → τ
  replace : τ → σ → σ

/-- Run a transaction over a part of the state; the rest of the state stays as it is. -/
def zoom (focus : Focus σ τ) (m : Transaction ρ τ ε α) : Transaction ρ σ ε α :=
  fun env s =>
    match m env (focus.view s) with
    | .ok (value, part) => .ok (value, focus.replace part s)
    | .error failure => .error failure

/-- After a run that returned, a sequence goes on from there. -/
theorem bind_run {m : Transaction ρ σ ε α} {next : α → Transaction ρ σ ε β} {env : ρ} {s s' : σ}
    {value : α} (hrun : m env s = .ok (value, s')) : (m >>= next) env s = next value env s' := by
  show Transaction.bind m next env s = _
  unfold Transaction.bind
  rw [hrun]

/-- First parts that run alike may be exchanged. -/
theorem bind_congr_left {m m' : Transaction ρ σ ε α} {next : α → Transaction ρ σ ε β} {env : ρ}
    {s : σ} (hsame : m env s = m' env s) : (m >>= next) env s = (m' >>= next) env s := by
  show Transaction.bind m next env s = Transaction.bind m' next env s
  unfold Transaction.bind
  rw [hsame]

/-- A mapped run returns the image of the value. -/
theorem map_run (f : α → β) (m : Transaction ρ σ ε α) (env : ρ) (s : σ) :
    (f <$> m) env s = (m env s).map fun result => (f result.1, result.2) := by
  show Transaction.bind m _ env s = _
  unfold Transaction.bind
  cases m env s <;> rfl

/-- Sequences may be regrouped. -/
theorem bind_bind {γ : Type u} (m : Transaction ρ σ ε α) (first : α → Transaction ρ σ ε β)
    (next : β → Transaction ρ σ ε γ) :
    m >>= first >>= next = m >>= fun value => first value >>= next := by
  funext env s
  show Transaction.bind (Transaction.bind m first) next env s =
    Transaction.bind m (fun value => Transaction.bind (first value) next) env s
  unfold Transaction.bind
  cases m env s <;> rfl

/-- A value that is returned is handed on. -/
theorem return_bind (value : α) (next : α → Transaction ρ σ ε β) :
    pure value >>= next = next value :=
  rfl

/-! ## Computations that only may fail -/

/-- A sequence returns when its first part returns and the rest returns from there. -/
theorem bind_eq_ok {first : Except ε α} {next : α → Except ε β} {result : β} :
    (first >>= next) = .ok result ↔ ∃ value, first = .ok value ∧ next value = .ok result := by
  cases first with
  | error failure => exact ⟨fun h => (nomatch h), fun ⟨_, h, _⟩ => (nomatch h)⟩
  | ok value => exact ⟨fun h => ⟨value, rfl, h⟩, fun ⟨_, hvalue, h⟩ => by cases hvalue; exact h⟩

/-! ## Partial correctness -/

/-- Whenever `m` returns from `s`, the value and the new state satisfy `post`. -/
def Ensures (m : Transaction ρ σ ε α) (env : ρ) (s : σ) (post : α → σ → Prop) : Prop :=
  ∀ value s', m env s = .ok (value, s') → post value s'

variable {m : Transaction ρ σ ε α} {env : ρ} {s : σ} {post : α → σ → Prop}

/-- A run that returned satisfies every postcondition the transaction ensures. -/
theorem Ensures.elim (hensures : Ensures m env s post) {value : α} {s' : σ}
    (hrun : m env s = .ok (value, s')) : post value s' :=
  hensures value s' hrun

/-- A postcondition may be weakened. -/
theorem Ensures.mono {weaker : α → σ → Prop} (hensures : Ensures m env s post)
    (hweaker : ∀ value s', post value s' → weaker value s') : Ensures m env s weaker :=
  fun value s' hrun => hweaker value s' (hensures value s' hrun)

/-- Two postconditions may be established separately. -/
theorem Ensures.and {other : α → σ → Prop} (hpost : Ensures m env s post)
    (hother : Ensures m env s other) :
    Ensures m env s fun value s' => post value s' ∧ other value s' :=
  fun value s' hrun => ⟨hpost value s' hrun, hother value s' hrun⟩

@[simp] theorem ensures_pure (value : α) :
    Ensures (pure value : Transaction ρ σ ε α) env s post ↔ post value s := by
  constructor
  · intro h
    exact h value s rfl
  · intro h value' s' hrun
    cases hrun
    exact h

@[simp] theorem ensures_bind (next : α → Transaction ρ σ ε β) (post : β → σ → Prop) :
    Ensures (m >>= next) env s post ↔
      Ensures m env s fun value s' => Ensures (next value) env s' post := by
  have hbind : (m >>= next) env s =
      match m env s with
      | .ok (value, s') => next value env s'
      | .error failure => .error failure := rfl
  unfold Ensures
  rw [hbind]
  cases hm : m env s with
  | error failure => simp
  | ok result =>
      constructor
      · intro h value s' hrun
        cases hrun
        exact h
      · intro h
        exact h result.1 result.2 rfl

/-- The sequencing rule: what the first transaction ensures must suffice for the second. -/
theorem Ensures.bind {next : α → Transaction ρ σ ε β} {post' : β → σ → Prop}
    (hfirst : Ensures m env s post)
    (hnext : ∀ value s', post value s' → Ensures (next value) env s' post') :
    Ensures (m >>= next) env s post' :=
  (ensures_bind next post').mpr (hfirst.mono hnext)

@[simp] theorem ensures_map (f : α → β) (post : β → σ → Prop) :
    Ensures (f <$> m) env s post ↔ Ensures m env s fun value s' => post (f value) s' := by
  show Ensures (m >>= fun value => pure (f value)) env s post ↔ _
  simp

@[simp] theorem ensures_liftM (result : Except ε α) :
    Ensures (liftM result : Transaction ρ σ ε α) env s post ↔
      ∀ value, result = .ok value → post value s := by
  cases result with
  | error failure =>
      constructor
      · intro _ value hvalue
        cases hvalue
      · intro _ value s' hrun
        cases hrun
  | ok value =>
      constructor
      · intro h value' hvalue
        cases hvalue
        exact h value s rfl
      · intro h value' s' hrun
        cases hrun
        exact h value rfl

@[simp] theorem ensures_asks (f : ρ → α) :
    Ensures (asks f : Transaction ρ σ ε α) env s post ↔ post (f env) s := by
  constructor
  · intro h
    exact h (f env) s rfl
  · intro h value s' hrun
    cases hrun
    exact h

@[simp] theorem ensures_gets (f : σ → α) :
    Ensures (gets f : Transaction ρ σ ε α) env s post ↔ post (f s) s := by
  constructor
  · intro h
    exact h (f s) s rfl
  · intro h value s' hrun
    cases hrun
    exact h

@[simp] theorem ensures_update (f : σ → σ) (post : PUnit → σ → Prop) :
    Ensures (update f : Transaction ρ σ ε PUnit) env s post ↔ post ⟨⟩ (f s) := by
  constructor
  · intro h
    exact h ⟨⟩ (f s) rfl
  · intro h value s' hrun
    cases hrun
    exact h

@[simp] theorem ensures_fail (failure : ε) :
    Ensures (fail failure : Transaction ρ σ ε α) env s post ↔ True := by
  simp [Ensures, fail]

@[simp] theorem ensures_failIf (condition : Prop) [Decidable condition] (failure : ε)
    (post : PUnit → σ → Prop) :
    Ensures (failIf condition failure : Transaction ρ σ ε PUnit) env s post ↔
      (¬ condition → post ⟨⟩ s) := by
  unfold failIf
  split
  · simp [*]
  · simp [*]

@[simp] theorem ensures_orFail (value : Option α) (failure : ε) :
    Ensures (orFail value failure : Transaction ρ σ ε α) env s post ↔
      ∀ a, value = some a → post a s := by
  cases value with
  | none => simp [orFail]
  | some a => simp [orFail]

@[simp] theorem ensures_onlyIf (condition : Prop) [Decidable condition]
    (m : Transaction ρ σ ε PUnit) (post : PUnit → σ → Prop) :
    Ensures (onlyIf condition m) env s post ↔
      (condition → Ensures m env s post) ∧ (¬ condition → post ⟨⟩ s) := by
  unfold onlyIf
  split
  · simp [*]
  · simp [*]

@[simp] theorem ensures_onSome (value : Option β) (m : β → Transaction ρ σ ε PUnit)
    (post : PUnit → σ → Prop) :
    Ensures (onSome value m) env s post ↔
      (∀ a, value = some a → Ensures (m a) env s post) ∧ (value = none → post ⟨⟩ s) := by
  cases value with
  | none => simp [onSome]
  | some a => simp [onSome]

@[simp] theorem ensures_ite (condition : Prop) [Decidable condition]
    (first second : Transaction ρ σ ε α) :
    Ensures (if condition then first else second) env s post ↔
      (condition → Ensures first env s post) ∧ (¬ condition → Ensures second env s post) := by
  split <;> simp [*]

@[simp] theorem ensures_zoom (focus : Focus σ τ) (m : Transaction ρ τ ε α) :
    Ensures (zoom focus m) env s post ↔
      Ensures m env (focus.view s) fun value part => post value (focus.replace part s) := by
  unfold Ensures zoom
  cases hm : m env (focus.view s) with
  | error failure => simp
  | ok result =>
      constructor
      · intro h value part hrun
        cases hrun
        exact h value _ rfl
      · intro h value s' hrun
        cases hrun
        exact h result.1 result.2 rfl

@[simp] theorem ensures_forEach_nil (body : α → Transaction ρ σ ε PUnit)
    (post : PUnit → σ → Prop) :
    Ensures (forEach [] body) env s post ↔ post ⟨⟩ s :=
  ensures_pure PUnit.unit

@[simp] theorem ensures_forEach_cons (a : α) (rest : List α) (body : α → Transaction ρ σ ε PUnit)
    (post : PUnit → σ → Prop) :
    Ensures (forEach (a :: rest) body) env s post ↔
      Ensures (body a) env s fun _ s' => Ensures (forEach rest body) env s' post :=
  ensures_bind _ post

@[simp] theorem ensures_foldEach_nil (acc : β) (body : β → α → Transaction ρ σ ε β)
    (post : β → σ → Prop) :
    Ensures (foldEach [] acc body) env s post ↔ post acc s :=
  ensures_pure acc

@[simp] theorem ensures_foldEach_cons (a : α) (rest : List α) (acc : β)
    (body : β → α → Transaction ρ σ ε β) (post : β → σ → Prop) :
    Ensures (foldEach (a :: rest) acc body) env s post ↔
      Ensures (body acc a) env s fun acc' s' => Ensures (foldEach rest acc' body) env s' post :=
  ensures_bind _ post

/-- The loop rule: an invariant indexed by the elements still to come, kept by every turn of the
loop, holds of the empty list at the end. -/
theorem ensures_forEach (invariant : List α → σ → Prop) {body : α → Transaction ρ σ ε PUnit}
    (hstep : ∀ a rest s, invariant (a :: rest) s →
      Ensures (body a) env s fun _ s' => invariant rest s')
    {items : List α} {s : σ} (hinit : invariant items s) :
    Ensures (forEach items body) env s fun _ s' => invariant [] s' := by
  induction items generalizing s with
  | nil => simpa using hinit
  | cons a rest ih =>
      simp only [ensures_forEach_cons]
      exact (hstep a rest s hinit).mono fun _ s' hs' => ih hs'

/-- The loop rule with an accumulator. -/
theorem ensures_foldEach (invariant : List α → β → σ → Prop)
    {body : β → α → Transaction ρ σ ε β}
    (hstep : ∀ a rest acc s, invariant (a :: rest) acc s →
      Ensures (body acc a) env s fun acc' s' => invariant rest acc' s')
    {items : List α} {acc : β} {s : σ} (hinit : invariant items acc s) :
    Ensures (foldEach items acc body) env s fun acc' s' => invariant [] acc' s' := by
  induction items generalizing acc s with
  | nil => simpa using hinit
  | cons a rest ih =>
      simp only [ensures_foldEach_cons]
      exact (hstep a rest acc s hinit).mono fun acc' s' hs' => ih hs'

/-! ## Total correctness -/

/-- `m` returns from `s`, and the value and the new state satisfy `post`. -/
def Returns (m : Transaction ρ σ ε α) (env : ρ) (s : σ) (post : α → σ → Prop) : Prop :=
  ∃ value s', m env s = .ok (value, s') ∧ post value s'

/-- A run that returned is one with its value and its state. -/
theorem eq_ok_iff_returns {value : α} {s' : σ} :
    m env s = .ok (value, s') ↔ Returns m env s fun value' t => value' = value ∧ t = s' := by
  constructor
  · exact fun hrun => ⟨value, s', hrun, rfl, rfl⟩
  · rintro ⟨_, _, hrun, rfl, rfl⟩
    exact hrun

/-- A postcondition may be weakened. -/
theorem Returns.mono {weaker : α → σ → Prop} (hreturns : Returns m env s post)
    (hweaker : ∀ value s', post value s' → weaker value s') : Returns m env s weaker := by
  obtain ⟨value, s', hrun, hpost⟩ := hreturns
  exact ⟨value, s', hrun, hweaker value s' hpost⟩

/-- What a transaction that returns ensures holds when it has returned. -/
theorem Returns.and {other : α → σ → Prop} (hreturns : Returns m env s post)
    (hensures : Ensures m env s other) :
    Returns m env s fun value s' => post value s' ∧ other value s' := by
  obtain ⟨value, s', hrun, hpost⟩ := hreturns
  exact ⟨value, s', hrun, hpost, hensures.elim hrun⟩

/-- After a check that returned, a sequence goes on from the same state. -/
theorem Returns.bind_check {next : α → Transaction ρ σ ε β} {result : Except ε (β × σ)}
    (hcheck : Returns m env s fun _ s' => s' = s) (hnext : ∀ value, next value env s = result) :
    (m >>= next) env s = result := by
  obtain ⟨value, s', hrun, hsame⟩ := hcheck
  rw [bind_run hrun, hsame, hnext]

@[simp] theorem returns_pure (value : α) :
    Returns (pure value : Transaction ρ σ ε α) env s post ↔ post value s := by
  constructor
  · rintro ⟨_, _, hrun, hpost⟩
    cases hrun
    exact hpost
  · intro hpost
    exact ⟨value, s, rfl, hpost⟩

@[simp] theorem returns_bind (next : α → Transaction ρ σ ε β) (post : β → σ → Prop) :
    Returns (m >>= next) env s post ↔
      Returns m env s fun value s' => Returns (next value) env s' post := by
  have hbind : (m >>= next) env s =
      match m env s with
      | .ok (value, s') => next value env s'
      | .error failure => .error failure := rfl
  unfold Returns
  rw [hbind]
  cases hm : m env s with
  | error failure => simp
  | ok result => simp [Prod.ext_iff]

@[simp] theorem returns_liftM (result : Except ε α) :
    Returns (liftM result : Transaction ρ σ ε α) env s post ↔
      ∃ value, result = .ok value ∧ post value s := by
  cases result with
  | error failure =>
      constructor
      · rintro ⟨_, _, hrun, -⟩
        cases hrun
      · rintro ⟨_, hvalue, -⟩
        cases hvalue
  | ok value =>
      constructor
      · rintro ⟨_, _, hrun, hpost⟩
        cases hrun
        exact ⟨value, rfl, hpost⟩
      · rintro ⟨_, hvalue, hpost⟩
        cases hvalue
        exact ⟨value, s, rfl, hpost⟩

@[simp] theorem returns_asks (f : ρ → α) :
    Returns (asks f : Transaction ρ σ ε α) env s post ↔ post (f env) s := by
  constructor
  · rintro ⟨_, _, hrun, hpost⟩
    cases hrun
    exact hpost
  · intro hpost
    exact ⟨f env, s, rfl, hpost⟩

@[simp] theorem returns_gets (f : σ → α) :
    Returns (gets f : Transaction ρ σ ε α) env s post ↔ post (f s) s := by
  constructor
  · rintro ⟨_, _, hrun, hpost⟩
    cases hrun
    exact hpost
  · intro hpost
    exact ⟨f s, s, rfl, hpost⟩

@[simp] theorem returns_update (f : σ → σ) (post : PUnit → σ → Prop) :
    Returns (update f : Transaction ρ σ ε PUnit) env s post ↔ post ⟨⟩ (f s) := by
  constructor
  · rintro ⟨_, _, hrun, hpost⟩
    cases hrun
    exact hpost
  · intro hpost
    exact ⟨⟨⟩, f s, rfl, hpost⟩

@[simp] theorem returns_fail (failure : ε) :
    Returns (fail failure : Transaction ρ σ ε α) env s post ↔ False := by
  simp [Returns, fail]

@[simp] theorem returns_failIf (condition : Prop) [Decidable condition] (failure : ε)
    (post : PUnit → σ → Prop) :
    Returns (failIf condition failure : Transaction ρ σ ε PUnit) env s post ↔
      ¬ condition ∧ post ⟨⟩ s := by
  unfold failIf
  split
  · simp [*]
  · simp [*]

@[simp] theorem returns_orFail (value : Option α) (failure : ε) :
    Returns (orFail value failure : Transaction ρ σ ε α) env s post ↔
      ∃ a, value = some a ∧ post a s := by
  cases value with
  | none => simp [orFail]
  | some a => simp [orFail]

@[simp] theorem returns_onlyIf (condition : Prop) [Decidable condition]
    (m : Transaction ρ σ ε PUnit) (post : PUnit → σ → Prop) :
    Returns (onlyIf condition m) env s post ↔
      (condition → Returns m env s post) ∧ (¬ condition → post ⟨⟩ s) := by
  unfold onlyIf
  split
  · simp [*]
  · simp [*]

@[simp] theorem returns_onSome (value : Option β) (m : β → Transaction ρ σ ε PUnit)
    (post : PUnit → σ → Prop) :
    Returns (onSome value m) env s post ↔
      (∀ a, value = some a → Returns (m a) env s post) ∧ (value = none → post ⟨⟩ s) := by
  cases value with
  | none => simp [onSome]
  | some a => simp [onSome]

@[simp] theorem returns_ite (condition : Prop) [Decidable condition]
    (first second : Transaction ρ σ ε α) :
    Returns (if condition then first else second) env s post ↔
      (condition → Returns first env s post) ∧ (¬ condition → Returns second env s post) := by
  split <;> simp [*]

@[simp] theorem returns_zoom (focus : Focus σ τ) (m : Transaction ρ τ ε α) :
    Returns (zoom focus m) env s post ↔
      Returns m env (focus.view s) fun value part => post value (focus.replace part s) := by
  unfold Returns zoom
  cases hm : m env (focus.view s) with
  | error failure => simp
  | ok result => simp [Prod.ext_iff]

@[simp] theorem returns_forEach_nil (body : α → Transaction ρ σ ε PUnit)
    (post : PUnit → σ → Prop) :
    Returns (forEach [] body) env s post ↔ post ⟨⟩ s :=
  returns_pure PUnit.unit

@[simp] theorem returns_forEach_cons (a : α) (rest : List α) (body : α → Transaction ρ σ ε PUnit)
    (post : PUnit → σ → Prop) :
    Returns (forEach (a :: rest) body) env s post ↔
      Returns (body a) env s fun _ s' => Returns (forEach rest body) env s' post :=
  returns_bind _ post

@[simp] theorem returns_foldEach_nil (acc : β) (body : β → α → Transaction ρ σ ε β)
    (post : β → σ → Prop) :
    Returns (foldEach [] acc body) env s post ↔ post acc s :=
  returns_pure acc

@[simp] theorem returns_foldEach_cons (a : α) (rest : List α) (acc : β)
    (body : β → α → Transaction ρ σ ε β) (post : β → σ → Prop) :
    Returns (foldEach (a :: rest) acc body) env s post ↔
      Returns (body acc a) env s fun acc' s' => Returns (foldEach rest acc' body) env s' post :=
  returns_bind _ post

/-! ## Frames -/

/-- `m` leaves a view of the state as it was, whatever it starts from. The combinators have
instances, so that the frame of a transaction is found from its parts. -/
class Keeps (view : σ → τ) (m : Transaction ρ σ ε α) : Prop where
  ensures : ∀ env s, Ensures m env s fun _ s' => view s' = view s

section Keeps

variable {view : σ → τ} {υ : Type u}

/-- An update keeps the views it does not touch. -/
theorem Keeps.of_update {f : σ → σ} (hview : ∀ s, view (f s) = view s) :
    Keeps view (update f : Transaction ρ σ ε PUnit) :=
  ⟨fun env s => (@ensures_update _ _ _ env s f _).mpr (hview s)⟩

/-- A transaction over a part keeps what depends on a kept view of the part. -/
theorem Keeps.of_zoom (focus : Focus σ τ) {view : σ → β} {partView : τ → υ}
    {m : Transaction ρ τ ε α} [Keeps partView m]
    (hview : ∀ s part, partView part = partView (focus.view s) →
      view (focus.replace part s) = view s) : Keeps view (zoom focus m) :=
  ⟨fun env s => (ensures_zoom focus m).mpr
    ((Keeps.ensures env (focus.view s)).mono fun _ part h => hview s part h)⟩

instance (value : α) : Keeps view (pure value : Transaction ρ σ ε α) :=
  ⟨fun env s => (@ensures_pure _ _ _ _ env s _ value).mpr rfl⟩

instance (result : Except ε α) : Keeps view (liftM result : Transaction ρ σ ε α) :=
  ⟨fun env s => (@ensures_liftM _ _ _ _ env s _ result).mpr fun _ _ => rfl⟩

instance (f : ρ → α) : Keeps view (asks f : Transaction ρ σ ε α) :=
  ⟨fun env s => (@ensures_asks _ _ _ _ env s _ f).mpr rfl⟩

instance (f : σ → α) : Keeps view (gets f : Transaction ρ σ ε α) :=
  ⟨fun env s => (@ensures_gets _ _ _ _ env s _ f).mpr rfl⟩

instance (failure : ε) : Keeps view (fail failure : Transaction ρ σ ε α) :=
  ⟨fun env s => (@ensures_fail _ _ _ _ env s _ failure).mpr trivial⟩

/-- A sequence keeps what its parts keep. -/
theorem Keeps.bind {m : Transaction ρ σ ε α} {next : α → Transaction ρ σ ε β}
    (hfirst : Keeps view m) (hnext : ∀ value, Keeps view (next value)) : Keeps view (m >>= next) :=
  ⟨fun env s => (hfirst.ensures env s).bind fun value s' hs' =>
    ((hnext value).ensures env s').mono fun _ _ h => h.trans hs'⟩

instance (m : Transaction ρ σ ε α) (next : α → Transaction ρ σ ε β) [Keeps view m]
    [∀ value, Keeps view (next value)] : Keeps view (m >>= next) :=
  .bind inferInstance inferInstance

instance (m : Transaction ρ σ ε α) (f : α → β) [Keeps view m] : Keeps view (f <$> m) :=
  inferInstanceAs (Keeps view (m >>= fun value => pure (f value)))

instance (condition : Prop) [Decidable condition] (first second : Transaction ρ σ ε α)
    [Keeps view first] [Keeps view second] :
    Keeps view (if condition then first else second) := by
  split <;> assumption

instance (condition : Prop) [Decidable condition] (failure : ε) :
    Keeps view (failIf condition failure : Transaction ρ σ ε PUnit) :=
  inferInstanceAs (Keeps view (if condition then fail failure else pure PUnit.unit))

instance (condition : Prop) [Decidable condition] (m : Transaction ρ σ ε PUnit) [Keeps view m] :
    Keeps view (onlyIf condition m) :=
  inferInstanceAs (Keeps view (if condition then m else pure PUnit.unit))

instance (value : Option α) (failure : ε) :
    Keeps view (orFail value failure : Transaction ρ σ ε α) := by
  unfold orFail
  split <;> infer_instance

instance (value : Option β) (m : β → Transaction ρ σ ε PUnit) [∀ a, Keeps view (m a)] :
    Keeps view (onSome value m) := by
  unfold onSome
  split <;> infer_instance

instance (items : List α) (body : α → Transaction ρ σ ε PUnit)
    [hbody : ∀ a, Keeps view (body a)] : Keeps view (forEach items body) :=
  ⟨fun env s => ensures_forEach (fun _ s' => view s' = view s)
    (fun a _ s' hs' => ((hbody a).ensures env s').mono fun _ _ h => h.trans hs') rfl⟩

instance (items : List α) (acc : β) (body : β → α → Transaction ρ σ ε β)
    [hbody : ∀ acc a, Keeps view (body acc a)] : Keeps view (foldEach items acc body) :=
  ⟨fun env s => ensures_foldEach (fun _ _ s' => view s' = view s)
    (fun a _ acc s' hs' => ((hbody acc a).ensures env s').mono fun _ _ h => h.trans hs') rfl⟩

/-- `m` changes a view of the state as `f` says, whatever it starts from. -/
def Alters (view : σ → τ) (f : τ → τ) (m : Transaction ρ σ ε α) : Prop :=
  ∀ env s, Ensures m env s fun _ s' => view s' = f (view s)

variable {f : τ → τ}

/-- What keeps the view may come first. -/
theorem Alters.after {m : Transaction ρ σ ε α} {next : α → Transaction ρ σ ε β}
    (hfirst : Keeps view m) (hnext : ∀ value, Alters view f (next value)) :
    Alters view f (m >>= next) :=
  fun env s => (hfirst.ensures env s).bind fun value s' hs' =>
    hs' ▸ hnext value env s'

/-- What keeps the view may come last. -/
theorem Alters.before {m : Transaction ρ σ ε α} {next : α → Transaction ρ σ ε β}
    (hfirst : Alters view f m) (hnext : ∀ value, Keeps view (next value)) :
    Alters view f (m >>= next) :=
  fun env s => (hfirst env s).bind fun value s' hs' =>
    ((hnext value).ensures env s').mono fun _ _ h => h.trans hs'

/-- After what keeps a view, only how the rest runs where the view is the same matters. -/
theorem Keeps.bind_congr {m : Transaction ρ σ ε α} {next next' : α → Transaction ρ σ ε β}
    {env : ρ} {s : σ} (hkeeps : Keeps view m)
    (hsame : ∀ value s', view s' = view s → next value env s' = next' value env s') :
    (m >>= next) env s = (m >>= next') env s := by
  show Transaction.bind m next env s = Transaction.bind m next' env s
  unfold Transaction.bind
  cases hrun : m env s with
  | error failure => rfl
  | ok result => exact hsame result.1 result.2 ((hkeeps.ensures env s).elim hrun)

/-- Two loops run alike when their turns do wherever the view is the same. -/
theorem Keeps.forEach_congr {items : List α} {body body' : α → Transaction ρ σ ε PUnit}
    {env : ρ} {s : σ} (hkeeps : ∀ a, Keeps view (body a))
    (hsame : ∀ a ∈ items, ∀ s', view s' = view s → body a env s' = body' a env s') :
    forEach items body env s = forEach items body' env s := by
  induction items generalizing s with
  | nil => rfl
  | cons a rest ih =>
      show Transaction.bind (body a) _ env s = Transaction.bind (body' a) _ env s
      unfold Transaction.bind
      rw [← hsame a List.mem_cons_self s rfl]
      cases hrun : body a env s with
      | error failure => rfl
      | ok result =>
          have hview : view result.2 = view s := ((hkeeps a).ensures env s).elim hrun
          exact ih fun other hmem s' hview' =>
            hsame other (List.mem_cons_of_mem _ hmem) s' (hview'.trans hview)

end Keeps

/-! ## Loops rewritten -/

/-- A loop over images runs the body at the images. -/
theorem forEach_map {ι : Type u} (f : ι → α) (items : List ι)
    (body : α → Transaction ρ σ ε PUnit) :
    forEach (items.map f) body = forEach items fun a => body (f a) := by
  induction items with
  | nil => rfl
  | cons a rest ih =>
      show (body (f a) >>= fun _ => forEach (rest.map f) body) = _
      rw [ih]
      rfl

/-- A fold that threads nothing is a loop. -/
theorem foldEach_unit (items : List α) (body : PUnit → α → Transaction ρ σ ε PUnit) :
    foldEach items PUnit.unit body = forEach items (body PUnit.unit) := by
  induction items with
  | nil => rfl
  | cons a rest ih =>
      show (body PUnit.unit a >>= fun _ => foldEach rest PUnit.unit body) = _
      rw [ih]
      rfl

end Transaction
