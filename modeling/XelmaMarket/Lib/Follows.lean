import Mathlib.Order.Defs.Unbundled
import XelmaMarket.Lib.Transaction

/-!
# Transactions that follow a preorder

A transaction follows a relation when each of its runs relates the state before to the state after.
For a preorder the combinators have instances, so that what a transaction may do to its state is
found from its parts. Keeping a view is the case of an equality.
-/

universe u

namespace Transaction

variable {ρ σ τ ε α β : Type u}

/-- Whatever `m` starts from, it leaves a state that the relation allows. -/
class Follows (rel : σ → σ → Prop) (m : Transaction ρ σ ε α) : Prop where
  ensures : ∀ env s, Ensures m env s fun _ s' => rel s s'

section Follows

variable {rel : σ → σ → Prop}

/-- What leaves a view alone follows a relation that is reflexive for the view. -/
theorem Follows.of_keeps {view : σ → τ} {m : Transaction ρ σ ε α} (hkeeps : Keeps view m)
    (hrel : ∀ s s', view s' = view s → rel s s') : Follows rel m :=
  ⟨fun env s => (hkeeps.ensures env s).mono fun _ s' hview => hrel s s' hview⟩

/-- An update follows what it does to every state. -/
theorem Follows.of_update {f : σ → σ} (hrel : ∀ s, rel s (f s)) :
    Follows rel (update f : Transaction ρ σ ε PUnit) :=
  ⟨fun env s => (@ensures_update _ _ _ env s f _).mpr (hrel s)⟩

variable [IsPreorder σ rel]

/-- A sequence follows what its parts follow. -/
theorem Follows.bind {m : Transaction ρ σ ε α} {next : α → Transaction ρ σ ε β}
    (hfirst : Follows rel m) (hnext : ∀ value, Follows rel (next value)) :
    Follows rel (m >>= next) :=
  ⟨fun env s => (hfirst.ensures env s).bind fun value s' hs' =>
    ((hnext value).ensures env s').mono fun _ _ h => IsTrans.trans _ _ _ hs' h⟩

instance (value : α) : Follows rel (pure value : Transaction ρ σ ε α) :=
  ⟨fun env s => (@ensures_pure _ _ _ _ env s _ value).mpr (Std.Refl.refl s)⟩

instance (result : Except ε α) : Follows rel (liftM result : Transaction ρ σ ε α) :=
  ⟨fun env s => (@ensures_liftM _ _ _ _ env s _ result).mpr fun _ _ => Std.Refl.refl s⟩

instance (f : ρ → α) : Follows rel (asks f : Transaction ρ σ ε α) :=
  ⟨fun env s => (@ensures_asks _ _ _ _ env s _ f).mpr (Std.Refl.refl s)⟩

instance (f : σ → α) : Follows rel (gets f : Transaction ρ σ ε α) :=
  ⟨fun env s => (@ensures_gets _ _ _ _ env s _ f).mpr (Std.Refl.refl s)⟩

omit [IsPreorder σ rel] in
instance (failure : ε) : Follows rel (fail failure : Transaction ρ σ ε α) :=
  ⟨fun env s => (@ensures_fail _ _ _ _ env s _ failure).mpr trivial⟩

instance (m : Transaction ρ σ ε α) (next : α → Transaction ρ σ ε β) [Follows rel m]
    [∀ value, Follows rel (next value)] : Follows rel (m >>= next) :=
  .bind inferInstance inferInstance

instance (m : Transaction ρ σ ε α) (f : α → β) [Follows rel m] : Follows rel (f <$> m) :=
  inferInstanceAs (Follows rel (m >>= fun value => pure (f value)))

omit [IsPreorder σ rel] in
instance (condition : Prop) [Decidable condition] (first second : Transaction ρ σ ε α)
    [Follows rel first] [Follows rel second] :
    Follows rel (if condition then first else second) := by
  split <;> assumption

instance (condition : Prop) [Decidable condition] (failure : ε) :
    Follows rel (failIf condition failure : Transaction ρ σ ε PUnit) :=
  inferInstanceAs (Follows rel (if condition then fail failure else pure PUnit.unit))

instance (condition : Prop) [Decidable condition] (m : Transaction ρ σ ε PUnit)
    [Follows rel m] : Follows rel (onlyIf condition m) :=
  inferInstanceAs (Follows rel (if condition then m else pure PUnit.unit))

instance (value : Option α) (failure : ε) :
    Follows rel (orFail value failure : Transaction ρ σ ε α) := by
  unfold orFail
  split <;> infer_instance

instance (value : Option β) (m : β → Transaction ρ σ ε PUnit) [∀ a, Follows rel (m a)] :
    Follows rel (onSome value m) := by
  unfold onSome
  split <;> infer_instance

instance (items : List α) (body : α → Transaction ρ σ ε PUnit)
    [hbody : ∀ a, Follows rel (body a)] : Follows rel (forEach items body) :=
  ⟨fun env s => ensures_forEach (fun _ s' => rel s s')
    (fun a _ s' hs' => ((hbody a).ensures env s').mono fun _ _ h => IsTrans.trans _ _ _ hs' h)
    (Std.Refl.refl s)⟩

instance (items : List α) (acc : β) (body : β → α → Transaction ρ σ ε β)
    [hbody : ∀ acc a, Follows rel (body acc a)] : Follows rel (foldEach items acc body) :=
  ⟨fun env s => ensures_foldEach (fun _ _ s' => rel s s')
    (fun a _ acc s' hs' =>
      ((hbody acc a).ensures env s').mono fun _ _ h => IsTrans.trans _ _ _ hs' h)
    (Std.Refl.refl s)⟩

end Follows

end Transaction
