import Mathlib.Data.List.Forall2

/-!
# Traversals that may fail

A sequence of computations fails where its first failure is: a traversal of a list returns when
every step does, and otherwise fails with the first step that fails.
-/

universe u

namespace Traverse

variable {ε α β : Type u}

/-- A sequence fails when its first part does, or the rest from what that returned. -/
theorem bind_eq_error {first : Except ε α} {next : α → Except ε β} {failure : ε} :
    (first >>= next) = .error failure ↔
      first = .error failure ∨ ∃ value, first = .ok value ∧ next value = .error failure := by
  cases first with
  | error other =>
      refine ⟨fun h => .inl (congrArg Except.error (Except.error.inj h)), ?_⟩
      rintro (h | ⟨_, h, _⟩)
      · exact congrArg Except.error (Except.error.inj h)
      · cases h
  | ok value =>
      refine ⟨fun h => .inr ⟨value, rfl, h⟩, ?_⟩
      rintro (h | ⟨_, hvalue, h⟩)
      · cases h
      · cases hvalue
        exact h

variable {f : α → Except ε β} {items : List α}

/-- A traversal in which every step succeeds collects the results. -/
theorem mapM_eq_ok {g : α → β} (hsteps : ∀ a ∈ items, f a = .ok (g a)) :
    items.mapM f = .ok (items.map g) := by
  induction items with
  | nil => rfl
  | cons a rest ih =>
      rw [List.mapM_cons, hsteps a List.mem_cons_self,
        ih fun b hmem => hsteps b (List.mem_cons_of_mem _ hmem)]
      rfl

/-- A traversal returns the results of its steps. -/
theorem mapM_eq_ok_iff {results : List β} :
    items.mapM f = .ok results ↔ List.Forall₂ (fun a b => f a = .ok b) items results := by
  induction items generalizing results with
  | nil =>
      rw [List.forall₂_nil_left_iff, eq_comm]
      exact ⟨fun h => Except.ok.inj h, fun h => congrArg Except.ok h⟩
  | cons a rest ih =>
      rw [List.mapM_cons, List.forall₂_cons_left_iff]
      cases hstep : f a with
      | error failure => exact ⟨fun h => (nomatch h), fun ⟨_, _, h, _⟩ => (nomatch h)⟩
      | ok first =>
          cases hrest : rest.mapM f with
          | error failure =>
              refine ⟨fun h => (nomatch h), fun ⟨_, others, _, hothers, _⟩ => ?_⟩
              cases hrest.symm.trans (ih.mpr hothers)
          | ok others =>
              constructor
              · intro h
                exact ⟨first, others, rfl, ih.mp hrest, (Except.ok.inj h).symm⟩
              · rintro ⟨_, others', hfirst, hothers, rfl⟩
                cases hfirst
                cases hrest.symm.trans (ih.mpr hothers)
                rfl

/-- Every step of a traversal that returns succeeds. -/
theorem ok_of_mapM {results : List β} (hrun : items.mapM f = .ok results) {a : α}
    (hmem : a ∈ items) : ∃ b, f a = .ok b := by
  have hsteps := mapM_eq_ok_iff.mp hrun
  clear hrun
  induction hsteps with
  | nil => cases hmem
  | cons hstep _ ih =>
      rcases List.mem_cons.mp hmem with rfl | hmem
      · exact ⟨_, hstep⟩
      · exact ih hmem

/-- A traversal fails with the first step that fails. -/
theorem mapM_eq_error_iff {failure : ε} :
    items.mapM f = .error failure ↔ ∃ front a back, items = front ++ a :: back ∧
      f a = .error failure ∧ ∀ b ∈ front, ∃ result, f b = .ok result := by
  induction items with
  | nil =>
      refine ⟨fun h => (nomatch h), fun ⟨front, a, back, h, _⟩ => ?_⟩
      simp at h
  | cons first rest ih =>
      rw [List.mapM_cons, bind_eq_error]
      constructor
      · rintro (h | ⟨value, hvalue, h⟩)
        · exact ⟨[], first, rest, rfl, h, fun _ hmem => (List.not_mem_nil hmem).elim⟩
        · rcases bind_eq_error.mp h with h | ⟨_, _, h⟩
          · obtain ⟨front, a, back, rfl, hfails, hfront⟩ := ih.mp h
            refine ⟨first :: front, a, back, rfl, hfails, fun b hmem => ?_⟩
            rcases List.mem_cons.mp hmem with rfl | hmem
            · exact ⟨value, hvalue⟩
            · exact hfront b hmem
          · cases h
      · rintro ⟨front, a, back, hitems, hfails, hfront⟩
        cases front with
        | nil =>
            obtain ⟨rfl, rfl⟩ := List.cons.inj hitems
            exact .inl hfails
        | cons other front =>
            obtain ⟨rfl, rfl⟩ := List.cons.inj hitems
            obtain ⟨value, hvalue⟩ := hfront first List.mem_cons_self
            refine .inr ⟨value, hvalue, bind_eq_error.mpr (.inl (ih.mpr ?_))⟩
            exact ⟨front, a, back, rfl, hfails, fun b hmem => hfront b (List.mem_cons_of_mem _ hmem)⟩

/-- A traversal whose steps all fail alike, if they do, fails so when one does. -/
theorem mapM_eq_error_of_mem {failure : ε} {a : α} (hmem : a ∈ items)
    (hfails : f a = .error failure)
    (honly : ∀ b ∈ items, ∀ other, f b = .error other → other = failure) :
    items.mapM f = .error failure := by
  cases hrun : items.mapM f with
  | error other =>
      obtain ⟨front, b, back, rfl, hother, -⟩ := mapM_eq_error_iff.mp hrun
      rw [honly b (by simp) other hother]
  | ok results =>
      obtain ⟨b, hresult⟩ := ok_of_mapM hrun hmem
      cases hfails.symm.trans hresult

/-- A traversal that fails on a part fails alike on what begins with it. -/
theorem mapM_append_eq_error {back : List α} {failure : ε} (hrun : items.mapM f = .error failure) :
    (items ++ back).mapM f = .error failure := by
  obtain ⟨front, a, rest, rfl, hfails, hfront⟩ := mapM_eq_error_iff.mp hrun
  exact mapM_eq_error_iff.mpr ⟨front, a, rest ++ back, by simp, hfails, hfront⟩

/-- What each step keeps of its item is kept by the traversal. -/
theorem map_eq_of_mapM {γ : Type*} {key : α → γ} {key' : β → γ} {results : List β}
    (hrun : items.mapM f = .ok results)
    (hkeeps : ∀ a ∈ items, ∀ b, f a = .ok b → key' b = key a) :
    results.map key' = items.map key := by
  have hsteps := mapM_eq_ok_iff.mp hrun
  clear hrun
  induction hsteps with
  | nil => rfl
  | cons hstep _ ih =>
      rw [List.map_cons, List.map_cons, hkeeps _ List.mem_cons_self _ hstep,
        ih fun a hmem => hkeeps a (List.mem_cons_of_mem _ hmem)]

end Traverse
