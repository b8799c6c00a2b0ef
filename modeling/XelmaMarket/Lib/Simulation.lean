import XelmaMarket.Lib.Transition

/-!
# Simulation of runs

A run of one system is a run of another when each of its steps is one, seen through a view of the
states and of the transitions. Two rules for such observed runs follow: a property of the other
system carries over, and what holds now and did not at the start goes back to a marked step.
-/

variable {σ τ ℓ κ : Type*}

/-- A transition seen through a view of the states and an observation of the transition. -/
def Transition.observed (view : σ → τ) (observe : Transition σ ℓ → κ)
    (transition : Transition σ ℓ) : Transition τ κ :=
  ⟨view transition.before, observe transition, view transition.after⟩

/-- Since a mark that the elements were mapped to. -/
theorem Since.of_map {α β : Type*} {f : α → β} {marks quiet : β → Prop} {trace : List α}
    (hsince : Since marks quiet (trace.map f)) :
    Since (fun a => marks (f a)) (fun a => quiet (f a)) trace := by
  obtain ⟨earlier, marked, later, hsplit, hmark, hlater⟩ := hsince
  obtain ⟨first, rest, rfl, rfl, hrest⟩ := List.map_eq_append_iff.mp hsplit
  obtain ⟨a, last, rfl, rfl, rfl⟩ := List.map_eq_cons_iff.mp hrest
  exact ⟨first, a, last, rfl, hmark, fun b hmem => hlater (f b) (List.mem_map_of_mem hmem)⟩

namespace Run

variable {step : σ → ℓ → σ → Prop} {move : τ → κ → τ → Prop} {view : σ → τ}
  {observe : Transition σ ℓ → κ} {start finish : σ} {trace : List (Transition σ ℓ)}

/-- The simulation rule. -/
theorem simulate (run : Run step start trace finish)
    (hstep : ∀ transition ∈ trace,
      move (view transition.before) (observe transition) (view transition.after)) :
    Run move (view start) (trace.map (Transition.observed view observe)) (view finish) := by
  induction run with
  | nil => exact .nil (view _)
  | @snoc middle finish trace label run last ih =>
      rw [List.map_append]
      refine .snoc (ih fun transition hmem => hstep transition (List.mem_append_left _ hmem)) ?_
      exact hstep ⟨middle, label, finish⟩ (by simp)

/-- What holds at the end and did not at the start was brought about by a marked step, and every
step after that one was quiet. -/
theorem since {p : σ → Prop} {marks quiet : Transition σ ℓ → Prop}
    (run : Run step start trace finish) (hstart : ¬ p start) (hfinish : p finish)
    (hmarks : ∀ transition, step transition.before transition.label transition.after →
      ¬ p transition.before → p transition.after → marks transition)
    (hquiet : ∀ transition, step transition.before transition.label transition.after →
      p transition.before → p transition.after → quiet transition) :
    Since marks quiet trace := by
  induction run with
  | nil => exact absurd hfinish hstart
  | @snoc middle finish trace label run last ih =>
      by_cases hmiddle : p middle
      · exact (ih hmiddle).snoc (hquiet ⟨middle, label, finish⟩ last hmiddle hfinish)
      · exact .of_mark (hmarks ⟨middle, label, finish⟩ last hmiddle hfinish)

end Run
