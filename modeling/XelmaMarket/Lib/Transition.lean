import Mathlib.Data.List.Induction
import Mathlib.Logic.Relation

/-!
# Labelled transition systems

Runs of a transition system with labelled steps. A run carries its trace, the list of the
transitions it took, so that a statement can speak about what happened on the way as well as
about the state reached.
-/

/-- One transition of a run: the state before, the label and the state after. -/
structure Transition (σ ℓ : Type*) where
  before : σ
  label : ℓ
  after : σ

/-- `Run step start trace finish`: from `start` the system takes the transitions of `trace`, in
order, and ends in `finish`. -/
inductive Run {σ ℓ : Type*} (step : σ → ℓ → σ → Prop) : σ → List (Transition σ ℓ) → σ → Prop where
  | nil (start : σ) : Run step start [] start
  | snoc {start middle finish : σ} {trace : List (Transition σ ℓ)} {label : ℓ}
      (run : Run step start trace middle) (last : step middle label finish) :
      Run step start (trace ++ [⟨middle, label, finish⟩]) finish

namespace Run

variable {σ ℓ : Type*} {step : σ → ℓ → σ → Prop}
  {start middle finish : σ} {trace earlier later : List (Transition σ ℓ)}

/-- Two runs compose when the second starts where the first ends. -/
theorem append (first : Run step start earlier middle) (second : Run step middle later finish) :
    Run step start (earlier ++ later) finish := by
  induction second with
  | nil => simpa using first
  | snoc run last ih =>
      rw [← List.append_assoc]
      exact .snoc ih last

/-- A run that took a last transition did everything before it first. -/
theorem snoc_inv {last : Transition σ ℓ} (run : Run step start (earlier ++ [last]) finish) :
    Run step start earlier last.before ∧ step last.before last.label last.after ∧
      last.after = finish := by
  generalize hall : earlier ++ [last] = all at run
  cases run with
  | nil => simp at hall
  | snoc run hlast =>
      obtain ⟨rfl, heq⟩ := List.append_inj' hall rfl
      obtain rfl := List.singleton_inj.mp heq
      exact ⟨run, hlast, rfl⟩

/-- A run can be cut at any point of its trace. -/
theorem split (run : Run step start (earlier ++ later) finish) :
    ∃ middle, Run step start earlier middle ∧ Run step middle later finish := by
  induction later using List.reverseRec generalizing finish with
  | nil => exact ⟨finish, by simpa using run, .nil finish⟩
  | append_singleton later transition ih =>
      rw [← List.append_assoc] at run
      obtain ⟨hbefore, hlast, rfl⟩ := run.snoc_inv
      obtain ⟨middle, hfirst, hsecond⟩ := ih hbefore
      exact ⟨middle, hfirst, .snoc hsecond hlast⟩

/-- The invariant rule: what holds at the start and is kept by every step of the run holds at the
end. -/
theorem invariant (inv : σ → Prop) (run : Run step start trace finish) (hstart : inv start)
    (hstep : ∀ transition ∈ trace, step transition.before transition.label transition.after →
      inv transition.before → inv transition.after) : inv finish := by
  induction run with
  | nil => exact hstart
  | snoc run last ih =>
      have hmiddle := ih fun transition hmem => hstep transition (List.mem_append_left _ hmem)
      exact hstep ⟨_, _, _⟩ (by simp) last hmiddle

/-- The invariant rule for the past: what relates the trace to the state reached, holds of the empty
trace and is kept by every step, relates the whole trace to the end. -/
theorem invariant_of_trace (inv : List (Transition σ ℓ) → σ → Prop)
    (run : Run step start trace finish) (hstart : inv [] start)
    (hstep : ∀ earlier transition, Run step start earlier transition.before →
      step transition.before transition.label transition.after → inv earlier transition.before →
      inv (earlier ++ [transition]) transition.after) : inv trace finish := by
  induction run with
  | nil => exact hstart
  | snoc run last ih => exact hstep _ ⟨_, _, _⟩ run last ih

/-- A run is cut around a transition of its trace. -/
theorem cut {transition : Transition σ ℓ}
    (run : Run step start (earlier ++ transition :: later) finish) :
    Run step start earlier transition.before ∧
      step transition.before transition.label transition.after ∧
      Run step transition.after later finish := by
  have hcut : Run step start ((earlier ++ [transition]) ++ later) finish := by simpa using run
  obtain ⟨middle, hfirst, hsecond⟩ := hcut.split
  obtain ⟨hearlier, hlast, rfl⟩ := hfirst.snoc_inv
  exact ⟨hearlier, hlast, hsecond⟩

/-- A run is cut around any transition it took. -/
theorem around (run : Run step start trace finish) {transition : Transition σ ℓ}
    (hmem : transition ∈ trace) :
    ∃ earlier later, trace = earlier ++ transition :: later ∧
      Run step start earlier transition.before ∧
      step transition.before transition.label transition.after ∧
      Run step transition.after later finish := by
  obtain ⟨earlier, later, rfl⟩ := List.append_of_mem hmem
  exact ⟨earlier, later, rfl, run.cut⟩

end Run

/-! ## Since a mark -/

section Since

variable {α : Type*} {marks quiet : α → Prop} {trace earlier between : List α} {a : α}

/-- An element of the trace is marked, and everything after it is quiet. -/
def Since (marks quiet : α → Prop) (trace : List α) : Prop :=
  ∃ earlier marked later, trace = earlier ++ marked :: later ∧ marks marked ∧ ∀ a ∈ later, quiet a

/-- The last element may be the mark. -/
theorem Since.of_mark (hmark : marks a) : Since marks quiet (trace ++ [a]) :=
  ⟨trace, a, [], rfl, hmark, by simp⟩

/-- A quiet element leaves the mark the last one. -/
theorem Since.snoc (hsince : Since marks quiet trace) (hquiet : quiet a) :
    Since marks quiet (trace ++ [a]) := by
  obtain ⟨earlier, marked, later, rfl, hmark, hlater⟩ := hsince
  refine ⟨earlier, marked, later ++ [a], by simp, hmark, fun b hmem => ?_⟩
  rcases List.mem_append.mp hmem with hmem | hmem
  · exact hlater b hmem
  · exact List.mem_singleton.mp hmem ▸ hquiet

/-- Since an element that is neither a mark nor quiet, a mark must have come after it. -/
theorem Since.mem_between (hsince : Since marks quiet (earlier ++ a :: between))
    (hunmarked : ¬ marks a) (hloud : ¬ quiet a) : ∃ marked ∈ between, marks marked := by
  obtain ⟨first, marked, later, hsplit, hmark, hlater⟩ := hsince
  have hdiffer : marked ≠ a := by
    rintro rfl
    exact hunmarked hmark
  rcases List.append_eq_append_iff.mp hsplit with ⟨middle, -, htail⟩ | ⟨middle, -, htail⟩
  · have hmem : marked ∈ a :: between := by simp [htail]
    exact ⟨marked, (List.mem_cons.mp hmem).resolve_left hdiffer, hmark⟩
  · have hmem : a ∈ marked :: later := by simp [htail]
    exact absurd (hlater a ((List.mem_cons.mp hmem).resolve_left hdiffer.symm)) hloud

end Since
