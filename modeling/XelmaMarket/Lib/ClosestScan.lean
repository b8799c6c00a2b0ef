import Mathlib.Data.List.Induction
import Mathlib.Data.List.ReduceOption
import Mathlib.Order.Nat

/-!
# One-pass search for the closest candidates

A single pass over slots, each with a candidate or without one, that keeps the least distance seen,
the candidates at that distance and a mask over the slots. A closer candidate starts the winners
over and clears the mask. At the end the winners are exactly the candidates that no other candidate
beats, in order, and the mask marks exactly their slots.
-/

/-- What the pass keeps. -/
@[ext] structure ClosestScan (β : Type*) where
  least : Option ℕ
  winners : List β
  mask : List Bool

namespace ClosestScan

variable {β : Type*}

/-- The pass before the first slot. -/
def start : ClosestScan β :=
  ⟨none, [], []⟩

/-- Take one candidate into the pass. -/
def observe (distance : β → ℕ) (scan : ClosestScan β) (candidate : β) : ClosestScan β :=
  match scan.least with
  | none => ⟨some (distance candidate), scan.winners ++ [candidate], scan.mask ++ [true]⟩
  | some least =>
      if distance candidate < least then
        ⟨some (distance candidate), [candidate], scan.mask.map (fun _ => false) ++ [true]⟩
      else if distance candidate = least then
        ⟨some least, scan.winners ++ [candidate], scan.mask ++ [true]⟩
      else
        ⟨some least, scan.winners, scan.mask ++ [false]⟩

/-- Take one slot into the pass. -/
def step (distance : β → ℕ) (scan : ClosestScan β) : Option β → ClosestScan β
  | none => { scan with mask := scan.mask ++ [false] }
  | some candidate => scan.observe distance candidate

/-- The whole pass. -/
def run (distance : β → ℕ) (slots : List (Option β)) : ClosestScan β :=
  slots.foldl (step distance) start

@[simp] theorem run_nil (distance : β → ℕ) : run distance [] = start := rfl

theorem run_concat (distance : β → ℕ) (slots : List (Option β)) (slot : Option β) :
    run distance (slots ++ [slot]) = (run distance slots).step distance slot := by
  simp [run]

/-- No candidate of the slots is closer than this one. -/
def IsClosest (distance : β → ℕ) (slots : List (Option β)) (candidate : β) : Prop :=
  ∀ other, some other ∈ slots → distance candidate ≤ distance other

/-- What the pass has established after some slots: the least distance is attained and a lower
bound, and the winners and the mask are those at the least distance. -/
structure Sound (distance : β → ℕ) (slots : List (Option β)) (scan : ClosestScan β) : Prop where
  least_none : scan.least = none → ∀ slot ∈ slots, slot = none
  attained : ∀ least, scan.least = some least →
    ∃ candidate, some candidate ∈ slots ∧ distance candidate = least
  lower : ∀ least, scan.least = some least →
    ∀ candidate, some candidate ∈ slots → least ≤ distance candidate
  winners_eq : scan.winners =
    slots.reduceOption.filter fun candidate => some (distance candidate) = scan.least
  mask_eq : scan.mask =
    slots.map fun slot => slot.any fun candidate => some (distance candidate) = scan.least

theorem sound_start (distance : β → ℕ) : Sound distance [] start where
  least_none := by simp
  attained := by simp [start]
  lower := by simp [start]
  winners_eq := rfl
  mask_eq := rfl

/-- An empty slot keeps the pass sound. -/
theorem Sound.skip {distance : β → ℕ} {slots : List (Option β)} {scan : ClosestScan β}
    (hsound : Sound distance slots scan) :
    Sound distance (slots ++ [none]) (scan.step distance none) where
  least_none := fun hleast slot hslot => by
    rcases List.mem_append.mp hslot with hslot | hslot
    · exact hsound.least_none hleast slot hslot
    · exact List.mem_singleton.mp hslot
  attained := fun least hleast => by
    obtain ⟨candidate, hmem, hdistance⟩ := hsound.attained least hleast
    exact ⟨candidate, List.mem_append_left _ hmem, hdistance⟩
  lower := fun least hleast candidate hmem => by
    simp only [List.mem_append, List.mem_singleton, reduceCtorEq, or_false] at hmem
    exact hsound.lower least hleast candidate hmem
  winners_eq := by simp [step, List.reduceOption_append, hsound.winners_eq]
  mask_eq := by simp [step, hsound.mask_eq]

/-- The first candidate is the closest so far. -/
theorem Sound.first {distance : β → ℕ} {slots : List (Option β)} {scan : ClosestScan β}
    (hsound : Sound distance slots scan) (hleast : scan.least = none) (candidate : β) :
    Sound distance (slots ++ [some candidate]) (scan.step distance (some candidate)) := by
  have hnone : ∀ slot ∈ slots, slot = none := hsound.least_none hleast
  have hreduce : slots.reduceOption = [] := by
    simp only [List.reduceOption, List.filterMap_eq_nil_iff]
    intro slot hslot
    simp [hnone slot hslot]
  have hwinners : scan.winners = [] := by simp [hsound.winners_eq, hreduce]
  have hmask : scan.mask = slots.map fun slot =>
      slot.any fun other => some (distance other) = some (distance candidate) := by
    rw [hsound.mask_eq]
    refine List.map_congr_left fun slot hslot => ?_
    simp [hnone slot hslot]
  constructor
  · simp [step, observe, hleast]
  · intro least hstep
    simp only [step, observe, hleast, Option.some.injEq] at hstep
    exact ⟨candidate, by simp, hstep⟩
  · intro least hstep other hother
    simp only [step, observe, hleast, Option.some.injEq] at hstep
    rcases List.mem_append.mp hother with hother | hother
    · exact absurd (hnone _ hother) (by simp)
    · simp only [List.mem_singleton, Option.some.injEq] at hother
      exact hother ▸ hstep.symm.le
  · simp [step, observe, hleast, hwinners, hreduce, List.reduceOption_append]
  · simp [step, observe, hleast, hmask]

/-- A strictly closer candidate starts the winners over and clears the mask. -/
theorem Sound.closer {distance : β → ℕ} {slots : List (Option β)} {scan : ClosestScan β}
    (hsound : Sound distance slots scan) {least : ℕ} (hleast : scan.least = some least)
    {candidate : β} (hcloser : distance candidate < least) :
    Sound distance (slots ++ [some candidate]) (scan.step distance (some candidate)) := by
  have hother : ∀ other, some other ∈ slots → distance other ≠ distance candidate := by
    intro other hmem heq
    have := hsound.lower least hleast other hmem
    omega
  constructor
  · simp [step, observe, hleast, hcloser]
  · intro least' hstep
    simp only [step, observe, hleast, hcloser, if_true, Option.some.injEq] at hstep
    exact ⟨candidate, by simp, hstep⟩
  · intro least' hstep other hmem
    simp only [step, observe, hleast, hcloser, if_true, Option.some.injEq] at hstep
    rcases List.mem_append.mp hmem with hmem | hmem
    · have := hsound.lower least hleast other hmem
      omega
    · simp only [List.mem_singleton, Option.some.injEq] at hmem
      exact hmem ▸ hstep.symm.le
  · have hfilter : slots.reduceOption.filter
        (fun other => some (distance other) = some (distance candidate)) = [] := by
      simp only [List.filter_eq_nil_iff, decide_eq_true_eq, Option.some.injEq]
      intro other hmem
      exact hother other (List.reduceOption_mem_iff.mp hmem)
    simp [step, observe, hleast, hcloser, List.reduceOption_append, List.filter_append]
    simpa using hfilter
  · have hmap : slots.map (fun slot : Option β =>
        slot.any fun other => some (distance other) = some (distance candidate)) =
        scan.mask.map fun _ => false := by
      rw [hsound.mask_eq, List.map_map]
      refine List.map_congr_left fun slot hslot => ?_
      cases slot with
      | none => rfl
      | some other => simp [hother other hslot]
    simp [step, observe, hleast, hcloser] at hmap ⊢
    exact hmap.symm

/-- A candidate at the least distance joins the winners; a farther one does not. -/
theorem Sound.notCloser {distance : β → ℕ} {slots : List (Option β)} {scan : ClosestScan β}
    (hsound : Sound distance slots scan) {least : ℕ} (hleast : scan.least = some least)
    {candidate : β} (hcloser : ¬ distance candidate < least) :
    Sound distance (slots ++ [some candidate]) (scan.step distance (some candidate)) := by
  have hstep : (scan.step distance (some candidate)).least = some least := by
    by_cases heq : distance candidate = least <;> simp [step, observe, hleast, hcloser, heq]
  constructor
  · simp [hstep]
  · intro least' hleast'
    obtain ⟨other, hmem, hdistance⟩ := hsound.attained least hleast
    rw [hstep, Option.some.injEq] at hleast'
    exact ⟨other, List.mem_append_left _ hmem, hdistance.trans hleast'⟩
  · intro least' hleast' other hmem
    rw [hstep, Option.some.injEq] at hleast'
    rcases List.mem_append.mp hmem with hmem | hmem
    · exact hleast' ▸ hsound.lower least hleast other hmem
    · simp only [List.mem_singleton, Option.some.injEq] at hmem
      rw [hmem]
      omega
  · rw [hstep]
    by_cases heq : distance candidate = least
    · simp [step, observe, hleast, heq, List.reduceOption_append, List.filter_append,
        hsound.winners_eq]
    · simp [step, observe, hleast, hcloser, heq, List.reduceOption_append, List.filter_append,
        hsound.winners_eq]
  · rw [hstep]
    by_cases heq : distance candidate = least
    · simp [step, observe, hleast, heq, hsound.mask_eq]
    · simp [step, observe, hleast, hcloser, heq, hsound.mask_eq]

/-- Every slot keeps the pass sound. -/
theorem Sound.step {distance : β → ℕ} {slots : List (Option β)} {scan : ClosestScan β}
    (hsound : Sound distance slots scan) (slot : Option β) :
    Sound distance (slots ++ [slot]) (scan.step distance slot) := by
  cases slot with
  | none => exact hsound.skip
  | some candidate =>
      cases hleast : scan.least with
      | none => exact hsound.first hleast candidate
      | some least =>
          by_cases hcloser : distance candidate < least
          · exact hsound.closer hleast hcloser
          · exact hsound.notCloser hleast hcloser

theorem sound_run (distance : β → ℕ) (slots : List (Option β)) :
    Sound distance slots (run distance slots) := by
  induction slots using List.reverseRec with
  | nil => exact sound_start distance
  | append_singleton slots slot ih =>
      rw [run_concat]
      exact ih.step slot

/-- A candidate of the slots is at the least distance exactly when it is a closest one. -/
theorem at_least_iff (distance : β → ℕ) {slots : List (Option β)} {candidate : β}
    (hmem : some candidate ∈ slots) :
    some (distance candidate) = (run distance slots).least ↔
      IsClosest distance slots candidate := by
  have hsound := sound_run distance slots
  cases hleast : (run distance slots).least with
  | none => exact absurd (hsound.least_none hleast _ hmem) (by simp)
  | some least =>
      obtain ⟨best, hbest, hdistance⟩ := hsound.attained least hleast
      constructor
      · intro heq other hother
        rw [Option.some.injEq] at heq
        exact heq ▸ hsound.lower least hleast other hother
      · intro hclosest
        have hle := hclosest best hbest
        have hge := hsound.lower least hleast candidate hmem
        rw [Option.some.injEq]
        omega

variable (distance : β → ℕ) (slots : List (Option β))

instance (candidate : β) : Decidable (IsClosest distance slots candidate) :=
  decidable_of_iff (∀ slot ∈ slots, ∀ other ∈ slot, distance candidate ≤ distance other)
    ⟨fun h other hmem => h _ hmem other rfl, fun h slot hslot other hother => by
      cases Option.mem_def.mp hother
      exact h other hslot⟩

/-- The winners of the pass are the closest candidates, in order. -/
theorem winners_run : (run distance slots).winners =
    slots.reduceOption.filter fun candidate => IsClosest distance slots candidate := by
  rw [(sound_run distance slots).winners_eq]
  refine List.filter_congr fun candidate hmem => ?_
  simp only [decide_eq_decide]
  exact at_least_iff distance (List.reduceOption_mem_iff.mp hmem)

/-- The mask of the pass marks the slots of the closest candidates. -/
theorem mask_run : (run distance slots).mask =
    slots.map fun slot => slot.any fun candidate => IsClosest distance slots candidate := by
  rw [(sound_run distance slots).mask_eq]
  refine List.map_congr_left fun slot hslot => ?_
  cases slot with
  | none => rfl
  | some candidate =>
      simp only [Option.any_some, decide_eq_decide]
      exact at_least_iff distance hslot

end ClosestScan
