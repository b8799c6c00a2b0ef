import XelmaMarket.RoundLife

/-!
# Isolation between rounds

The end of a round leaves every other live round as it was, with one exception: finalizing a
staged round drops the active round, which is another one. So an ending keeps to its own round
exactly when it is not a finalization while a round is active.
-/

namespace XelmaMarket

variable {A : Type} [LinearOrder A]

/-- What belongs to a round is as it was: the active round if it is this one, the participants and
the stakes, and the staged settlement. -/
structure Undisturbed (rounds rounds' : Rounds A) (roundId : ℕ) : Prop where
  active : ∀ round, rounds.activeRound = some round → round.roundId = roundId →
    rounds'.activeRound = some round
  book : SameBook rounds rounds' roundId
  staged : rounds'.pendingDisputes.get roundId = rounds.pendingDisputes.get roundId

/-- An ending leaves every other live round undisturbed. -/
def Ending.Isolated (ending : Ending) (rounds rounds' : Rounds A) : Prop :=
  ∀ roundId round, rounds.IsLive roundId round → roundId ≠ ending.round.roundId →
    Undisturbed rounds rounds' roundId

/-- A call that finalizes a staged round while a round is active. -/
def Call.FinalizesBesideActive (s : Storage A) (call : Call A) : Prop :=
  (∃ roundId, call = .finalizeRound roundId) ∧ ∃ round, s.rounds.activeRound = some round

variable {env : Env A} {s s' : Storage A} {call : Call A} {ending : Ending}

/-- A round that is ended while active is the active one, so no other live round is active. -/
theorem isolated_of_active {round : Round} (hactive : s.rounds.activeRound = some round)
    (hround : ending.round = round) : ending.Isolated s.rounds (ending.roundsAfter s.rounds) := by
  intro roundId live hlive hother
  refine ⟨fun active hsame hid => ?_, roundsAfter_other ending hother,
    roundsAfter_staged s.rounds hother⟩
  obtain rfl := Option.some.inj (hsame.symm.trans hactive)
  exact absurd (hround ▸ hid.symm) hother

/-- An ending keeps to its own round exactly when it does not finalize beside an active round. -/
theorem EndsBy.isolated_iff (hordered : s.rounds.Ordered) (hends : EndsBy s call ending) :
    ending.Isolated s.rounds (ending.roundsAfter s.rounds) ↔ ¬ call.FinalizesBesideActive s := by
  cases hends with
  | resolved _ round finalPrice hprice hactive =>
      refine iff_of_true (isolated_of_active hactive rfl) ?_
      rintro ⟨⟨roundId, rfl⟩, -⟩
      cases hprice
  | fallbackRefund _ round finalPrice hprice hactive =>
      refine iff_of_true (isolated_of_active hactive rfl) ?_
      rintro ⟨⟨roundId, rfl⟩, -⟩
      cases hprice
  | cancelled reason round hactive =>
      refine iff_of_true (isolated_of_active hactive rfl) ?_
      rintro ⟨⟨roundId, hcall⟩, -⟩
      cases hcall
  | voided stagedId pending hpending =>
      refine iff_of_true (fun roundId live _ hother => ?_) ?_
      · exact ⟨fun active hactive _ => hactive, roundsAfter_other _ hother,
          roundsAfter_staged s.rounds hother⟩
      · rintro ⟨⟨roundId, hcall⟩, -⟩
        cases hcall
  | finalized stagedId pending hpending =>
      obtain ⟨rfl, -⟩ := hordered.staged_represented hpending
      constructor
      · rintro hisolated ⟨-, active, hactive⟩
        -- the active round is not the staged one, and it is gone afterwards
        have hother : active.roundId ≠ pending.round.roundId := by
          intro hid
          have hnot := hordered.active_not_staged active hactive
          simp [hid, hpending] at hnot
        have hkept := (hisolated active.roundId active (.inl ⟨hactive, rfl⟩) hother).active
          active hactive rfl
        cases hkept
      · intro hnone roundId live _ hother
        refine ⟨fun active hactive _ => ?_, roundsAfter_other _ hother,
          roundsAfter_staged s.rounds hother⟩
        exact absurd ⟨⟨_, rfl⟩, active, hactive⟩ hnone

/-- In every history an ending leaves all other live rounds undisturbed, exactly when it is not a
finalization of a staged round while a round is active. -/
theorem ending_isolated_iff {host : Host A} {trace : List (Transition (Chain A) (Action A))}
    {chain : Chain A} (hhistory : History host trace chain) :
    ∀ transition ∈ trace, ∀ signers call ending, transition.label = .invoke signers call →
      call.ending transition.before.storage = some ending →
      (ending.Isolated transition.before.storage.rounds transition.after.storage.rounds ↔
        ¬ call.FinalizesBesideActive transition.before.storage) := by
  intro transition hmem signers call ending hlabel hending
  obtain ⟨hreachable, hstep⟩ := hhistory.of_mem hmem
  rw [hlabel] at hstep
  rw [(hreachable.ends hstep hending).rounds]
  exact (Call.endsBy hending).isolated_iff hreachable.healthy.ordered

/-- A void of the staged round leaves the newer round undisturbed. -/
theorem void_isolated : ∃ chain chain' : Chain ℕ, ∃ ending active,
    Step trialHost chain (.invoke [9] (.voidRound 1)) chain' ∧
      (Call.voidRound 1).ending chain.storage = some ending ∧
      chain.storage.rounds.activeRound = some active ∧ active.roundId = 2 ∧
      Undisturbed chain.storage.rounds chain'.storage.rounds 2 := by
  obtain ⟨trace, chain, chain', hhistory, hfits⟩ := exists_trial overlappingRounds
    (.invoke [9] (.voidRound 1))
    (fun chain _ => decide (
      ((Call.voidRound 1).ending chain.storage).map (·.round.roundId) = some 1 ∧
      chain.storage.rounds.activeRound.map (·.roundId) = some 2)) (by decide +kernel)
  simp only [decide_eq_true_eq, Option.map_eq_some_iff] at hfits
  obtain ⟨⟨ending, hending, hid⟩, active, hactive, hactiveId⟩ := hfits
  have hiff := ending_isolated_iff hhistory _ (List.mem_concat_self ..) _ _ ending rfl hending
  have hisolated := hiff.mpr (by rintro ⟨⟨_, hcall⟩, -⟩; cases hcall)
  exact ⟨chain, chain', ending, active, hhistory.last.2, hending, hactive, hactiveId,
    hisolated 2 active (.inl ⟨hactive, hactiveId⟩) (by omega)⟩

/-- Finalizing the staged round deactivates the newer round user 5 has already staked in. -/
theorem finalize_deactivates_newer : ∃ chain chain' : Chain ℕ, ∃ ending active,
    Reachable trialHost chain ∧ Step trialHost chain (.invoke [9] (.finalizeRound 1)) chain' ∧
      (Call.finalizeRound 1).ending chain.storage = some ending ∧
      chain.storage.rounds.activeRound = some active ∧ active.roundId = 2 ∧
      chain.storage.rounds.participants 2 = [5] ∧ chain'.storage.rounds.activeRound = none ∧
      ¬ ending.Isolated chain.storage.rounds chain'.storage.rounds := by
  obtain ⟨trace, chain, chain', hhistory, hfits⟩ := exists_trial
    (overlappingRounds ++ [.closeLedger (ledgerAt 30)]) (.invoke [9] (.finalizeRound 1))
    (fun chain chain' => decide (
      ((Call.finalizeRound 1).ending chain.storage).map (·.round.roundId) = some 1 ∧
      chain.storage.rounds.activeRound.map (·.roundId) = some 2 ∧
      chain.storage.rounds.participants 2 = [5] ∧
      chain'.storage.rounds.activeRound = none)) (by decide +kernel)
  simp only [decide_eq_true_eq, Option.map_eq_some_iff] at hfits
  obtain ⟨⟨ending, hending, hid⟩, ⟨active, hactive, hactiveId⟩, hstaked, hnone⟩ := hfits
  refine ⟨chain, chain', ending, active, hhistory.last.1, hhistory.last.2, hending, hactive,
    hactiveId, hstaked, hnone, fun hisolated => ?_⟩
  have hkept := (hisolated 2 active (.inl ⟨hactive, hactiveId⟩) (by omega)).active active hactive
    hactiveId
  rw [hnone] at hkept
  cases hkept

end XelmaMarket
