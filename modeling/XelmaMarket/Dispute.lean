import XelmaMarket.Archive
import XelmaMarket.BookPlan
import XelmaMarket.Script
import XelmaMarket.Timing

/-!
# The dispute window

A settlement behind a dispute window is the settlement it would have been without one: whatever
happens until the round is finalized leaves its book and its staged record alone, so finalizing it
credits, collects and records what settling it at once would have.
-/

namespace XelmaMarket

variable {A : Type}

/-- The same storage with another dispute window. -/
def Storage.withWindow (s : Storage A) (disputeLedgers : ℕ) : Storage A :=
  { s with control := { s.control with
      settings := { s.control.settings with disputeLedgers := some disputeLedgers } } }

/-- The same chain with another dispute window. -/
def Chain.withWindow (chain : Chain A) (disputeLedgers : ℕ) : Chain A :=
  { chain with storage := chain.storage.withWindow disputeLedgers }

/-- Two settlements of a round give the same: to every user the same credit, the same to the
treasury and to the insurance fund, and every participant the same outcome. -/
structure SameSettlement (roundId : ℕ) (participants : List A)
    (before after before' after' : Storage A) : Prop where
  credits : ∀ user, after.vault.pendingOf user - before.vault.pendingOf user =
    after'.vault.pendingOf user - before'.vault.pendingOf user
  treasury : after.vault.treasury - before.vault.treasury =
    after'.vault.treasury - before'.vault.treasury
  insuranceFund : after.vault.insuranceFund - before.vault.insuranceFund =
    after'.vault.insuranceFund - before'.vault.insuranceFund
  outcomes : ∀ user ∈ participants, after.userRoundOutcome.get (roundId, user) =
    after'.userRoundOutcome.get (roundId, user)

/-- A staged round is as it was: its participants, its stakes and its record with the pools. -/
structure Frozen (roundId : ℕ) (pending : PendingDisputeSettlement) (rounds rounds' : Rounds A) :
    Prop where
  book : SameBook rounds rounds' roundId
  record : rounds'.pendingDisputes.get roundId = some pending

section LinearAddress

variable [LinearOrder A] {host : Host A} {chain chain' staged : Chain A} {action : Action A}
  {trace : List (Transition (Chain A) (Action A))} {roundId : ℕ}
  {pending : PendingDisputeSettlement}

omit [LinearOrder A] in
/-- The dispute window is no part of what keeps a chain healthy. -/
theorem Chain.Healthy.withWindow (hhealthy : chain.Healthy) (disputeLedgers : ℕ) :
    (chain.withWindow disputeLedgers).Healthy := by
  have h : chain.storage.Healthy chain.ledger.sequence := hhealthy
  exact ⟨h.ordered, ⟨h.recorded.known, h.recorded.unrecorded, h.recorded.closed⟩, h.paced,
    h.solvent, h.fee_capped, h.numbered, h.bounded⟩

/-! ## While the round is staged -/

/-- A step leaves a staged round as it is, or ends it. -/
theorem Step.frozen_or_over (hstep : Step host chain action chain') (hhealthy : chain.Healthy)
    (hpending : chain.storage.rounds.pendingDisputes.get roundId = some pending) :
    Frozen roundId pending chain.storage.rounds chain'.storage.rounds ∨
      chain'.storage.rounds.Over roundId := by
  obtain ⟨signers, call, rfl⟩ | ⟨-, meter, hsame⟩ := hstep.invokes_or_idles
  · have hordered := Storage.Healthy.ordered hhealthy
    by_cases hends : ∃ ending, call.ending chain.storage = some ending ∧
        ending.round.roundId = roundId
    · obtain ⟨ending, hending, rfl⟩ := hends
      exact .inr (Chain.Healthy.ends_over hhealthy hstep hending).2
    · left
      have hinactive : ∀ active, chain.storage.rounds.activeRound = some active →
          active.roundId ≠ roundId := by
        rintro active hactive rfl
        have hnone := hordered.active_not_staged active hactive
        rw [hpending] at hnone
        cases hnone
      obtain ⟨hbook, hstaged, -⟩ := (hhealthy.effect hstep).frame hordered
        (hordered.staged_known _ _ hpending) hinactive fun ending hending hid =>
          hends ⟨ending, hending, hid⟩
      exact ⟨hbook, hstaged.trans hpending⟩
  · left
    rw [hsame]
    exact ⟨.refl _ _, hpending⟩

/-- A run leaves a staged round as it is, unless it ends it. -/
theorem frozen_or_over_of_run (hhealthy : staged.Healthy)
    (hpending : staged.storage.rounds.pendingDisputes.get roundId = some pending)
    (hrun : Run (Step host) staged trace chain) :
    Frozen roundId pending staged.storage.rounds chain.storage.rounds ∨
      chain.storage.rounds.Over roundId := by
  refine (hrun.invariant (fun chain => chain.Healthy ∧
    (Frozen roundId pending staged.storage.rounds chain.storage.rounds ∨
      chain.storage.rounds.Over roundId)) ⟨hhealthy, .inl ⟨.refl _ _, hpending⟩⟩ ?_).2
  rintro transition _ hstep ⟨hbefore, hfrozen | hover⟩
  · refine ⟨hstep.healthy hbefore, ?_⟩
    rcases hstep.frozen_or_over hbefore hfrozen.record with hstays | hover
    · exact .inl ⟨hfrozen.book.trans hstays.book, hstays.record⟩
    · exact .inr hover
  · exact ⟨hstep.healthy hbefore, .inr (Chain.Healthy.over_of_step hbefore hstep hover)⟩

/-- Up to a chain where it is still staged, a staged round was never touched. -/
theorem frozen_throughout (hhealthy : staged.Healthy)
    (hpending : staged.storage.rounds.pendingDisputes.get roundId = some pending)
    (hrun : Run (Step host) staged trace chain) {still : PendingDisputeSettlement}
    (hstill : chain.storage.rounds.pendingDisputes.get roundId = some still) :
    Frozen roundId pending staged.storage.rounds chain.storage.rounds ∧
      ∀ transition ∈ trace,
        Frozen roundId pending staged.storage.rounds transition.before.storage.rounds ∧
        Frozen roundId pending staged.storage.rounds transition.after.storage.rounds := by
  have hlive : ¬ chain.storage.rounds.Over roundId :=
    fun hover => hover.not_live _ (.inr ⟨still, hstill, rfl⟩)
  -- a round that was over in between would still be over
  have hbetween : ∀ {earlier later : List (Transition (Chain A) (Action A))} {middle : Chain A},
      Run (Step host) staged earlier middle → Run (Step host) middle later chain →
      Frozen roundId pending staged.storage.rounds middle.storage.rounds := by
    intro earlier later middle hearlier hlater
    refine (frozen_or_over_of_run hhealthy hpending hearlier).resolve_right fun hover => hlive ?_
    exact (Chain.Healthy.over_of_run (healthy_of_run hearlier hhealthy) hlater hover).2
  refine ⟨hbetween hrun (.nil chain), fun transition hmem => ?_⟩
  obtain ⟨earlier, later, rfl, hearlier, hstep, hlater⟩ := hrun.around hmem
  have hone : Run (Step host) transition.before [transition] transition.after :=
    .snoc (.nil _) hstep
  exact ⟨hbetween hearlier (hone.append hlater), hbetween (hearlier.append hone) hlater⟩

/-! ## The two settlements -/

/-- Two settlements of a round at one price, on one book and under the same terms, give the same. -/
theorem Ends.sameSettlement {ledger ledger' finalPrice : ℕ} {ending ending' : Ending}
    {round : Round} {s t s' t' : Storage A} (hends : Ends ledger ending s t)
    (hends' : Ends ledger' ending' s' t') (hround : ending.round = round)
    (hround' : ending'.round = round) (hprice : ending.kind.price = some finalPrice)
    (hprice' : ending'.kind.price = some finalPrice)
    (hterms : s.control.settings.terms = s'.control.settings.terms)
    (hsame : SameBook s'.rounds s.rounds round.roundId) (hbook : Represents s'.rounds round)
    (hcap : FeeCapped s'.control.settings.protocolFeeBps)
    (hnew : ∀ user ∈ s.rounds.participants round.roundId,
      s.userRoundOutcome.get (round.roundId, user) = none)
    (hnew' : ∀ user ∈ s'.rounds.participants round.roundId,
      s'.userRoundOutcome.get (round.roundId, user) = none) :
    SameSettlement round.roundId (s'.rounds.participants round.roundId) s t s' t' := by
  obtain rfl := hround
  have hcap₁ : FeeCapped s.control.settings.protocolFeeBps := by
    rw [show s.control.settings.protocolFeeBps = s'.control.settings.protocolFeeBps from
      congrArg Terms.protocolFeeBps hterms]
    exact hcap
  have hbook₁ : Represents s.rounds ending.round := hsame.represents hbook
  have hbook' : Represents s'.rounds ending'.round := hround' ▸ hbook
  have hsplit : s.control.settings.insuranceSplitBps = s'.control.settings.insuranceSplitBps :=
    congrArg Terms.insuranceSplitBps hterms
  have hplan : ending.plan s.control.settings.terms s.rounds =
      ending'.plan s'.control.settings.terms s'.rounds := by
    rw [Ending.plan_of_price hprice, Ending.plan_of_price hprice', hround', hterms]
    exact (SameStakes.of_sameBook hsame).plan (hsame.participants ▸ .refl _) _ _
  have hkind : ∀ {ending : Ending}, ending.kind.price = some finalPrice →
      ∀ reason, ending.kind ≠ .cancelled reason := by
    intro ending hprice reason hkind
    rw [hkind] at hprice
    cases hprice
  refine ⟨fun user => ?_, ?_, ?_, fun user huser => ?_⟩
  · by_cases huser : user ∈ s'.rounds.participants ending.round.roundId
    · obtain ⟨record, hrecord, rfl⟩ := List.mem_map.mp
        ((mem_records_iff hbook' hcap user).mpr (hround'.symm ▸ huser))
      rw [hends'.pendingOf_of_mem hbook' hcap hrecord,
        hends.pendingOf_of_mem hbook₁ hcap₁ (hplan ▸ hrecord),
        coverageOf_eq_zero (hkind hprice), coverageOf_eq_zero (hkind hprice')]
      omega
    · have hout : user ∉ s.rounds.participants ending.round.roundId := by
        rwa [hsame.participants]
      have hout' : user ∉ s'.rounds.participants ending'.round.roundId := by
        rwa [hround']
      have hnone := (hends.pending_of_not_mem hbook₁ hcap₁ hout).1
      have hnone' := (hends'.pending_of_not_mem hbook' hcap hout').1
      simp [Vault.pendingOf, Store.getD, hnone, hnone']
  · rw [hends.treasury hbook₁ hcap₁, hends'.treasury hbook' hcap, hplan, hsplit]
    omega
  · rw [hends.insuranceFund hbook₁ hcap₁, hends'.insuranceFund hbook' hcap, hplan, hsplit,
      coveragePaid_of_price hprice, coveragePaid_of_price hprice']
    omega
  · obtain ⟨record, hrecord, rfl⟩ := List.mem_map.mp
      ((mem_records_iff hbook' hcap user).mpr (hround'.symm ▸ huser))
    have hstored := hends.outcome_of_mem hbook₁ hcap₁ hnew (hplan ▸ hrecord)
    have hstored' := hends'.outcome_of_mem hbook' hcap (hround'.symm ▸ hnew') hrecord
    rw [hround'] at hstored'
    rw [hstored, hstored']

variable {now before after : Chain A} {signers finalizers : List A} {call : Call A}
  {finalPrice window : ℕ} {round : Round}

/-- A settlement that stages the round does so at its price, and would end it there without a
window. -/
theorem Chain.Healthy.staging (hhealthy : chain.Healthy)
    (hactive : chain.storage.rounds.activeRound = some round)
    (hprice : call.price = some finalPrice)
    (hstaged : Step host (chain.withWindow window) (.invoke signers call) staged)
    (hpending : staged.storage.rounds.pendingDisputes.get round.roundId = some pending) :
    pending.round = round ∧ pending.finalPrice = finalPrice ∧
      SameBook chain.storage.rounds staged.storage.rounds round.roundId ∧
      (chain.storage.withWindow 0).resolution finalPrice = some ⟨round, .resolved finalPrice⟩ := by
  have hwindowed := hhealthy.withWindow window
  obtain ⟨settled, -, hsettled⟩ := hwindowed.settled hstaged hprice
  obtain rfl := Option.some.inj (hactive.symm.trans hsettled.active)
  -- had the settlement ended the round, it would not be staged
  have hwaits : (chain.withWindow window).storage.resolution finalPrice = none := by
    cases hresolution : (chain.withWindow window).storage.resolution finalPrice with
    | none => rfl
    | some ending =>
        have hending : call.ending (chain.withWindow window).storage = some ending :=
          (Call.ending_of_price hprice).trans hresolution
        have hid : ending.round = round := by
          cases Call.endsBy hending with
          | resolved _ _ _ _ hround | fallbackRefund _ _ _ _ hround =>
              exact Option.some.inj (hround.symm.trans hactive)
          | cancelled | voided | finalized => cases hprice
        have hover := (hwindowed.ends_over hstaged hending).2
        exact absurd (.inr ⟨pending, hid ▸ hpending, rfl⟩) (hover.not_live pending.round)
  obtain ⟨record, hfinalPrice, hround, -, -, hrounds, -⟩ := hsettled.staged hwaits
  have hrecord : staged.storage.rounds.pendingDisputes.get round.roundId = some record := by
    rw [hrounds, ← hround]
    exact Store.get_set_self _ _ _
  obtain rfl := Option.some.inj (hrecord.symm.trans hpending)
  refine ⟨hround, hfinalPrice, ?_, ?_⟩
  · rw [hrounds]
    exact ⟨rfl, fun _ => rfl, fun _ => rfl, fun _ => rfl⟩
  · have henough : ¬ chain.storage.control.settings.belowMinimum
        (chain.storage.rounds.participants round.roundId).length = true := by
      intro hbelow
      have hrefunds : (chain.withWindow window).storage.resolution finalPrice =
          some ⟨round, .fallbackRefund⟩ := by
        have hactive' : (chain.withWindow window).storage.rounds.activeRound = some round := hactive
        simp only [Storage.resolution, hactive']
        exact if_pos hbelow
      rw [hrefunds] at hwaits
      cases hwaits
    have hactive' : (chain.storage.withWindow 0).rounds.activeRound = some round := hactive
    simp only [Storage.resolution, hactive']
    exact (if_neg henough).trans (if_neg (Nat.lt_irrefl 0))

/-- Staging a settlement and finalizing it refines settling at once: the same price on the same book
and under the same terms gives the same credits, fee and outcomes, whatever happens in between. -/
theorem dispute_refines_immediate (hreachable : Reachable host chain)
    (hactive : chain.storage.rounds.activeRound = some round)
    (hprice : call.price = some finalPrice)
    (hnow : Step host (chain.withWindow 0) (.invoke signers call) now)
    (hstaged : Step host (chain.withWindow window) (.invoke signers call) staged)
    (hpending : staged.storage.rounds.pendingDisputes.get round.roundId = some pending)
    (hrun : Run (Step host) staged trace before)
    (hterms : before.storage.control.settings.terms = chain.storage.control.settings.terms)
    (hfinal : Step host before (.invoke finalizers (.finalizeRound round.roundId)) after) :
    SameSettlement round.roundId (chain.storage.rounds.participants round.roundId)
        before.storage after.storage chain.storage now.storage ∧
      (pending.round = round ∧ ∀ transition ∈ trace,
        Frozen round.roundId pending chain.storage.rounds transition.before.storage.rounds ∧
        Frozen round.roundId pending chain.storage.rounds transition.after.storage.rounds) ∧
      ∀ trace' middle next others, Run (Step host) staged trace' middle →
        (Step host middle (.invoke others (.voidRound round.roundId)) next →
          middle.ledger.sequence < pending.deadlineLedger) ∧
        (Step host middle (.invoke others (.finalizeRound round.roundId)) next →
          pending.deadlineLedger ≤ middle.ledger.sequence) := by
  have hhealthy := hreachable.healthy
  have hhealthy' : staged.Healthy := hstaged.healthy (hhealthy.withWindow window)
  obtain ⟨hround, hfinalPrice, hstage, hresolution⟩ :=
    hhealthy.staging hactive hprice hstaged hpending
  obtain ⟨still, hstill, hdeadline, hends⟩ := (healthy_of_run hrun hhealthy').finalized hfinal
  obtain ⟨hfrozen, hbetween⟩ := frozen_throughout hhealthy' hpending hrun hstill
  obtain rfl := Option.some.inj (hstill.symm.trans hfrozen.record)
  have hfrom : ∀ {rounds}, Frozen round.roundId still staged.storage.rounds rounds →
      Frozen round.roundId still chain.storage.rounds rounds :=
    fun hkept => ⟨hstage.trans hkept.book, hkept.record⟩
  refine ⟨?_, ⟨hround, fun transition hmem => ?_⟩, fun trace' middle next others hmiddle => ?_⟩
  · obtain ⟨settled, -, hsettled⟩ := (hhealthy.withWindow 0).settled hnow hprice
    have hlive : chain.storage.rounds.IsLive round.roundId round := .inl ⟨hactive, rfl⟩
    have hends' : Ends chain.ledger.sequence ⟨round, .resolved finalPrice⟩
        (chain.storage.withWindow 0) now.storage := hsettled.ends _ hresolution
    have hsame := hends.sameSettlement hends' hround rfl
      (by rw [hfinalPrice]; rfl) rfl hterms (hfrom hfrozen).book
      ((hhealthy.ordered.live _ _ hlive).2) hhealthy.fee_capped
      ((healthy_of_run hrun hhealthy').recorded.unrecorded _ _
        (.inr ⟨still, hstill, rfl⟩)) (hhealthy.recorded.unrecorded _ _ hlive)
    exact ⟨hsame.credits, hsame.treasury, hsame.insuranceFund, hsame.outcomes⟩
  · obtain ⟨hbefore, hafter⟩ := hbetween transition hmem
    exact ⟨hfrom hbefore, hfrom hafter⟩
  · have hmiddleHealthy := healthy_of_run hmiddle hhealthy'
    constructor
    · intro hvoid
      obtain ⟨found, hfound, hbefore, -⟩ := hmiddleHealthy.voided hvoid
      have hkept := (frozen_throughout hhealthy' hpending hmiddle hfound).1
      exact Option.some.inj (hfound.symm.trans hkept.record) ▸ hbefore
    · intro hfinalize
      obtain ⟨found, hfound, hpast, -⟩ := hmiddleHealthy.finalized hfinalize
      have hkept := (frozen_throughout hhealthy' hpending hmiddle hfound).1
      exact Option.some.inj (hfound.symm.trans hkept.record) ▸ hpast

end LinearAddress

/-! ## A trial run -/

/-- Round 1 is bet on, and its run is over. -/
def settleableRound : List (Action ℕ) := trialSetup ++ [
  .invoke [1] (.createRound 100 (some 0)),
  .invoke [3] (.placeBet 3 70 .up),
  .invoke [4] (.placeBet 4 30 .down),
  .closeLedger (ledgerAt 20),
  .invoke [2] (.control (.updateOracleHeartbeat 0))]

/-- While round 1 is staged, round 2 is opened and bet on. -/
def duringDispute : List (Action ℕ) := [
  .invoke [1] (.createRound 100 (some 0)),
  .invoke [3] (.placeBet 3 50 .up),
  .closeLedger (ledgerAt 40)]

/-- The staged trial round is finalized as it would have been settled, beside the next round. -/
theorem staged_trial_round_settles : ∃ chain now before after : Chain ℕ,
    Reachable trialHost chain ∧ before.storage.rounds.activeRound ≠ none ∧
    SameSettlement 1 (chain.storage.rounds.participants 1) before.storage after.storage
      chain.storage now.storage := by
  have htrial : (((Chain.genesis (ledgerAt 1)).performAll trialHost settleableRound).any
      fun chain => decide (chain.storage.rounds.activeRound.map Round.roundId = some 1) &&
        ((chain.withWindow 0).perform trialHost
            (.invoke [2] (.resolveRound (trialPayload 1 101 100)))).isSome &&
        (((chain.withWindow 10).perform trialHost
            (.invoke [2] (.resolveRound (trialPayload 1 101 100)))).any fun staged =>
          (staged.storage.rounds.pendingDisputes.get 1).isSome &&
          ((staged.performAll trialHost duringDispute).any fun before =>
            decide (before.storage.control.settings.terms =
              chain.storage.control.settings.terms) &&
            before.storage.rounds.activeRound.isSome &&
            (before.perform trialHost (.invoke [9] (.finalizeRound 1))).isSome))) = true := by
    decide +kernel
  obtain ⟨chain, hchain, hfits⟩ := (Option.any_eq_true _ _).mp htrial
  simp only [Bool.and_eq_true, decide_eq_true_eq] at hfits
  obtain ⟨⟨hactive, hnow⟩, hstaged⟩ := hfits
  obtain ⟨round, hround, hid⟩ := Option.map_eq_some_iff.mp hactive
  obtain ⟨now, hnow⟩ := Option.isSome_iff_exists.mp hnow
  obtain ⟨staged, hstaged, hlater⟩ := (Option.any_eq_true _ _).mp hstaged
  obtain ⟨hpending, hlater⟩ := Bool.and_eq_true_iff.mp hlater
  obtain ⟨pending, hpending⟩ := Option.isSome_iff_exists.mp hpending
  obtain ⟨before, hbefore, hfits⟩ := (Option.any_eq_true _ _).mp hlater
  simp only [Bool.and_eq_true, decide_eq_true_eq] at hfits
  obtain ⟨⟨hterms, hnext⟩, hfinal⟩ := hfits
  obtain ⟨after, hafter⟩ := Option.isSome_iff_exists.mp hfinal
  obtain ⟨trace, hrun, -⟩ := run_of_performAll hbefore
  have hreachable := reachable_of_performAll hchain
  rw [← hid] at hpending hafter
  have hsame := dispute_refines_immediate hreachable hround rfl (perform_eq_some_iff.mp hnow)
    (perform_eq_some_iff.mp hstaged) hpending hrun hterms (perform_eq_some_iff.mp hafter)
  exact ⟨chain, now, before, after, hreachable, Option.isSome_iff_ne_none.mp hnext,
    hid ▸ hsame.1⟩

end XelmaMarket
