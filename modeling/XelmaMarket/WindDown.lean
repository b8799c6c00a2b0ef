import XelmaMarket.BatchClaims
import XelmaMarket.Recovery
import XelmaMarket.Refunds

/-!
# Winding the market down

From every chain such a history leads to the market can be closed at once: the administrator cancels
the active round, the staged rounds are voided or finalized, and the users claim. Nothing is live or
pending afterwards, and everybody has in the balance at least what was theirs before, the stakes of
the rounds that were not decided yet included.
-/

namespace XelmaMarket

open Transaction

variable {A : Type} [LinearOrder A]

/-! ## What is owed to a user -/

/-- What a user gets back of a staged round before its deadline: the stake. -/
def Rounds.refundOf (rounds : Rounds A) (ledger : ℕ) (user : A) (_ : ℕ)
    (pending : PendingDisputeSettlement) : ℤ :=
  if ledger < pending.deadlineLedger then
    rounds.stakeOf pending.round.mode pending.round.roundId user
  else 0

/-- What a user has and can get back: the balance, the pending winnings, the stake in the active
round and the stakes in the staged rounds before their deadlines. -/
noncomputable def Chain.owed (chain : Chain A) (user : A) : ℤ :=
  chain.storage.vault.balanceOf user + chain.storage.vault.pendingOf user +
    chain.storage.rounds.activeRound.elim 0
      (fun round => chain.storage.rounds.stakeOf round.mode round.roundId user) +
    chain.storage.rounds.pendingDisputes.total
      (chain.storage.rounds.refundOf chain.ledger.sequence user)

section Owed

variable {env : Env A} {s s' : Storage A} {ending : Ending} {ledger : ℕ} {call : Call A}
  {rounds : Rounds A} {round : Round} {user : A}

omit [LinearOrder A] in
/-- Who takes no part in a round has no stake in it. -/
theorem Represents.stakeOf_absent (hbook : Represents rounds round)
    (habsent : user ∉ rounds.participants round.roundId) :
    rounds.stakeOf round.mode round.roundId user = 0 := by
  cases hmode : round.mode with
  | upDown =>
      cases hposition : rounds.position.get (round.roundId, user) with
      | none => simp [Rounds.stakeOf, hposition]
      | some position =>
          exact absurd (((hbook.upDown hmode).position_iff user).mp ⟨position, hposition⟩) habsent
  | precision =>
      have hstaked := (hbook.precision hmode).staked_iff user
      cases hprediction : rounds.precisionPosition.get (round.roundId, user) with
      | some prediction => exact absurd (hstaked.mp (.inl ⟨prediction, hprediction⟩)) habsent
      | none =>
          cases hcommitment : rounds.precisionCommitment.get (round.roundId, user) with
          | some commitment => exact absurd (hstaked.mp (.inr ⟨commitment, hcommitment⟩)) habsent
          | none => simp [Rounds.stakeOf, precisionStake, hprediction, hcommitment]

/-- A refund gives everybody the stake at least. -/
theorem Ends.stake_refunded (hends : Ends ledger ending s s')
    (hbook : Represents s.rounds ending.round)
    (hcap : FeeCapped s.control.settings.protocolFeeBps) (hrefunds : ending.Refunds s.rounds)
    (user : A) : s.vault.pendingOf user +
      s.rounds.stakeOf ending.round.mode ending.round.roundId user ≤ s'.vault.pendingOf user := by
  by_cases huser : user ∈ s.rounds.participants ending.round.roundId
  · have hrefunded := (hends.refundsExactly hbook hcap hrefunds).refunded user huser
    have hcoverage := coverageOf_nonneg hbook huser
    omega
  · rw [hbook.stakeOf_absent huser, add_zero]
    exact hends.pendingOf_le hbook hcap user

/-- An ending takes its own round out of the staged ones, and leaves what the others owe. -/
theorem Ends.refundTotal (hordered : s.rounds.Ordered) (hending : call.ending s = some ending)
    (hends : Ends ledger ending s s') (sequence : ℕ) (user : A) :
    s'.rounds.pendingDisputes.total (s'.rounds.refundOf sequence user) =
      s.rounds.pendingDisputes.total (s.rounds.refundOf sequence user) -
        s.rounds.pendingDisputes.weight (s.rounds.refundOf sequence user)
          ending.round.roundId := by
  obtain ⟨-, hunstaged⟩ := (Call.endsBy hending).gone hordered
  rw [sub_eq_add_neg, hends.rounds]
  refine Store.total_add_one ending.round.roundId _ ?_ fun roundId hother => ?_
  · rw [Store.weight_of_none _ hunstaged]
    omega
  · have hbook : SameBook s.rounds (ending.roundsAfter s.rounds) roundId :=
      roundsAfter_other ending hother
    unfold Store.weight
    rw [roundsAfter_staged s.rounds hother]
    cases hpending : s.rounds.pendingDisputes.get roundId with
    | none => rfl
    | some pending =>
        have hid := (hordered.staged_represented hpending).1
        simp only [Option.elim_some, Rounds.refundOf, hid, hbook.stakeOf]

omit [LinearOrder A] in
/-- What the fund and the stakes cover is part of the value. -/
theorem Storage.Healthy.pending_le_value (hhealthy : s.Healthy ledger) (user : A) :
    s.vault.pendingOf user + s.vault.insuranceFund + s.rounds.escrow ≤ s.value := by
  have hbalance : 0 ≤ s.vault.balance.total fun _ amount => amount :=
    Store.total_nonneg _ fun user amount hget => hhealthy.solvent.balance user amount hget
  have hpending := Store.sum_weight_le_total (s := s.vault.pendingWinnings)
    (fun _ amount => amount) (fun user amount hget => hhealthy.solvent.pending user amount hget) {user}
  rw [Finset.sum_singleton, Store.weight_eq_getD] at hpending
  have htreasury := hhealthy.solvent.treasury
  unfold Storage.value Vault.worth Vault.pendingTotal Vault.pendingOf
  omega

/-- What an ending credits comes from the stakes and the fund. -/
theorem creditsAt_le (hhealthy : s.Healthy ledger) (hending : call.ending s = some ending) :
    ((s.creditsAt ending).map (·.2)).sum ≤ s.vault.insuranceFund + s.rounds.escrow ∧
      ∀ credit ∈ s.creditsAt ending, 0 ≤ credit.2 := by
  have hlive := (Call.endsBy hending).live hhealthy.ordered
  have hbook := (hhealthy.ordered.live _ _ hlive).2
  have hsound := @Ending.plan_sound _ _ _ s.control.settings.terms _ hbook hhealthy.fee_capped
  have hcredits := hsound.credits_le
  have hgiven := (@coverageGiven_bounds _ s ending hbook).1
  have hpaid := coveragePaid_le hhealthy.solvent.fund ending
  have hstakes := hhealthy.ordered.totalStake_le_escrow hbook
  constructor
  · rw [Storage.creditsAt, List.map_append, List.sum_append]
    unfold Storage.coverageGiven at hgiven
    omega
  · intro credit hmem
    rcases List.mem_append.mp hmem with hmem | hmem
    · exact creditsOf_nonneg hsound credit hmem
    · exact (coverageCredits_pos credit hmem).le

/-- A cap no lower than the value is never in the way. -/
theorem withinCap_of_value (hhealthy : s.Healthy ledger) (hending : call.ending s = some ending)
    (hcap : ∀ cap, s.control.settings.maxPendingWinnings = some cap → s.value ≤ cap) :
    s.WithinCap (s.creditsAt ending) := by
  obtain ⟨hsum, hnonneg⟩ := creditsAt_le hhealthy hending
  intro cap hset user _
  have hcredited := creditTo_le_sum hnonneg user
  have hvalue := hhealthy.pending_le_value user
  have hbound := hcap cap hset
  omega

end Owed

/-! ## Unwinding -/

/-- The calls that close the market: the administrator cancels, anyone voids or finalizes a staged
round, and a user claims. -/
inductive Unwinding (admin : A) : Action A → Prop where
  | cancel : Unwinding admin (.invoke [admin] (.cancelRound 0))
  | void (roundId : ℕ) : Unwinding admin (.invoke [] (.voidRound roundId))
  | finalize (roundId : ℕ) : Unwinding admin (.invoke [] (.finalizeRound roundId))
  | claim (user : A) : Unwinding admin (.invoke [user] (.claimWinnings user))

/-- A run that closes the market keeps the ledger and the administration, and takes nothing from
what anybody is owed. -/
structure Unwinds (host : Host A) (admin : A) (start : Chain A)
    (later : List (Transition (Chain A) (Action A))) (chain : Chain A) : Prop where
  run : Run (Step host) start later chain
  actions : ∀ transition ∈ later, Unwinding admin transition.label
  ledger : chain.ledger = start.ledger
  control : chain.storage.control = start.storage.control
  owed : ∀ user, start.owed user ≤ chain.owed user

section Unwinds

variable {host : Host A} {admin : A} {start chain chain' : Chain A} {action : Action A}
  {trace later : List (Transition (Chain A) (Action A))}

theorem Unwinds.refl (host : Host A) (admin : A) (chain : Chain A) :
    Unwinds host admin chain [] chain :=
  ⟨.nil chain, by simp, rfl, rfl, fun _ => le_rfl⟩

/-- What closes the market keeps the ledger and the administration. -/
theorem Unwinding.kept (hunwinding : Unwinding admin action)
    (hstep : Step host chain action chain') :
    chain'.ledger = chain.ledger ∧ chain'.storage.control = chain.storage.control := by
  cases hunwinding with
  | cancel => exact ⟨hstep.ledger_eq, hstep.ensured (ensures_same_control (cancelRound 0))⟩
  | void roundId => exact ⟨hstep.ledger_eq, hstep.ensured (ensures_same_control (voidRound roundId))⟩
  | finalize roundId =>
      exact ⟨hstep.ledger_eq, hstep.ensured (ensures_same_control (finalizeRound roundId))⟩
  | claim user =>
      exact ⟨hstep.ledger_eq,
        hstep.ensured (ensures_same_control (discardResult (claimWinnings user)))⟩

/-- One more call that takes nothing from anybody. -/
theorem Unwinds.snoc (hunwinds : Unwinds host admin start later chain)
    (hunwinding : Unwinding admin action) (hstep : Step host chain action chain')
    (howed : ∀ user, chain.owed user ≤ chain'.owed user) :
    Unwinds host admin start (later ++ [⟨chain, action, chain'⟩]) chain' := by
  obtain ⟨hledger, hcontrol⟩ := hunwinding.kept hstep
  refine ⟨hunwinds.run.snoc hstep, fun transition hmem => ?_, hledger.trans hunwinds.ledger,
    hcontrol.trans hunwinds.control, fun user => (hunwinds.owed user).trans (howed user)⟩
  rcases List.mem_append.mp hmem with hmem | hmem
  · exact hunwinds.actions transition hmem
  · obtain rfl := List.mem_singleton.mp hmem
    exact hunwinding

/-- One closing run after another. -/
theorem Unwinds.trans {middle finish : Chain A}
    {first second : List (Transition (Chain A) (Action A))}
    (hfirst : Unwinds host admin start first middle)
    (hsecond : Unwinds host admin middle second finish) :
    Unwinds host admin start (first ++ second) finish := by
  refine ⟨hfirst.run.append hsecond.run, fun transition hmem => ?_,
    hsecond.ledger.trans hfirst.ledger, hsecond.control.trans hfirst.control,
    fun user => (hfirst.owed user).trans (hsecond.owed user)⟩
  rcases List.mem_append.mp hmem with hmem | hmem
  · exact hfirst.actions transition hmem
  · exact hsecond.actions transition hmem

omit [LinearOrder A] in
/-- What closes the market mints nothing and writes no address under the treasury key. -/
theorem Unwinding.plain {transition : Transition (Chain A) (Action A)}
    (hunwinding : Unwinding admin transition.label) :
    ¬ SetsTreasury transition ∧ minted transition = 0 := by
  obtain ⟨before, label, after⟩ := transition
  refine ⟨?_, ?_⟩
  · rintro ⟨signers, call, hlabel, executor, proposalId, _, _, rfl, -⟩
    obtain rfl : label = _ := hlabel
    cases hunwinding
  · cases hunwinding <;> rfl

/-- The market can be closed: no address was written under the treasury key, no more than 63 bits
were minted, the contract is not fully paused, and a cap on pending winnings is no lower than what
was minted. -/
structure Closable (host : Host A) (admin : A) (trace : List (Transition (Chain A) (Action A)))
    (chain : Chain A) : Prop where
  history : History host trace chain
  readable : ∀ transition ∈ trace, ¬ SetsTreasury transition
  small : totalMinted trace ≤ 2 ^ 63 - 1
  admin : chain.governance.admin = some admin
  running : chain.settings.currentMode ≠ .fullyPaused
  uncapped : ∀ cap, chain.settings.maxPendingWinnings = some cap → totalMinted trace ≤ cap

/-- While it is being closed the market can still be closed. -/
theorem Closable.after (hclosable : Closable host admin trace start)
    (hunwinds : Unwinds host admin start later chain) :
    Closable host admin (trace ++ later) chain := by
  have hquiet : (later.map minted).sum = 0 :=
    List.sum_eq_zero fun amount hamount => by
      obtain ⟨transition, hmem, rfl⟩ := List.mem_map.mp hamount
      exact (hunwinds.actions transition hmem).plain.2
  have hminted : totalMinted (trace ++ later) = totalMinted trace := by
    rw [totalMinted, List.map_append, List.sum_append, hquiet, add_zero]
    rfl
  have hadmin := hclosable.admin
  have hrunning := hclosable.running
  have huncapped := hclosable.uncapped
  unfold Chain.governance at hadmin
  unfold Chain.settings at hrunning huncapped
  rw [← hunwinds.control] at hadmin hrunning huncapped
  refine ⟨hclosable.history.append hunwinds.run, fun transition hmem => ?_,
    hminted ▸ hclosable.small, hadmin, hrunning, hminted ▸ huncapped⟩
  rcases List.mem_append.mp hmem with hmem | hmem
  · exact hclosable.readable transition hmem
  · exact (hunwinds.actions transition hmem).plain.1

/-- Nothing that ends a round is kept back by the cap. -/
theorem Closable.withinCap (hclosable : Closable host admin trace chain) {call : Call A}
    {ending : Ending} (hending : call.ending chain.storage = some ending) :
    chain.storage.WithinCap (chain.storage.creditsAt ending) :=
  withinCap_of_value hclosable.history.healthy hending fun cap hcap =>
    (hclosable.history.value_le hclosable.readable).trans (hclosable.uncapped cap hcap)

/-- A call that ends a round and gives everybody what the round owes them takes nothing away. -/
theorem Step.owed_le {signers : List A} {call : Call A} {ending : Ending}
    (hstep : Step host chain (.invoke signers call) chain') (hhealthy : chain.Healthy)
    (hending : call.ending chain.storage = some ending) {user : A}
    (hactive : chain'.storage.rounds.activeRound = none)
    (hpaid : chain.storage.vault.pendingOf user +
      chain.storage.rounds.activeRound.elim 0
        (fun round => chain.storage.rounds.stakeOf round.mode round.roundId user) +
      chain.storage.rounds.pendingDisputes.weight
        (chain.storage.rounds.refundOf chain.ledger.sequence user) ending.round.roundId ≤
          chain'.storage.vault.pendingOf user) :
    chain.owed user ≤ chain'.owed user := by
  have hstored : chain.storage.Healthy chain.ledger.sequence := hhealthy
  have hends := Chain.Healthy.ends hhealthy hstep hending
  have hstaged := hends.refundTotal hstored.ordered hending chain.ledger.sequence user
  have hbalance : chain'.storage.vault.balanceOf user = chain.storage.vault.balanceOf user := by
    simp [Vault.balanceOf, hends.balance]
  unfold Chain.owed
  rw [hstep.ledger_eq, hstaged, hbalance, hactive, Option.elim_none]
  omega

/-- The administrator cancels the active round. -/
theorem Closable.exists_idle (hclosable : Closable host admin trace chain) :
    ∃ later chain', Unwinds host admin chain later chain' ∧
      chain'.storage.rounds.activeRound = none := by
  cases hactive : chain.storage.rounds.activeRound with
  | none => exact ⟨[], chain, .refl host admin chain, hactive⟩
  | some round =>
      have hhealthy : chain.storage.Healthy chain.ledger.sequence := hclosable.history.healthy
      have hbook := hhealthy.ordered.active_represented hactive
      have hrecovers : Recovers host chain [admin] (.cancelRound 0) ⟨round, .cancelled 0⟩ :=
        hclosable.history.recovers_cancel hclosable.readable hclosable.small hactive
          hclosable.admin (List.mem_singleton_self admin)
      obtain ⟨chain', hstep⟩ := hrecovers.succeeds (hclosable.withinCap hrecovers.ends)
      have hends := Chain.Healthy.ends hhealthy hstep hrecovers.ends
      have hidle : chain'.storage.rounds.activeRound = none := by rw [hends.rounds]; rfl
      refine ⟨_, chain', (Unwinds.refl host admin chain).snoc .cancel hstep fun user => ?_, hidle⟩
      have hrefunded := hends.stake_refunded hbook hhealthy.fee_capped (.cancelled 0 rfl) user
      refine hstep.owed_le hhealthy hrecovers.ends hidle ?_
      rw [hactive, Option.elim_some,
        Store.weight_of_none _ (hhealthy.ordered.active_not_staged round hactive), add_zero]
      exact hrefunded

/-- Anyone voids or finalizes a staged round, and one round fewer is staged. -/
theorem Closable.exists_fewer (hclosable : Closable host admin trace chain)
    (hidle : chain.storage.rounds.activeRound = none) {roundId : ℕ}
    {pending : PendingDisputeSettlement}
    (hpending : chain.storage.rounds.pendingDisputes.get roundId = some pending) :
    ∃ later chain', Unwinds host admin chain later chain' ∧
      chain'.storage.rounds.activeRound = none ∧
      chain'.storage.rounds.pendingDisputes =
        chain.storage.rounds.pendingDisputes.remove roundId := by
  have hhealthy : chain.storage.Healthy chain.ledger.sequence := hclosable.history.healthy
  obtain ⟨hid, hbook⟩ := hhealthy.ordered.staged_represented hpending
  have hweight : ∀ user, chain.storage.rounds.pendingDisputes.weight
      (chain.storage.rounds.refundOf chain.ledger.sequence user) pending.round.roundId =
        chain.storage.rounds.refundOf chain.ledger.sequence user roundId pending := by
    intro user
    rw [hid, Store.weight_of_get _ hpending]
  by_cases hopen : chain.ledger.sequence < pending.deadlineLedger
  · have hrecovers : Recovers host chain [] (.voidRound roundId) ⟨pending.round, .voided⟩ :=
      hclosable.history.recovers_void hclosable.readable hclosable.small hpending
        hclosable.running hopen
    obtain ⟨chain', hstep⟩ := hrecovers.succeeds (hclosable.withinCap hrecovers.ends)
    have hends := Chain.Healthy.ends hhealthy hstep hrecovers.ends
    have hafter : chain'.storage.rounds.activeRound = none := by rw [hends.rounds]; exact hidle
    refine ⟨_, chain', (Unwinds.refl host admin chain).snoc (.void roundId) hstep fun user => ?_,
      hafter, by rw [hends.rounds, ← hid]; rfl⟩
    have hrefunded := hends.stake_refunded hbook hhealthy.fee_capped (.voided rfl) user
    refine hstep.owed_le hhealthy hrecovers.ends hafter ?_
    rw [hweight, hidle, Option.elim_none, Rounds.refundOf, if_pos hopen, add_zero]
    exact hrefunded
  · have hrecovers : Recovers host chain [] (.finalizeRound roundId)
        ⟨pending.round, .finalized pending.finalPrice⟩ :=
      hclosable.history.recovers_finalize hclosable.readable hclosable.small hpending
        hclosable.running (not_lt.mp hopen)
    obtain ⟨chain', hstep⟩ := hrecovers.succeeds (hclosable.withinCap hrecovers.ends)
    have hends := Chain.Healthy.ends hhealthy hstep hrecovers.ends
    have hafter : chain'.storage.rounds.activeRound = none := by rw [hends.rounds]; rfl
    refine ⟨_, chain', (Unwinds.refl host admin chain).snoc (.finalize roundId) hstep
      fun user => ?_, hafter, by rw [hends.rounds, ← hid]; rfl⟩
    have hraised := hends.pendingOf_le hbook hhealthy.fee_capped user
    refine hstep.owed_le hhealthy hrecovers.ends hafter ?_
    rw [hweight, hidle, Option.elim_none, Rounds.refundOf, if_neg hopen]
    omega

/-- The staged rounds are ended one after the other. -/
theorem Closable.exists_unstaged (hclosable : Closable host admin trace chain)
    (hidle : chain.storage.rounds.activeRound = none) (count : ℕ)
    (hcount : chain.storage.rounds.pendingDisputes.total (fun _ _ => 1) ≤ count) :
    ∃ later chain', Unwinds host admin chain later chain' ∧
      ∀ roundId round, ¬ chain'.storage.rounds.IsLive roundId round := by
  induction count generalizing trace chain with
  | zero =>
      refine ⟨[], chain, .refl host admin chain, fun roundId round hlive => ?_⟩
      rcases hlive with ⟨hactive, -⟩ | ⟨pending, hpending, -⟩
      · rw [hidle] at hactive
        cases hactive
      · have hstaged := Rounds.one_le_staged hpending
        exact absurd (hstaged.trans hcount) (by decide)
  | succ count ih =>
      by_cases hstaged : ∃ roundId pending,
          chain.storage.rounds.pendingDisputes.get roundId = some pending
      · obtain ⟨roundId, pending, hpending⟩ := hstaged
        obtain ⟨later, next, hunwinds, hidle', hrest⟩ := hclosable.exists_fewer hidle hpending
        have hcount' : next.storage.rounds.pendingDisputes.total (fun _ _ => 1) ≤ count := by
          rw [hrest, Store.total_remove, Store.weight_of_get _ hpending]
          push_cast at hcount
          omega
        obtain ⟨later', finish, hunwinds', hnone⟩ := ih (hclosable.after hunwinds) hidle' hcount'
        exact ⟨later ++ later', finish, hunwinds.trans hunwinds', hnone⟩
      · refine ⟨[], chain, .refl host admin chain, fun roundId round hlive => ?_⟩
        rcases hlive with ⟨hactive, -⟩ | ⟨pending, hpending, -⟩
        · rw [hidle] at hactive
          cases hactive
        · exact hstaged ⟨roundId, pending, hpending⟩

/-- A user claims everything pending. -/
theorem Closable.exists_claim (hclosable : Closable host admin trace chain) (user : A) :
    ∃ later chain', Unwinds host admin chain later chain' ∧
      chain'.storage.rounds = chain.storage.rounds ∧
      chain'.storage.vault = chain.storage.vault.claim user := by
  have hhealthy := hclosable.history.healthy
  have hrange := hclosable.history.inRange hclosable.readable hclosable.small
  have hclaims : Returns (Call.claimWinnings user).exec ⟨host, chain.ledger, [user]⟩ chain.storage
      fun _ s' => s' = { chain.storage with vault := chain.storage.vault.claim user } := by
    simp only [Call.exec, discardResult, returns_bind, claimWinnings_returns, returns_pure,
      and_true]
    refine ⟨⟨hclosable.history.timelockKept.schema, hclosable.running⟩,
      List.mem_singleton_self user, hrange.healthy.withinSupply.claimable user⟩
  obtain ⟨_, storage, hrun, rfl⟩ := hclaims
  refine ⟨_, _, (Unwinds.refl host admin chain).snoc (.claim user)
    (.invoke chain [user] _ _ hrun) fun other => ?_, rfl, rfl⟩
  have hsum := @claim_sum _ other _ chain.storage.vault user
  simp only [Chain.owed]
  omega

/-- The users of a list claim one after the other. -/
theorem Closable.exists_claimed (hclosable : Closable host admin trace chain) (users : List A) :
    ∃ later chain', Unwinds host admin chain later chain' ∧
      chain'.storage.rounds = chain.storage.rounds ∧
      chain'.storage.vault = users.foldl Vault.claim chain.storage.vault := by
  induction users generalizing trace chain with
  | nil => exact ⟨[], chain, .refl host admin chain, rfl, rfl⟩
  | cons user rest ih =>
      obtain ⟨later, next, hunwinds, hrounds, hvault⟩ := hclosable.exists_claim user
      obtain ⟨later', finish, hunwinds', hrounds', hvault'⟩ := ih (hclosable.after hunwinds)
      refine ⟨later ++ later', finish, hunwinds.trans hunwinds', hrounds'.trans hrounds, ?_⟩
      rw [hvault', hvault]
      rfl

/-- A market that can be closed is closed by a run of cancellations, voids, finalizations and claims
within one ledger: no round is live and nothing is pending afterwards, and every balance is at least
what its user was owed. -/
theorem market_winds_down (hclosable : Closable host admin trace chain) :
    ∃ later chain', Run (Step host) chain later chain' ∧ chain'.ledger = chain.ledger ∧
      (∀ transition ∈ later, Unwinding admin transition.label) ∧
      (∀ roundId round, ¬ chain'.storage.rounds.IsLive roundId round) ∧
      ∀ user, chain'.storage.vault.pendingOf user = 0 ∧
        chain.owed user ≤ chain'.storage.vault.balanceOf user := by
  obtain ⟨first, idle, hfirst, hidle⟩ := hclosable.exists_idle
  have hstaged : 0 ≤ idle.storage.rounds.pendingDisputes.total fun _ _ => 1 :=
    idle.storage.rounds.staged_nonneg
  obtain ⟨second, empty, hsecond, hnone⟩ := (hclosable.after hfirst).exists_unstaged hidle
    (idle.storage.rounds.pendingDisputes.total fun _ _ => 1).toNat (by omega)
  have hunwinds := hfirst.trans hsecond
  have hfinite := empty.storage.vault.pendingWinnings.finite
  obtain ⟨third, finish, hthird, hrounds, hvault⟩ := (hclosable.after hunwinds).exists_claimed
    hfinite.toFinset.toList
  have hlive : ∀ roundId round, ¬ finish.storage.rounds.IsLive roundId round := by
    rw [hrounds]
    exact hnone
  have hcleared : ∀ user, finish.storage.vault.pendingOf user = 0 := by
    intro user
    by_cases hentry : empty.storage.vault.pendingWinnings.get user = none
    · have hzero : empty.storage.vault.pendingOf user = 0 := by
        simp [Vault.pendingOf, Store.getD, hentry]
      rw [hvault]
      rcases claimAll_pendingOf empty.storage.vault hfinite.toFinset.toList user with hsame | hgone
      · rw [hsame, hzero]
      · exact hgone
    · rw [hvault]
      exact claimAll_cleared _ (by simpa using hentry)
  have hall := hunwinds.trans hthird
  refine ⟨_, finish, hall.run, hall.ledger, hall.actions, hlive, fun user => ⟨hcleared user, ?_⟩⟩
  have hactive : finish.storage.rounds.activeRound = none := by
    cases hround : finish.storage.rounds.activeRound with
    | none => rfl
    | some round => exact absurd (.inl ⟨hround, rfl⟩) (hlive round.roundId round)
  have hrest : finish.storage.rounds.pendingDisputes.total
      (finish.storage.rounds.refundOf finish.ledger.sequence user) = 0 := by
    refine finsum_eq_zero_of_forall_eq_zero fun roundId => Store.weight_of_none _ ?_
    cases hpending : finish.storage.rounds.pendingDisputes.get roundId with
    | none => rfl
    | some pending => exact absurd (.inr ⟨pending, hpending, rfl⟩) (hlive roundId pending.round)
  have howed := hall.owed user
  have hpending := hcleared user
  rw [show finish.owed user = finish.storage.vault.balanceOf user + 0 + 0 + 0 by
    rw [Chain.owed, hpending, hactive, hrest, Option.elim_none]] at howed
  omega

end Unwinds

/-- The market with round 1 staged and round 2 active is closed by administrator 1 and its users. -/
theorem overlapping_rounds_wind_down : ∃ later, ∃ chain chain' : Chain ℕ,
    Reachable trialHost chain ∧ chain.storage.rounds.activeRound ≠ none ∧
    chain.storage.rounds.pendingDisputes.get 1 ≠ none ∧
    Run (Step trialHost) chain later chain' ∧
    (∀ transition ∈ later, Unwinding 1 transition.label) ∧
    (∀ roundId round, ¬ chain'.storage.rounds.IsLive roundId round) ∧
    ∀ user, chain.owed user ≤ chain'.storage.vault.balanceOf user := by
  obtain ⟨trace, chain, hhistory, hsets, hminted, hfits⟩ := exists_small_history overlappingRounds
    (fun chain => decide (chain.storage.rounds.activeRound ≠ none ∧
      chain.storage.rounds.pendingDisputes.get 1 ≠ none ∧
      chain.governance.admin = some 1 ∧ chain.settings.currentMode ≠ .fullyPaused ∧
      chain.settings.maxPendingWinnings = none))
    (by simp [overlappingRounds, trialSetup]) (by decide) (by decide +kernel)
  obtain ⟨hactive, hstaged, hadmin, hmode, hcap⟩ := of_decide_eq_true hfits
  have huncapped : ∀ cap, chain.settings.maxPendingWinnings = some cap →
      totalMinted trace ≤ cap := fun cap hset => by simp [hcap] at hset
  obtain ⟨later, chain', hrun, -, hactions, hlive, hall⟩ := market_winds_down
    ⟨hhistory, hsets, hminted, hadmin, hmode, huncapped⟩
  exact ⟨later, chain, chain', ⟨trace, hhistory⟩, hactive, hstaged, hrun, hactions, hlive,
    fun user => (hall user).2⟩

end XelmaMarket
