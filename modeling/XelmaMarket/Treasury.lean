import XelmaMarket.Script

/-!
# The treasury as a number

The key of the accumulated fees is written by the fee paths with amounts, and by one governance
action with an address. In a history without that action the treasury always reads as an amount,
so collecting a fee and withdrawing one never fails because of it.
-/

namespace XelmaMarket

open Transaction

variable {A : Type}

/-! ## Reading the treasury -/

/-- The key of the treasury is not set or holds an amount. -/
def Vault.TreasuryReadable (vault : Vault A) : Prop :=
  ∀ treasury, vault.protocolFeeTreasury ≠ some (.address treasury)

variable {env : Env A} {s s' : Storage A}

/-- A readable treasury reads as its amount. -/
theorem readTreasury_eq (hreadable : s.vault.TreasuryReadable) :
    readTreasury env s = .ok (s.vault.treasury, s) := by
  have hreads : ∀ entry, s.vault.protocolFeeTreasury = entry →
      readTreasury env s = .ok (s.vault.treasury, s) := by
    intro entry hentry
    have hget : (gets (·.vault.protocolFeeTreasury) : ContractM A (Option (TreasuryEntry A)))
        env s = .ok (s.vault.protocolFeeTreasury, s) := rfl
    unfold readTreasury Vault.treasury
    rw [bind_run hget, hentry]
    cases entry with
    | none => rfl
    | some entry =>
        cases entry with
        | amount value => rfl
        | address treasury => exact absurd hentry (hreadable treasury)
  exact hreads _ rfl

theorem returns_readTreasury (hreadable : s.vault.TreasuryReadable) :
    Returns readTreasury env s fun value s' => value = s.vault.treasury ∧ s' = s :=
  ⟨_, _, readTreasury_eq hreadable, rfl, rfl⟩

/-! ## Collecting and withdrawing -/

/-- The treasury, the fund and the insurance rates that a fee is collected with. -/
structure FeeReady (s : Storage A) : Prop where
  readable : s.vault.TreasuryReadable
  treasury : 0 ≤ s.vault.treasury ∧ s.vault.treasury ≤ supplyLimit
  fund : 0 ≤ s.vault.insuranceFund ∧ s.vault.insuranceFund ≤ supplyLimit
  split : s.control.settings.insuranceSplitBps ≤ maxInsuranceSplitBps

/-- The insurance part of a fee is directed to the fund. -/
theorem returns_collectInsuranceFee (hready : FeeReady s) {fee : ℤ} (hfee : 0 < fee)
    (hlimit : fee ≤ supplyLimit) :
    Returns (collectInsuranceFee fee) env s fun _ _ => True := by
  have hsplit : (s.control.settings.insuranceSplitBps : ℤ) ≤ maxInsuranceSplitBps := by
    exact_mod_cast hready.split
  have hproduct : 0 ≤ fee * (s.control.settings.insuranceSplitBps : ℤ) :=
    mul_nonneg hfee.le (by omega)
  have hrange : fee * (s.control.settings.insuranceSplitBps : ℤ) ≤ i128Max :=
    (mul_le_mul hlimit hsplit (by omega) (by decide)).trans (by decide)
  have hdiv := Int.tdiv_eq_ediv_of_nonneg (b := bpsDenominator) hproduct
  have hquotient : 0 ≤ fee * (s.control.settings.insuranceSplitBps : ℤ) / bpsDenominator :=
    Int.ediv_nonneg hproduct (by decide)
  have hless : fee * (s.control.settings.insuranceSplitBps : ℤ) / bpsDenominator ≤
      fee * s.control.settings.insuranceSplitBps := Int.ediv_le_self _ hproduct
  have hcapped := min_le_right
    ((fee * (s.control.settings.insuranceSplitBps : ℤ)).tdiv bpsDenominator) fee
  have hmin : i128Min ≤ 0 := by decide
  have hroom : 2 * supplyLimit ≤ i128Max := by decide
  have hfund := hready.fund
  simp only [collectInsuranceFee, returns_bind, returns_gets, returns_ite, returns_pure,
    returns_liftM, checked_eq_ok, divide_eq_ok, setInsuranceFund, returns_updateVault]
  refine ⟨fun _ => trivial, fun _ => ⟨_, ⟨rfl, by omega, hrange⟩, _, ⟨rfl, by decide, ?_, ?_⟩,
    fun _ => trivial, fun _ => ⟨_, ⟨rfl, ?_, ?_⟩, trivial⟩⟩⟩
  · omega
  · omega
  · omega
  · omega

/-- A fee within the limit is collected. -/
theorem returns_collectProtocolFee (hready : FeeReady s) {fee : ℤ} (hlimit : fee ≤ supplyLimit) :
    Returns (collectProtocolFee fee) env s fun _ s' =>
      s' = { s with
        vault := s.vault.collectFee s.control.settings.insuranceSplitBps fee } := by
  have hreturns : Returns (collectProtocolFee fee) env s fun _ _ => True := by
    simp only [collectProtocolFee, returns_onlyIf, returns_bind]
    refine ⟨fun hfee => ?_, fun _ => trivial⟩
    have hpos : 0 < fee := not_le.mp hfee
    refine ((returns_collectInsuranceFee hready hpos hlimit).and
      (collectInsuranceFee_spec hpos)).mono ?_
    rintro share s₁ ⟨-, rfl, rfl⟩
    have hnonneg := @insuranceShare_nonneg s.control.settings.insuranceSplitBps fee hpos.le
    have hshare := @insuranceShare_le s.control.settings.insuranceSplitBps fee
    have hroom : 2 * supplyLimit ≤ i128Max := by decide
    have hmin : i128Min ≤ 0 := by decide
    have htreasury := hready.treasury
    rw [returns_liftM]
    refine ⟨_, checked_eq_ok.mpr ⟨rfl, by omega, by omega⟩, ?_⟩
    refine Returns.mono (returns_readTreasury hready.readable) ?_
    rintro value s₂ ⟨rfl, rfl⟩
    rw [returns_liftM]
    refine ⟨_, checked_eq_ok.mpr ⟨rfl, ?_, ?_⟩, ?_⟩
    · show i128Min ≤ s.vault.treasury + _
      omega
    · show s.vault.treasury + _ ≤ i128Max
      omega
    · simp only [setTreasury, returns_updateVault]
  exact (hreturns.and (collectProtocolFee_spec fee)).mono fun _ _ h => h.2

/-- An amount the treasury covers is withdrawn. -/
theorem returns_executeWithdrawFee [DecidableEq A] (hreadable : s.vault.TreasuryReadable)
    {recipient : A} {amount : ℤ} (hamount : 0 < amount ∧ amount ≤ s.vault.treasury)
    (hbalance : 0 ≤ s.vault.balanceOf recipient)
    (hlimit : s.vault.balanceOf recipient + s.vault.treasury ≤ supplyLimit) :
    Returns (executeWithdrawFee recipient amount) env s fun value _ => value = amount := by
  have hroom : supplyLimit ≤ i128Max := by decide
  have hmin : i128Min ≤ 0 := by decide
  simp only [executeWithdrawFee, returns_bind, returns_reject]
  refine ⟨by omega, (returns_readTreasury hreadable).mono ?_⟩
  rintro value _ ⟨rfl, rfl⟩
  simp only [setTreasury, setBalance, returns_liftM, checked_eq_ok, returns_updateVault,
    returns_gets, payoutAdd_eq_ok, returns_pure]
  refine ⟨by omega, _, ⟨rfl, by omega, by omega⟩, _, ⟨rfl, ?_, ?_⟩, trivial⟩
  · show i128Min ≤ Vault.balanceOf _ recipient + amount
    exact hmin.trans (add_nonneg hbalance hamount.1.le)
  · show Vault.balanceOf _ recipient + amount ≤ i128Max
    exact (add_le_add le_rfl hamount.2).trans (hlimit.trans hroom)

/-! ## The treasury over a history -/

/-- Collecting a fee keeps the treasury readable. -/
theorem Vault.TreasuryReadable.collectFee {vault : Vault A} (hreadable : vault.TreasuryReadable)
    (splitBps : ℕ) (fee : ℤ) : (vault.collectFee splitBps fee).TreasuryReadable := by
  unfold Vault.collectFee
  split
  · exact hreadable
  · exact fun _ => nofun

/-- The treasury stays readable when its key is not written. -/
theorem Vault.TreasuryReadable.of_same {vault vault' : Vault A}
    (hreadable : vault.TreasuryReadable)
    (hsame : vault'.protocolFeeTreasury = vault.protocolFeeTreasury) :
    vault'.TreasuryReadable := by
  intro treasury
  rw [hsame]
  exact hreadable treasury

variable [LinearOrder A] {call : Call A}

omit [LinearOrder A] in
theorem claimAll_protocolFeeTreasury [DecidableEq A] (vault : Vault A) (users : List A) :
    (users.foldl Vault.claim vault).protocolFeeTreasury = vault.protocolFeeTreasury := by
  induction users generalizing vault with
  | nil => rfl
  | cons user rest ih =>
      rw [List.foldl_cons, ih]
      unfold Vault.claim
      split <;> rfl

/-- A call that executes no proposal with a treasury address keeps the treasury readable. -/
theorem Effect.readable (heffect : Effect env s call s') (hsets : ¬ call.SetsTreasury s)
    (hreadable : s.vault.TreasuryReadable) : s'.vault.TreasuryReadable := by
  cases heffect with
  | quiet _ _ hsame => exact hreadable.of_same (by rw [hsame.vault])
  | mint _ _ _ _ hvault | topUp _ _ _ _ _ _ hvault | reclaim _ _ _ _ _ _ _ _ _ _ hvault
  | openRound _ _ _ _ _ _ _ _ hvault | stake _ _ _ _ _ _ _ _ _ _ _ hvault
  | reveal _ _ _ _ _ _ _ _ _ _ hvault | stage _ _ _ _ _ _ _ _ _ hvault
  | payFund _ _ _ _ _ _ hvault =>
      exact hreadable.of_same ((congrArg Vault.protocolFeeTreasury hvault).trans rfl)
  | treasuryAddress executor treasury proposalId proposal _ hproposal haction =>
      exact absurd ⟨executor, proposalId, proposal, treasury, rfl, hproposal, haction⟩ hsets
  | payFee _ _ _ _ _ _ hvault =>
      rw [hvault]
      exact fun _ => nofun
  | claim _ users _ _ _ hvault =>
      exact hreadable.of_same (by rw [hvault, claimAll_protocolFeeTreasury])
  | cashOut _ _ _ _ _ _ _ _ _ _ _ hvault =>
      rw [hvault]
      exact Vault.TreasuryReadable.collectFee (hreadable.of_same (by simp)) _ _
  | ending _ ending _ _ hends =>
      rw [hends.vault]
      refine (hreadable.collectFee s.control.settings.insuranceSplitBps
        (ending.plan s.control.settings.terms s.rounds).fee).of_same ?_
      unfold Vault.payFromFund
      split <;> simp

/-- Every call keeps the insurance rates capped. -/
theorem ControlChange.ratesCapped (hchange : ControlChange env s call s')
    (hcapped : RatesCapped s.control.settings.insSplitBps s.control.settings.insCovBps) :
    RatesCapped s'.control.settings.insSplitBps s'.control.settings.insCovBps := by
  cases hchange with
  | administered call _ heffect =>
      generalize s'.control = control at heffect
      cases heffect with
      | switched _ mode =>
          obtain ⟨paused, -, heq⟩ := s.control.withMode_eq mode
          rw [heq]
          exact hcapped
      | configured _ payload => cases payload <;> exact hcapped
      | other _ _ _ hsame => exact hsame.rates hcapped
      | initialized | deviation | attestation | heartbeat | approver | proposed | approved
      | cancelled => exact hcapped
  | executed _ _ proposal _ hexecutes =>
      rw [hexecutes.control]
      exact hcapped.enact hexecutes.valid
  | submitted _ _ _ _ _ _ _ hcontrol =>
      rw [hcontrol]
      exact hcapped
  | kept _ _ _ hsame => exact hsame.rates hcapped

variable {host : Host A} {chain : Chain A} {trace : List (Transition (Chain A) (Action A))}

/-- The insurance rates are capped throughout every history. -/
theorem History.ratesCapped (hhistory : History host trace chain) :
    RatesCapped chain.storage.control.settings.insSplitBps
      chain.storage.control.settings.insCovBps := by
  obtain ⟨ledger, hrun⟩ := hhistory
  refine hrun.invariant (fun chain => RatesCapped chain.storage.control.settings.insSplitBps
    chain.storage.control.settings.insCovBps) ⟨Nat.zero_le _, Nat.zero_le _⟩ ?_
  intro transition _ hstep hcapped
  obtain ⟨signers, call, hlabel⟩ | ⟨-, meter, hsame⟩ := hstep.invokes_or_idles
  · exact (hlabel ▸ hstep : Step host _ (.invoke signers call) _).controlChange.ratesCapped hcapped
  · rw [hsame]
    exact hcapped

/-- A transition that executes a proposal which writes an address under the treasury key. -/
def SetsTreasury (transition : Transition (Chain A) (Action A)) : Prop :=
  ∃ signers call, transition.label = .invoke signers call ∧
    call.SetsTreasury transition.before.storage

omit [LinearOrder A] in
/-- Where no proposal is executed, no address is written under the treasury key. -/
theorem notSetsTreasury_of_labels {actions : List (Action A)}
    (hlabels : trace.map (·.label) = actions)
    (hnone : ∀ signers executor proposalId,
      Action.invoke signers (.executeGovProposal executor proposalId) ∉ actions) :
    ∀ transition ∈ trace, ¬ SetsTreasury transition := by
  rintro transition hmem ⟨signers, _, hlabel, executor, proposalId, _, _, rfl, -⟩
  refine hnone signers executor proposalId ?_
  rw [← hlabels, ← hlabel]
  exact List.mem_map_of_mem hmem

/-- The treasury stays readable in a history that never writes an address there. -/
theorem History.readable (hhistory : History host trace chain)
    (hsets : ∀ transition ∈ trace, ¬ SetsTreasury transition) :
    chain.storage.vault.TreasuryReadable := by
  have hboth : chain.Healthy ∧ chain.storage.vault.TreasuryReadable := by
    obtain ⟨ledger, hrun⟩ := hhistory
    refine hrun.invariant (fun chain => chain.Healthy ∧ chain.storage.vault.TreasuryReadable)
      ⟨healthy_empty ledger.sequence, fun _ => nofun⟩ ?_
    rintro transition hmem hstep ⟨hhealthy, hreadable⟩
    refine ⟨hstep.healthy hhealthy, ?_⟩
    obtain ⟨signers, call, hlabel⟩ | ⟨-, meter, hsame⟩ := hstep.invokes_or_idles
    · have hnot : ¬ call.SetsTreasury transition.before.storage :=
        fun h => hsets transition hmem ⟨signers, call, hlabel, h⟩
      rw [hlabel] at hstep
      exact (hhealthy.effect hstep).readable hnot hreadable
    · rw [hsame]
      exact hreadable
  exact hboth.2

/-- The fees and funds of a healthy chain with a readable treasury are ready to collect a fee. -/
theorem History.feeReady (hhistory : History host trace chain)
    (hreadable : chain.storage.vault.TreasuryReadable) : FeeReady chain.storage := by
  have hhealthy : chain.storage.Healthy chain.ledger.sequence := hhistory.healthy
  have hlimit := hhealthy.bounded.outside_le hhealthy.solvent hhealthy.paced
    chain.ledger.sequence_lt
  have hpending := hhealthy.solvent.pendingTotal_nonneg
  have hescrow := hhealthy.ordered.escrow_nonneg
  have htreasury := hhealthy.solvent.treasury
  have hfund := hhealthy.solvent.fund
  exact ⟨hreadable, ⟨htreasury, by omega⟩, ⟨hfund, by omega⟩, hhistory.ratesCapped.split⟩

/-- An executed proposal that neither withdraws a fee nor writes a treasury address takes nothing
from the treasury. -/
theorem ExecutesProposal.treasury_le {executor : A} {proposalId : ℕ}
    {proposal : GovProposal A} (hexecutes : ExecutesProposal env s executor proposalId proposal s')
    (hwithdraws : ∀ recipient amount, proposal.action ≠ .withdrawProtocolFee recipient amount)
    (hwrites : ∀ treasury, proposal.action ≠ .setTreasuryAddress treasury) :
    s.vault.treasury ≤ s'.vault.treasury := by
  have hperformed := hexecutes.performed
  cases haction : proposal.action with
  | withdrawProtocolFee recipient amount => exact absurd haction (hwithdraws recipient amount)
  | setTreasuryAddress treasury => exact absurd haction (hwrites treasury)
  | withdrawInsuranceFund recipient amount =>
      rw [haction] at hperformed
      rw [hperformed.2]
      exact le_rfl
  | pauseProtocol | unpauseProtocol | setProtocolFeeBps _ | setAdmin _ | setOracle _
  | setInsuranceSplitBps _ | setInsuranceCoverageBps _ =>
      rw [haction] at hperformed
      exact (congrArg Vault.treasury hperformed).ge

/-- In a history that executes no proposal with a treasury address, the treasury key is not set or
holds a non-negative amount. It reads as that amount, every amount it covers can be withdrawn, and
the fee of every settlement of a live round is collected; the execution of a proposal other than a
fee withdrawal takes nothing from it. -/
theorem treasury_stays_number (hhistory : History host trace chain)
    (hsets : ∀ transition ∈ trace, ¬ SetsTreasury transition) :
    (chain.storage.vault.protocolFeeTreasury = none ∨ ∃ value,
      chain.storage.vault.protocolFeeTreasury = some (.amount value) ∧
      0 ≤ value ∧ value ≤ i128Max) ∧
    (∀ env : Env A, readTreasury env chain.storage =
      .ok (chain.storage.vault.treasury, chain.storage)) ∧
    (∀ (env : Env A) recipient amount, 0 < amount → amount ≤ chain.storage.vault.treasury →
      ∃ s', executeWithdrawFee recipient amount env chain.storage = .ok (amount, s')) ∧
    (∀ (env : Env A) roundId round finalPrice, chain.storage.rounds.IsLive roundId round →
      ∃ s', collectProtocolFee (chain.storage.control.settings.terms.plan chain.storage.rounds
        round finalPrice).fee env chain.storage = .ok (⟨⟩, s')) ∧
    ∀ transition ∈ trace, ∀ signers executor id proposal,
      transition.label = .invoke signers (.executeGovProposal executor id) →
      transition.before.storage.control.governance.govProposal.get id = some proposal →
      (∀ recipient amount, proposal.action ≠ .withdrawProtocolFee recipient amount) →
      transition.before.storage.vault.treasury ≤ transition.after.storage.vault.treasury := by
  have hreadable := hhistory.readable hsets
  have hready := hhistory.feeReady hreadable
  have hhealthy : chain.storage.Healthy chain.ledger.sequence := hhistory.healthy
  have hroom : supplyLimit ≤ i128Max := by decide
  refine ⟨?_, fun env => readTreasury_eq hreadable, ?_, ?_, ?_⟩
  · cases hentry : chain.storage.vault.protocolFeeTreasury with
    | none => exact .inl rfl
    | some entry =>
        cases entry with
        | address treasury => exact absurd hentry (hreadable treasury)
        | amount value =>
            have hvalue : chain.storage.vault.treasury = value := by simp [Vault.treasury, hentry]
            obtain ⟨hnonneg, hlimit⟩ := hready.treasury
            exact .inr ⟨value, rfl, by omega, by omega⟩
  · intro env recipient amount hpos hcovered
    have hlimit := hhealthy.bounded.user_supply_le hhealthy.solvent hhealthy.paced
      chain.ledger.sequence_lt recipient
    have hwealth := @balanceOf_le_wealth _ chain.storage.vault recipient
    have hpending := hhealthy.solvent.pendingTotal_nonneg
    have hescrow := hhealthy.ordered.escrow_nonneg
    have hfund := hhealthy.solvent.fund
    obtain ⟨value, s', hrun, rfl⟩ := @returns_executeWithdrawFee _ env _ _ hreadable recipient amount
      ⟨hpos, hcovered⟩ (hhealthy.solvent.balanceOf_nonneg recipient) (by omega)
    exact ⟨s', hrun⟩
  · intro env roundId round finalPrice hlive
    obtain ⟨-, hbook⟩ := hhealthy.ordered.live roundId round hlive
    have hsound : (chain.storage.control.settings.terms.plan chain.storage.rounds round
        finalPrice).Sound chain.storage.rounds round :=
      (Terms.plan_sound hbook hhealthy.fee_capped finalPrice).1
    have hescrow := hhealthy.ordered.totalStake_le_escrow hbook
    have hlimit := hhealthy.bounded.outside_le hhealthy.solvent hhealthy.paced
      chain.ledger.sequence_lt
    have hpending := hhealthy.solvent.pendingTotal_nonneg
    have hfee := hsound.fee_le
    have htreasury := hready.treasury.1
    have hfund := hready.fund.1
    have hfits : (chain.storage.control.settings.terms.plan chain.storage.rounds round
      finalPrice).fee ≤ supplyLimit := by omega
    obtain ⟨⟨⟩, s', hrun, -⟩ := @returns_collectProtocolFee _ env _ hready _ hfits
    exact ⟨s', hrun⟩
  · intro transition hmem signers executor id proposal hlabel hstored hother
    obtain ⟨-, hstep⟩ := hhistory.of_mem hmem
    rw [hlabel] at hstep
    have hchange := hstep.controlChange
    generalize transition.after.storage = target at hchange
    cases hchange with
    | executed _ _ stored _ hexecutes =>
        obtain rfl := Option.some.inj (hstored.symm.trans hexecutes.stored)
        refine hexecutes.treasury_le hother fun treasury haction => ?_
        exact hsets transition hmem
          ⟨signers, _, hlabel, executor, id, proposal, treasury, rfl, hstored, haction⟩
    | submitted _ _ _ _ _ hbound => cases hbound
    | kept _ _ hplain => cases hplain

/-- A round with a fee is settled: its losing pool pays 5 into the treasury. -/
def feeRound : List (Action ℕ) := trialSetup ++ [
  .invoke [1] (.control (.scheduleProtocolFeeBps (some 500))),
  .closeLedger (ledgerAt 1500),
  .invoke [] (.control (.applyScheduledChanges .protocolFeeBps)),
  .invoke [1] (.createRound 100 (some 0)),
  .invoke [3] (.placeBet 3 70 .up),
  .invoke [4] (.placeBet 4 30 .down),
  .closeLedger (ledgerAt 1520),
  .invoke [2] (.control (.updateOracleHeartbeat 0)),
  .invoke [2] (.resolveRound (trialPayload 1500 101 7600))]

/-- The fee of the trial round can be withdrawn. -/
theorem treasury_of_fee_round : ∃ chain : Chain ℕ, ∃ s',
    executeWithdrawFee 9 5 ⟨trialHost, chain.ledger, []⟩ chain.storage = .ok (5, s') := by
  obtain ⟨trace, chain, hhistory, hlabels, hfits⟩ := exists_trial_history feeRound
    (fun chain => decide (chain.storage.vault.treasury = 5)) (by decide +kernel)
  have htreasury : chain.storage.vault.treasury = 5 := of_decide_eq_true hfits
  have hsets := notSetsTreasury_of_labels hlabels (by simp [feeRound, trialSetup])
  obtain ⟨-, -, hwithdraw, -⟩ := treasury_stays_number hhistory hsets
  exact ⟨chain, hwithdraw ⟨trialHost, chain.ledger, []⟩ 9 5 (by decide) htreasury.ge⟩

/-- An executed proposal writes address 9 under the treasury key. -/
theorem treasury_becomes_address : ¬ ∀ (trace : List (Transition (Chain ℕ) (Action ℕ))) chain,
    History trialHost trace chain →
      chain.storage.vault.protocolFeeTreasury = none ∨ ∃ value,
        chain.storage.vault.protocolFeeTreasury = some (.amount value) ∧ 0 ≤ value := by
  intro hclaim
  obtain ⟨trace, chain, hhistory, -, hfits⟩ := exists_trial_history
    (trialSetup ++ [
      .invoke [1] (.control (.setGovApprover 6)),
      .invoke [1] (.control (.proposeGovAction 1 (.setTreasuryAddress 9) none)),
      .invoke [6] (.control (.approveGovProposal 6 1)),
      .invoke [1] (.executeGovProposal 1 1)])
    (fun chain => decide (chain.storage.vault.protocolFeeTreasury = some (.address 9)))
    (by decide +kernel)
  have haddress := of_decide_eq_true hfits
  rcases hclaim trace chain hhistory with hnone | ⟨value, hvalue, -⟩
  · cases haddress.symm.trans hnone
  · cases haddress.symm.trans hvalue

end XelmaMarket
