import XelmaMarket.Proposals

/-!
# Dual control

From the moment an approver is set, the runtime mode changes, and value leaves the treasury or the
fund by a withdrawal, in the execution of a proposal that two authorised addresses agreed on. The
one call that switches the mode without it is the direct setter of the mode.
-/

namespace XelmaMarket

open Transaction

variable {A : Type}

/-! ## Fees and funds -/

/-- Collecting a fee takes nothing from the treasury. -/
theorem Vault.treasury_le_collectFee (vault : Vault A) (splitBps : ℕ) (fee : ℤ) :
    vault.treasury ≤ (vault.collectFee splitBps fee).treasury := by
  by_cases hfee : fee ≤ 0
  · rw [Vault.collectFee, if_pos hfee]
  · rw [Vault.collectFee_treasury vault splitBps (not_le.mp hfee).le]
    have := @insuranceShare_le splitBps fee
    omega

/-- Collecting a fee takes nothing from the fund. -/
theorem Vault.insuranceFund_le_collectFee (vault : Vault A) (splitBps : ℕ) (fee : ℤ) :
    vault.insuranceFund ≤ (vault.collectFee splitBps fee).insuranceFund := by
  by_cases hfee : fee ≤ 0
  · rw [Vault.collectFee, if_pos hfee]
  · rw [Vault.collectFee_insuranceFund vault splitBps (not_le.mp hfee).le]
    have := @insuranceShare_nonneg splitBps fee (not_le.mp hfee).le
    omega

/-- A claim leaves the treasury and the fund alone. -/
theorem Vault.claim_funds [DecidableEq A] (vault : Vault A) (user : A) :
    (vault.claim user).treasury = vault.treasury ∧
      (vault.claim user).insuranceFund = vault.insuranceFund := by
  unfold Vault.claim
  split <;> exact ⟨rfl, rfl⟩

theorem Vault.claimAll_funds [DecidableEq A] (vault : Vault A) (users : List A) :
    (users.foldl Vault.claim vault).treasury = vault.treasury ∧
      (users.foldl Vault.claim vault).insuranceFund = vault.insuranceFund := by
  induction users generalizing vault with
  | nil => exact ⟨rfl, rfl⟩
  | cons user rest ih =>
      obtain ⟨htreasury, hfund⟩ := ih (vault.claim user)
      obtain ⟨htreasury', hfund'⟩ := vault.claim_funds user
      exact ⟨htreasury.trans htreasury', hfund.trans hfund'⟩

/-- No value leaves the treasury, and what leaves the fund does not come to a balance. -/
structure Unspent (vault vault' : Vault A) : Prop where
  treasury : vault.treasury ≤ vault'.treasury
  fund : vault.insuranceFund ≤ vault'.insuranceFund ∨ vault'.balance = vault.balance

theorem Unspent.of_eq {vault vault' : Vault A} (htreasury : vault'.treasury = vault.treasury)
    (hfund : vault'.insuranceFund = vault.insuranceFund) : Unspent vault vault' :=
  ⟨htreasury.ge, .inl hfund.ge⟩

variable [LinearOrder A] {env : Env A} {s s' : Storage A} {call : Call A}

omit [LinearOrder A] in
/-- Whether a call is a direct withdrawal. -/
def Call.withdraws : Call A → Bool
  | .withdrawProtocolFee .. | .withdrawInsuranceFund .. => true
  | _ => false

/-- The ending of a round spends nothing from the treasury, and pays a coverage as pending
winnings. -/
theorem Ends.unspent {ledger : ℕ} {ending : Ending} (hends : Ends ledger ending s s') :
    Unspent s.vault s'.vault := by
  rw [hends.vault]
  constructor
  · simpa using Vault.treasury_le_collectFee ..
  · right
    simp

/-- Every other call than a withdrawal or an execution leaves the treasury and the fund unspent. -/
theorem Effect.unspent (heffect : Effect env s call s') (hwithdraws : call.withdraws = false)
    (hexecutes : ∀ executor proposalId, call ≠ .executeGovProposal executor proposalId) :
    Unspent s.vault s'.vault := by
  cases heffect with
  | quiet _ _ hsame => exact hsame.vault ▸ .of_eq rfl rfl
  | mint _ _ _ _ hvault => exact hvault ▸ .of_eq rfl rfl
  | treasuryAddress executor _ proposalId => exact absurd rfl (hexecutes executor proposalId)
  | payFee _ _ _ _ hcall | payFund _ _ _ _ hcall =>
      rcases hcall with rfl | ⟨executor, proposalId, rfl⟩
      · cases hwithdraws
      · exact absurd rfl (hexecutes executor proposalId)
  | topUp admin amount _ _ _ hamount hvault =>
      rw [hvault]
      refine ⟨le_rfl, .inl ?_⟩
      show _ ≤ s.vault.insuranceFund + amount
      omega
  | reclaim _ _ _ _ _ _ _ _ _ _ hvault => exact hvault ▸ .of_eq rfl rfl
  | claim _ users _ _ _ hvault =>
      obtain ⟨htreasury, hfund⟩ := s.vault.claimAll_funds users
      exact hvault ▸ .of_eq htreasury hfund
  | openRound _ _ _ _ _ _ _ _ hvault => exact hvault ▸ .of_eq rfl rfl
  | stake _ _ _ _ _ _ _ _ _ _ _ hvault => exact hvault ▸ .of_eq rfl rfl
  | reveal _ _ _ _ _ _ _ _ _ _ hvault => exact hvault ▸ .of_eq rfl rfl
  | cashOut _ _ _ _ _ _ _ _ _ _ _ hvault =>
      rw [hvault]
      refine ⟨?_, .inl ?_⟩
      · simpa using Vault.treasury_le_collectFee (s.vault.creditAll env.ledger.sequence _) _ _
      · simpa using Vault.insuranceFund_le_collectFee (s.vault.creditAll env.ledger.sequence _) _ _
  | stage _ _ _ _ _ _ _ _ _ hvault => exact hvault ▸ .of_eq rfl rfl
  | ending _ _ _ _ hends => exact hends.unspent

/-- A direct withdrawal goes through only without an approver. -/
theorem Call.ensures_ungoverned (hwithdraws : call.withdraws = true) :
    Ensures call.exec env s fun _ _ => s.control.governance.govApprover = none := by
  cases call with
  | withdrawProtocolFee recipient amount =>
      simp only [Call.exec, discardResult, XelmaMarket.withdrawProtocolFee, ensures_bind,
        ensures_onControl, ensures_requireSupportedSchema, ensures_authorizedAdmin, ensures_gets,
        ensures_reject, ensureNotPaused, ensures_policyGate, ensures_pure]
      exact fun _ _ _ _ hungoverned _ _ _ _ => not_isSome_eq_true.mp hungoverned
  | withdrawInsuranceFund recipient amount =>
      simp only [Call.exec, discardResult, XelmaMarket.withdrawInsuranceFund, ensures_bind,
        ensures_onControl, ensures_authorizedAdmin, ensures_gets, ensures_reject, ensureNotPaused,
        ensures_policyGate, ensures_pure]
      exact fun _ _ _ hungoverned _ _ _ _ => not_isSome_eq_true.mp hungoverned
  | _ => cases hwithdraws

/-! ## The approver -/

/-- An approver is set only beside an administrator. -/
def Overseen (governance : Governance A) : Prop :=
  governance.govApprover ≠ none → governance.admin ≠ none

/-- An approver stays set, beside an administrator. -/
structure KeepsApprover (governance governance' : Governance A) : Prop where
  approver : governance.govApprover ≠ none → governance'.govApprover ≠ none
  overseen : Overseen governance → Overseen governance'

omit [LinearOrder A] in
theorem KeepsApprover.of_eq {governance governance' : Governance A}
    (happrover : governance'.govApprover = governance.govApprover)
    (hadmin : governance.admin ≠ none → governance'.admin ≠ none) :
    KeepsApprover governance governance' := by
  refine ⟨fun h => happrover ▸ h, fun hoverseen hset => hadmin (hoverseen ?_)⟩
  rw [← happrover]
  exact hset

omit [LinearOrder A] in
theorem Control.enact_admin_ne_none {control : Control A} (action : GovAction A)
    (hadmin : control.governance.admin ≠ none) :
    (control.enact action).governance.admin ≠ none := by
  cases action with
  | setAdmin newAdmin => exact Option.some_ne_none newAdmin
  | pauseProtocol | unpauseProtocol =>
      rw [Control.enact, Control.withMode_governance]
      exact hadmin
  | _ => exact hadmin

/-- Every call keeps a set approver. -/
theorem ControlChange.keepsApprover (hchange : ControlChange env s call s') :
    KeepsApprover s.control.governance s'.control.governance := by
  cases hchange with
  | administered call _ heffect =>
      generalize s'.control = control at heffect
      cases heffect with
      | initialized admin => exact .of_eq rfl fun _ => Option.some_ne_none admin
      | switched =>
          rw [Control.withMode_governance]
          exact .of_eq rfl id
      | approver approver admin hadmin =>
          refine ⟨fun _ => Option.some_ne_none approver, fun _ _ => ?_⟩
          show s.control.governance.admin ≠ none
          simp [hadmin]
      | configured | deviation | attestation | heartbeat | proposed | approved | cancelled =>
          exact .of_eq rfl id
      | other _ _ _ hsame => exact .of_eq hsame.approver fun h => hsame.admin ▸ h
  | executed _ _ proposal _ hexecutes =>
      rw [hexecutes.control]
      exact .of_eq (s.control.enact_approver _) (Control.enact_admin_ne_none _)
  | submitted _ _ _ _ _ _ _ hcontrol =>
      rw [hcontrol]
      exact .of_eq rfl id
  | kept _ _ _ hsame => exact .of_eq hsame.approver fun h => hsame.admin ▸ h

variable {host : Host A} {chain chain' : Chain A} {action : Action A}
  {trace earlier later : List (Transition (Chain A) (Action A))}
  {transition : Transition (Chain A) (Action A)}

/-- Every step keeps a set approver. -/
theorem Step.keepsApprover (hstep : Step host chain action chain') :
    KeepsApprover chain.governance chain'.governance := by
  obtain ⟨signers, call, rfl⟩ | ⟨-, meter, hsame⟩ := hstep.invokes_or_idles
  · exact hstep.controlChange.keepsApprover
  · rw [Chain.governance, Chain.governance, hsame]
    exact .of_eq rfl id

/-- Every history keeps an administrator beside the approver. -/
theorem History.overseen (hhistory : History host trace chain) : Overseen chain.governance := by
  obtain ⟨ledger, hrun⟩ := hhistory
  refine hrun.invariant (fun chain => Overseen chain.governance) (fun hset => ?_)
    fun _ _ hstep => hstep.keepsApprover.overseen
  exact absurd rfl hset

/-- An approver stays set along every run. -/
theorem governed_of_run (hrun : Run (Step host) chain trace chain')
    (hset : chain.governance.govApprover ≠ none) : chain'.governance.govApprover ≠ none :=
  hrun.invariant (fun chain => chain.governance.govApprover ≠ none) hset
    fun _ _ hstep => hstep.keepsApprover.approver

/-! ## Protected changes -/

/-- A protected change: the runtime mode changes, value leaves the treasury, or value leaves the
fund to an account. -/
def ProtectedChange (transition : Transition (Chain A) (Action A)) : Prop :=
  let before := transition.before.storage
  let after := transition.after.storage
  after.control.settings.currentMode ≠ before.control.settings.currentMode ∨
    after.vault.treasury < before.vault.treasury ∨
    (after.vault.insuranceFund < before.vault.insuranceFund ∧
      ∃ recipient, after.vault.balanceOf recipient = before.vault.balanceOf recipient +
        (before.vault.insuranceFund - after.vault.insuranceFund))

/-- The execution of a proposal that one authorised address filed and another one approved. -/
def DualExecution (earlier : List (Transition (Chain A) (Action A)))
    (transition : Transition (Chain A) (Action A)) : Prop :=
  ∃ signers executor id proposal approver,
    transition.label = .invoke signers (.executeGovProposal executor id) ∧
    TakesEffect transition id proposal ∧
    proposal.approver = some approver ∧ approver ≠ proposal.proposer ∧
    (∃ filing ∈ earlier, Files filing id proposal) ∧
    ∃ approval ∈ earlier, Approves approval id proposal approver

/-- The direct setter switches the runtime mode. -/
def SwitchesDirectly (transition : Transition (Chain A) (Action A)) : Prop :=
  ∃ signers mode newMode,
    transition.label = .invoke signers (.control (.setRuntimeMode mode)) ∧
    runtimeModeOf mode = some newMode ∧
    newMode ≠ transition.before.storage.control.settings.currentMode

/-- With an approver set, only the direct setter and executions change the mode. -/
theorem ControlChange.mode_eq (hchange : ControlChange env s call s')
    (hset : s.control.governance.govApprover ≠ none) (hoverseen : Overseen s.control.governance)
    (hexecutes : ∀ executor proposalId, call ≠ .executeGovProposal executor proposalId)
    (hswitches : ∀ mode newMode, call = .control (.setRuntimeMode mode) →
      runtimeModeOf mode = some newMode → newMode = s.control.settings.currentMode) :
    s'.control.settings.currentMode = s.control.settings.currentMode := by
  cases hchange with
  | administered call _ heffect =>
      generalize s'.control = control at heffect
      cases heffect with
      | initialized _ _ hnone => exact absurd hnone (hoverseen hset)
      | switched _ mode hmode =>
          rw [Control.withMode_currentMode]
          cases hmode with
          | pause hnone | unpause hnone => exact absurd hnone hset
          | set number _ hnumber => exact hswitches number mode rfl hnumber
      | configured _ payload =>
          show (s.control.settings.write payload).paused.getD .normal = _
          cases payload <;> rfl
      | deviation | attestation | heartbeat | approver | proposed | approved | cancelled => rfl
      | other _ _ _ hsame => rw [Settings.currentMode, hsame.mode]; rfl
  | executed executor proposalId => exact absurd rfl (hexecutes executor proposalId)
  | submitted _ _ _ _ _ _ _ hcontrol => rw [hcontrol]; rfl
  | kept _ _ _ hsame => rw [Settings.currentMode, hsame.mode]; rfl

/-- With an approver set, a protected change comes from the direct setter or an execution. -/
theorem ProtectedChange.executed (hchange : ProtectedChange transition)
    (hbefore : History host earlier transition.before)
    (hstep : Step host transition.before transition.label transition.after)
    (hset : transition.before.governance.govApprover ≠ none)
    (hdirect : ¬ SwitchesDirectly transition) :
    ∃ signers executor id,
      transition.label = .invoke signers (.executeGovProposal executor id) := by
  by_contra hnone
  obtain ⟨signers, call, hlabel⟩ | ⟨-, meter, hsame⟩ := hstep.invokes_or_idles
  · have hexecutes : ∀ executor id, call ≠ .executeGovProposal executor id := by
      rintro executor id rfl
      exact hnone ⟨signers, executor, id, hlabel⟩
    rw [hlabel] at hstep
    have hmode : transition.after.storage.control.settings.currentMode =
        transition.before.storage.control.settings.currentMode := by
      refine hstep.controlChange.mode_eq hset hbefore.overseen hexecutes ?_
      rintro mode newMode rfl hmode
      by_contra hother
      exact hdirect ⟨signers, mode, newMode, hlabel, hmode, hother⟩
    have hwithdraws : call.withdraws = false := by
      by_contra hwithdraws
      rw [Bool.not_eq_false] at hwithdraws
      exact hset (hstep.ensured (Call.ensures_ungoverned hwithdraws))
    have hunspent := (hbefore.healthy.effect hstep).unspent hwithdraws hexecutes
    rcases hchange with hother | hless | ⟨hless, recipient, hbalance⟩
    · exact hother hmode
    · exact absurd hunspent.treasury (not_le.mpr hless)
    · rcases hunspent.fund with hfund | hsame
      · exact absurd hfund (not_le.mpr hless)
      · rw [Vault.balanceOf, Vault.balanceOf, hsame] at hbalance
        omega
  · rw [ProtectedChange, hsame] at hchange
    rcases hchange with hother | hless | ⟨hless, -⟩
    · exact hother rfl
    · exact lt_irrefl _ hless
    · exact lt_irrefl _ hless

/-- The execution of a proposal is one that two addresses agreed on. -/
theorem History.dualExecution (hhistory : History host (earlier ++ transition :: later) chain)
    {signers : List A} {executor : A} {id : ℕ}
    (hlabel : transition.label = .invoke signers (.executeGovProposal executor id)) :
    DualExecution earlier transition := by
  obtain ⟨hbefore, hstep, -⟩ := hhistory.cut
  rw [hlabel] at hstep
  have hchange := hstep.controlChange
  generalize htarget : transition.after.storage = target at hchange
  cases hchange with
  | executed _ _ proposal _ hexecutes =>
      have htraced := hbefore.traced
      obtain ⟨approval, happroval, approver, happrover, happroves⟩ :=
        htraced.approved id proposal hexecutes.stored hexecutes.approved
      exact ⟨signers, executor, id, proposal, approver, hlabel,
        ExecutesProposal.takesEffect (htarget ▸ hexecutes), happrover, happroves.other,
        htraced.filed id proposal hexecutes.stored, approval, happroval, happroves⟩
  | submitted _ _ _ _ _ hbound => cases hbound
  | kept _ _ hplain => cases hplain

/-- In every history a set approver stays set, and from then on a transition makes a protected
change without a proposal that two authorised addresses agreed on exactly when it switches the mode
by the direct setter. -/
theorem dual_control_iff (hhistory : History host trace chain) :
    (∀ earlier transition later, trace = earlier ++ transition :: later →
      transition.after.governance.govApprover ≠ none →
      ∀ other ∈ later, other.before.governance.govApprover ≠ none) ∧
    ∀ earlier transition later, trace = earlier ++ transition :: later →
      transition.before.governance.govApprover ≠ none →
      ((ProtectedChange transition → DualExecution earlier transition) ↔
        ¬ SwitchesDirectly transition) := by
  constructor
  · rintro earlier transition later rfl hset other hother
    obtain ⟨-, -, hlater⟩ := hhistory.cut
    obtain ⟨between, rest, -, hbetween, -⟩ := hlater.around hother
    exact governed_of_run hbetween hset
  · rintro earlier transition later rfl hset
    obtain ⟨hbefore, hstep, -⟩ := hhistory.cut
    constructor
    · rintro hdual ⟨signers, mode, newMode, hlabel, hmode, hother⟩
      have hswitched : transition.after.storage.control.settings.currentMode = newMode := by
        rw [hlabel] at hstep
        have hchange := hstep.controlChange
        generalize transition.after.storage = target at hchange
        cases hchange with
        | administered _ _ heffect =>
            generalize target.control = control at heffect
            cases heffect with
            | switched _ _ hswitches =>
                rw [Control.withMode_currentMode]
                cases hswitches with
                | set _ _ hset => exact Option.some.inj (hset.symm.trans hmode)
            | configured _ _ hplain | other _ _ hplain => cases hplain
            | heartbeat _ _ hrewrites => cases hrewrites
        | submitted _ _ _ _ _ hbound => cases hbound
        | kept _ _ hplain => cases hplain
      obtain ⟨_, _, _, _, _, hexecute, -⟩ := hdual (.inl (hswitched ▸ hother))
      cases hlabel.symm.trans hexecute
    · intro hdirect hchange
      obtain ⟨signers, executor, id, hlabel⟩ :=
        hchange.executed hbefore hstep hset hdirect
      exact hhistory.dualExecution hlabel

/-- The proposal to pause, which two addresses agreed on, pauses. -/
theorem dual_control_pause : ∃ earlier, ∃ chain chain' : Chain ℕ,
    DualExecution earlier ⟨chain, .invoke [1] (.executeGovProposal 1 1), chain'⟩ := by
  obtain ⟨trace, chain, chain', hhistory, hfits⟩ := exists_trial approvedPause
    (.invoke [1] (.executeGovProposal 1 1))
    (fun chain chain' => decide (chain.governance.govApprover ≠ none ∧
      chain'.storage.control.settings.currentMode ≠
        chain.storage.control.settings.currentMode)) (by decide +kernel)
  obtain ⟨hset, hmode⟩ := of_decide_eq_true hfits
  refine ⟨trace, chain, chain', ?_⟩
  refine ((dual_control_iff hhistory).2 trace _ [] rfl hset).mpr ?_ (.inl hmode)
  rintro ⟨_, _, _, hlabel, -⟩
  cases hlabel

/-- With approver 6 set, administrator 1 alone pauses the contract by the direct setter. -/
theorem mode_switched_alone : ¬ ∀ (trace : List (Transition (Chain ℕ) (Action ℕ))) chain,
    History trialHost trace chain →
    ∀ earlier transition later, trace = earlier ++ transition :: later →
      transition.before.governance.govApprover ≠ none →
      ProtectedChange transition → DualExecution earlier transition := by
  intro hclaim
  obtain ⟨trace, chain, chain', hhistory, hfits⟩ := exists_trial
    (trialSetup ++ [.invoke [1] (.control (.setGovApprover 6))])
    (.invoke [1] (.control (.setRuntimeMode 2)))
    (fun chain chain' => decide (chain.governance.govApprover ≠ none ∧
      chain'.storage.control.settings.currentMode ≠
        chain.storage.control.settings.currentMode)) (by decide +kernel)
  obtain ⟨hset, hmode⟩ := of_decide_eq_true hfits
  obtain ⟨_, _, _, _, _, hlabel, -⟩ :=
    hclaim _ _ hhistory trace _ [] rfl hset (.inl hmode)
  cases hlabel

end XelmaMarket
