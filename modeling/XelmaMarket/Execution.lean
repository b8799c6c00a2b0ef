import XelmaMarket.Ratification

/-!
# Who executes a proposal

The action of an approved proposal is performed whoever executes it, except that the two insurance
rates are set by entrypoints that ask for the administrator's authorisation again: the approver
cannot set them alone.
-/

namespace XelmaMarket

open Transaction

variable {A : Type} [LinearOrder A]

/-- An action that sets an insurance rate. -/
def GovAction.setsInsuranceRate : GovAction A → Bool
  | .setInsuranceSplitBps _ | .setInsuranceCoverageBps _ => true
  | _ => false

section Actions

variable {env : Env A} {s : Storage A} {post : PUnit → Storage A → Prop} {action : GovAction A}

/-- The other actions are performed whoever signed. -/
theorem performGovAction_unsigned (haction : action.setsInsuranceRate = false) {host : Host A}
    {ledger : Ledger} (signers signers' : List A) :
    Returns (performGovAction action) ⟨host, ledger, signers⟩ s post ↔
      Returns (performGovAction action) ⟨host, ledger, signers'⟩ s post := by
  cases action with
  | pauseProtocol | unpauseProtocol =>
      simp only [performGovAction, setMode, updateSettings, returns_onControl, returns_bind,
        returns_gets, returns_onlyIf, returns_update]
  | setProtocolFeeBps bps =>
      simp only [performGovAction, validateProtocolFeeBps, validateRate, updateSettings,
        returns_onControl, returns_bind, returns_onSome, returns_reject, returns_update]
  | withdrawProtocolFee recipient amount =>
      cases htreasury : s.vault.protocolFeeTreasury with
      | none =>
          simp [performGovAction, executeWithdrawFee, readTreasury, htreasury, setTreasury,
            setBalance]
      | some entry =>
          cases entry <;> simp [performGovAction, executeWithdrawFee, readTreasury, htreasury,
            setTreasury, setBalance]
  | setTreasuryAddress treasury => simp only [performGovAction, returns_updateVault]
  | setAdmin newAdmin | setOracle newOracle =>
      simp only [performGovAction, updateGovernance, returns_onControl, returns_update]
  | withdrawInsuranceFund recipient amount =>
      simp [performGovAction, executeWithdrawInsuranceFund, setInsuranceFund, setBalance]
  | setInsuranceSplitBps | setInsuranceCoverageBps => cases haction

/-- An insurance rate is set with the administrator's signature, while the contract is not paused,
to a rate in range. -/
theorem performGovAction_returns_rate (haction : action.setsInsuranceRate = true) :
    Returns (performGovAction action) env s post ↔
      ∃ admin, s.control.governance.admin = some admin ∧ admin ∈ env.signers ∧
        s.control.settings.currentMode ≠ .fullyPaused ∧ action.Valid ∧
        post ⟨⟩ { s with control := s.control.enact action } := by
  have hmode : ¬ s.control.settings.currentMode.blocks .adminConfig ↔
      s.control.settings.currentMode ≠ .fullyPaused := by
    simp [RuntimeMode.blocks]
  cases action with
  | setInsuranceSplitBps bps | setInsuranceCoverageBps bps =>
      simp only [performGovAction, XelmaMarket.setInsuranceSplitBps,
        XelmaMarket.setInsuranceCoverageBps, authorizedAdmin, ensureNotPaused, policyGate,
        updateSettings, returns_onControl, returns_bind, returns_gets, returns_orError,
        returns_requireAuth, returns_pure, returns_reject, returns_update, hmode, not_lt, gt_iff_lt,
        GovAction.Valid, Control.enact]
  | _ => cases haction

/-- An execution succeeds when an authorised user signed, the proposal is approved and unexpired, and
its action is performed. -/
theorem execute_returns (executor : A) (proposalId : ℕ) :
    Returns (execute executor proposalId) env s post ↔
      SchemaSupported s.control.settings.schemaVersion ∧ executor ∈ env.signers ∧
        s.control.governance.isAuthorizedGovUser executor = true ∧
        ∃ proposal, s.control.governance.govProposal.get proposalId = some proposal ∧
          env.ledger.sequence ≤ proposal.expiresAtLedger ∧ proposal.status = .approved ∧
          Returns (performGovAction proposal.action) env s fun _ s' =>
            post ⟨⟩ { s' with
              control := s'.control.withProposal proposalId
                { proposal with status := .executed } } := by
  simp only [execute, readGovProposal, setGovProposal, updateGovernance, returns_bind,
    returns_onControl, governanceGate_returns, returns_gets, returns_orError,
    returns_ledgerSequence, returns_reject, returns_update, not_lt, gt_iff_lt, not_not, ne_eq,
    Control.withProposal]

end Actions

section Execution

variable {host : Host A} {chain chain' : Chain A} {signers : List A} {executor : A}
  {proposalId : ℕ} {proposal : GovProposal A}

/-- An invocation is a step when the call returns. -/
theorem step_iff_returns {call : Call A} : Step host chain (.invoke signers call) chain' ↔
    Returns call.exec ⟨host, chain.ledger, signers⟩ chain.storage fun _ s' =>
      chain' = { chain with storage := s' } := by
  constructor
  · intro hstep
    cases hstep with
    | invoke _ _ storage hrun => exact ⟨⟨⟩, storage, hrun, rfl⟩
  · rintro ⟨_, storage, hrun, rfl⟩
    exact .invoke chain signers call storage hrun

/-- The execution of an approved, unexpired proposal by an authorised user who signed is a step when
the action is performed. -/
theorem executes_iff (hschema : SchemaSupported chain.settings.schemaVersion)
    (hauthorized : chain.governance.isAuthorizedGovUser executor = true)
    (hstored : chain.governance.govProposal.get proposalId = some proposal)
    (hlive : chain.ledger.sequence ≤ proposal.expiresAtLedger)
    (happroved : proposal.status = .approved) :
    Step host chain (.invoke [executor] (.executeGovProposal executor proposalId)) chain' ↔
      Returns (performGovAction proposal.action) ⟨host, chain.ledger, [executor]⟩ chain.storage
        fun _ s' => chain' = { chain with storage := { s' with
          control := s'.control.withProposal proposalId
            { proposal with status := .executed } } } := by
  rw [step_iff_returns]
  show Returns (execute executor proposalId) _ _ _ ↔ _
  rw [execute_returns]
  constructor
  · rintro ⟨-, -, -, found, hfound, -, -, hperformed⟩
    obtain rfl := Option.some.inj (hstored.symm.trans hfound)
    exact hperformed
  · intro hperformed
    exact ⟨hschema, List.mem_singleton.mpr rfl, hauthorized, proposal, hstored, hlive, happroved,
      hperformed⟩

/-- In every reachable chain, the administrator alone and the approver alone execute an approved,
unexpired proposal to the same effect, or both fail to, exactly when its action sets no insurance
rate, or the contract is paused, or the rate is out of range. -/
theorem execution_independent_iff (hreachable : Reachable host chain) {admin approver : A}
    (hadmin : chain.governance.admin = some admin)
    (happrover : chain.governance.govApprover = some approver) (hdistinct : admin ≠ approver)
    (hstored : chain.governance.govProposal.get proposalId = some proposal)
    (happroved : proposal.status = .approved)
    (hlive : chain.ledger.sequence ≤ proposal.expiresAtLedger) :
    (∀ chain', Step host chain (.invoke [admin] (.executeGovProposal admin proposalId)) chain' ↔
      Step host chain (.invoke [approver] (.executeGovProposal approver proposalId)) chain') ↔
    proposal.action.setsInsuranceRate = false ∨ chain.settings.currentMode = .fullyPaused ∨
      ¬ proposal.action.Valid := by
  obtain ⟨trace, hhistory⟩ := hreachable
  have hschema := hhistory.timelockKept.schema
  have hauthorized : chain.governance.isAuthorizedGovUser admin = true ∧
      chain.governance.isAuthorizedGovUser approver = true := by
    simp [Governance.isAuthorizedGovUser, hadmin, happrover]
  have hbyAdmin := fun chain' => @executes_iff _ _ host chain chain' admin proposalId proposal
    hschema hauthorized.1 hstored hlive happroved
  have hbyApprover := fun chain' => @executes_iff _ _ host chain chain' approver proposalId proposal
    hschema hauthorized.2 hstored hlive happroved
  simp only [hbyAdmin, hbyApprover]
  cases haction : proposal.action.setsInsuranceRate with
  | false =>
      simp only [true_or, iff_true]
      intro chain'
      exact performGovAction_unsigned haction [admin] [approver]
  | true =>
      simp only [performGovAction_returns_rate haction]
      -- the approver's signature is not the administrator's
      have hnever : ∀ user, chain.governance.admin = some user → user ∉ [approver] := by
        intro user huser hmem
        obtain rfl := Option.some.inj (hadmin.symm.trans huser)
        exact hdistinct (List.mem_singleton.mp hmem)
      constructor
      · intro hsame
        by_contra hfails
        simp only [reduceCtorEq, false_or, not_or, not_not] at hfails
        obtain ⟨user, huser, hmem, -⟩ := (hsame _).mp
          ⟨admin, hadmin, List.mem_singleton.mpr rfl, hfails.1, hfails.2, rfl⟩
        exact hnever user huser hmem
      · intro hfails chain'
        constructor
        · rintro ⟨user, -, -, hmode, hvalid, -⟩
          rcases hfails with hfalse | hpaused | hinvalid
          · cases hfalse
          · exact absurd hpaused hmode
          · exact absurd hvalid hinvalid
        · rintro ⟨user, huser, hmem, -⟩
          exact absurd hmem (hnever user huser)

end Execution

/-- Administrator 1 proposes an action that approver 6 approves. -/
def approvedAction (action : GovAction ℕ) : List (Action ℕ) := trialSetup ++ [
  .invoke [1] (.control (.setGovApprover 6)),
  .invoke [1] (.control (.proposeGovAction 1 action none)),
  .invoke [6] (.control (.approveGovProposal 6 1))]

/-- The approved action is stored, and is executed by the administrator and by the approver as
expected. -/
theorem exists_approved (action : GovAction ℕ) (byAdmin byApprover : Bool)
    (htrial : ((Chain.genesis (ledgerAt 1)).performAll trialHost (approvedAction action)).any
      (fun chain => chain.governance.admin == some 1 && (chain.governance.govApprover == some 6 &&
        (chain.governance.govProposal.get 1 ==
            some ⟨1, 1, some 6, action, 1, 1 + defaultGovProposalTtlLedgers, .approved⟩ &&
          (chain.ledger.sequence ≤ 1 + defaultGovProposalTtlLedgers &&
            ((chain.perform trialHost (.invoke [1] (.executeGovProposal 1 1))).isSome == byAdmin &&
              (chain.perform trialHost (.invoke [6] (.executeGovProposal 6 1))).isSome ==
                byApprover))))) = true) :
    ∃ (chain : Chain ℕ) (proposal : GovProposal ℕ), Reachable trialHost chain ∧
      chain.governance.admin = some 1 ∧ chain.governance.govApprover = some 6 ∧
      chain.governance.govProposal.get 1 = some proposal ∧ proposal.action = action ∧
      proposal.status = .approved ∧ chain.ledger.sequence ≤ proposal.expiresAtLedger ∧
      ((∃ chain', Step trialHost chain (.invoke [1] (.executeGovProposal 1 1)) chain') ↔
        byAdmin = true) ∧
      ((∃ chain', Step trialHost chain (.invoke [6] (.executeGovProposal 6 1)) chain') ↔
        byApprover = true) := by
  obtain ⟨trace, chain, hhistory, -, hfits⟩ := exists_trial_history (approvedAction action) _ htrial
  simp only [Bool.and_eq_true, beq_iff_eq, decide_eq_true_eq] at hfits
  obtain ⟨hadmin, happrover, hstored, hlive, hbyAdmin, hbyApprover⟩ := hfits
  refine ⟨chain, _, ⟨trace, hhistory⟩, hadmin, happrover, hstored, rfl, rfl, hlive, ?_, ?_⟩
  · rw [← hbyAdmin, Option.isSome_iff_exists]
    exact exists_congr fun _ => perform_eq_some_iff.symm
  · rw [← hbyApprover, Option.isSome_iff_exists]
    exact exists_congr fun _ => perform_eq_some_iff.symm

/-- Administrator 1 alone and approver 6 alone set the approved fee rate. -/
theorem fee_rate_executed_alike : ∃ chain : Chain ℕ, Reachable trialHost chain ∧
    (∃ chain', Step trialHost chain (.invoke [1] (.executeGovProposal 1 1)) chain') ∧
    ∀ chain', Step trialHost chain (.invoke [1] (.executeGovProposal 1 1)) chain' ↔
      Step trialHost chain (.invoke [6] (.executeGovProposal 6 1)) chain' := by
  obtain ⟨chain, proposal, hreachable, hadmin, happrover, hstored, haction, happroved, hlive,
    hbyAdmin, -⟩ := exists_approved (.setProtocolFeeBps (some 100)) true true (by decide +kernel)
  exact ⟨chain, hreachable, hbyAdmin.mpr rfl, (execution_independent_iff hreachable hadmin happrover
    (by decide) hstored happroved hlive).mpr (.inl (by rw [haction]; rfl))⟩

/-- Administrator 1 alone sets the approved insurance split, and approver 6 alone cannot. -/
theorem insurance_rate_needs_admin : ¬ ∀ (chain : Chain ℕ) admin approver proposalId
    (proposal : GovProposal ℕ), Reachable trialHost chain →
    chain.governance.admin = some admin → chain.governance.govApprover = some approver →
    admin ≠ approver → chain.governance.govProposal.get proposalId = some proposal →
    proposal.status = .approved → chain.ledger.sequence ≤ proposal.expiresAtLedger →
    ∀ chain', Step trialHost chain (.invoke [admin] (.executeGovProposal admin proposalId)) chain' ↔
      Step trialHost chain (.invoke [approver] (.executeGovProposal approver proposalId)) chain' := by
  intro hall
  obtain ⟨chain, proposal, hreachable, hadmin, happrover, hstored, -, happroved, hlive, hbyAdmin,
    hbyApprover⟩ := exists_approved (.setInsuranceSplitBps 100) true false (by decide +kernel)
  have hsame := hall chain 1 6 1 proposal hreachable hadmin happrover (by decide) hstored happroved
    hlive
  obtain ⟨chain', hexecuted⟩ := hbyAdmin.mpr rfl
  cases hbyApprover.mp ⟨chain', (hsame chain').mp hexecuted⟩

end XelmaMarket
