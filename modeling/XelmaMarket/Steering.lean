import XelmaMarket.CallEffect

/-!
# What the administration may change

The fee rate stays capped whichever way it is set, proposals are numbered once and an executed
one stays executed, and the administrator changes only when a proposal is executed.
-/

namespace XelmaMarket

open Transaction

variable {A : Type}

/-! ## Steering -/

/-- Stored proposals have ids below the next one, which is a `u64`. -/
structure Numbered (proposals : Store ℕ (GovProposal A)) (next : Option ℕ) : Prop where
  below : ∀ id proposal, proposals.get id = some proposal → id < next.getD 1
  next_lt : next.getD 1 < 2 ^ 64

/-- The ids of the executed proposals. -/
def executedIds (proposals : Store ℕ (GovProposal A)) : Finset ℕ :=
  (Finset.range (2 ^ 64)).filter fun id =>
    (proposals.get id).any fun proposal => proposal.status = .executed

/-- What a call does to the roles, the proposals and the fee rate. -/
@[mk_iff]
structure Steered (control control' : Control A) : Prop where
  fee : FeeCapped control.settings.protocolFeeBps → FeeCapped control'.settings.protocolFeeBps
  numbered : Numbered control.governance.govProposal control.governance.nextGovProposalId →
    Numbered control'.governance.govProposal control'.governance.nextGovProposalId
  executed : Numbered control.governance.govProposal control.governance.nextGovProposalId →
    executedIds control.governance.govProposal ⊆ executedIds control'.governance.govProposal
  admin : control'.governance.admin = control.governance.admin ∨
    control.governance.admin = none ∨
    (Numbered control.governance.govProposal control.governance.nextGovProposalId →
      executedIds control.governance.govProposal ⊂ executedIds control'.governance.govProposal)

theorem mem_executedIds {proposals : Store ℕ (GovProposal A)} {id : ℕ} :
    id ∈ executedIds proposals ↔
      id < 2 ^ 64 ∧ ∃ proposal, proposals.get id = some proposal ∧
        proposal.status = .executed := by
  rw [executedIds, Finset.mem_filter, Finset.mem_range]
  simp [Option.any_eq_true]

/-- There are no more executed proposals than ids. -/
theorem card_executedIds_le (proposals : Store ℕ (GovProposal A)) :
    (executedIds proposals).card ≤ 2 ^ 64 :=
  (Finset.card_filter_le _ _).trans_eq (Finset.card_range _)

/-- Steering follows settings that keep the fee rate. -/
theorem Steered.of_settings {control : Control A} {settings : Settings}
    (hfee : FeeCapped control.settings.protocolFeeBps → FeeCapped settings.protocolFeeBps) :
    Steered control { control with settings := settings } :=
  ⟨hfee, id, fun _ => subset_rfl, .inl rfl⟩

/-- Writing a proposal keeps the executed ones when it does not unexecute one. -/
theorem executedIds_subset_set {proposals : Store ℕ (GovProposal A)} {id : ℕ}
    {proposal : GovProposal A}
    (hkept : ∀ old, proposals.get id = some old → old.status ≠ .executed) :
    executedIds proposals ⊆ executedIds (proposals.set id proposal) := by
  intro other hother
  obtain ⟨hlt, old, hold, hstatus⟩ := mem_executedIds.mp hother
  have hne : other ≠ id := by
    rintro rfl
    exact hkept old hold hstatus
  exact mem_executedIds.mpr ⟨hlt, old, by rw [Store.get_set_of_ne _ _ hne, hold], hstatus⟩

/-- Rewriting a stored proposal keeps the numbering. -/
theorem Numbered.set {proposals : Store ℕ (GovProposal A)} {next : Option ℕ} {id : ℕ}
    {old proposal : GovProposal A} (hnumbered : Numbered proposals next)
    (hold : proposals.get id = some old) : Numbered (proposals.set id proposal) next := by
  refine ⟨fun other stored hget => ?_, hnumbered.next_lt⟩
  rw [Store.get_set] at hget
  split at hget
  · next heq => exact heq ▸ hnumbered.below id old hold
  · exact hnumbered.below other stored hget

/-- Steering follows a proposal rewritten before it is executed. -/
theorem Steered.of_setGovProposal {control : Control A} {id : ℕ} {old proposal : GovProposal A}
    (hold : control.governance.govProposal.get id = some old) (hstatus : old.status ≠ .executed) :
    Steered control { control with
      governance := { control.governance with
        govProposal := control.governance.govProposal.set id proposal } } := by
  refine ⟨fun h => h, fun hnumbered => hnumbered.set hold, fun _ => ?_, .inl rfl⟩
  refine executedIds_subset_set fun other hother => ?_
  obtain rfl := Option.some.inj (hold.symm.trans hother)
  exact hstatus

/-! ## Every administrative call steers -/

/-- Steering follows what keeps the roles, the proposals and the fee rate. -/
theorem SameCore.steered {control control' : Control A} (hsame : SameCore control control') :
    Steered control control' := by
  refine ⟨fun h => hsame.fee ▸ h, fun h => ?_, fun _ => ?_, .inl hsame.admin⟩
  · rw [hsame.proposals, hsame.next]
    exact h
  · rw [hsame.proposals]

variable [DecidableEq A] {env : Env A} {control control' : Control A}

/-- Every administrative effect steers. -/
theorem ControlEffect.steered {call : ControlCall A}
    (heffect : ControlEffect env control call control') : Steered control control' := by
  cases heffect with
  | initialized admin oracle hnone => exact ⟨id, id, fun _ => subset_rfl, .inr (.inl hnone)⟩
  | switched _ mode =>
      obtain ⟨paused, -, heq⟩ := control.withMode_eq mode
      rw [heq]
      exact .of_settings id
  | configured _ payload _ hvalid => exact .of_settings (FeeCapped.write hvalid)
  | deviation | attestation => exact .of_settings id
  | heartbeat => exact .of_settings id
  | approver => exact ⟨id, id, fun _ => subset_rfl, .inl rfl⟩
  | proposed proposer action customTtl _ _ hnext =>
      refine ⟨id, fun hnumbered => ⟨fun id proposal hget => ?_, hnext⟩, fun hnumbered => ?_,
        .inl rfl⟩
      · simp only [Option.getD_some]
        rw [Store.get_set] at hget
        split at hget
        · next heq => omega
        · exact (hnumbered.below id proposal hget).trans (Nat.lt_succ_self _)
      · refine executedIds_subset_set fun old hold => ?_
        exact absurd (hnumbered.below _ old hold) (lt_irrefl _)
  | approved _ id proposal _ _ hproposal _ hpending =>
      exact .of_setGovProposal hproposal (by simp [hpending])
  | cancelled _ id proposal _ hproposal hopen => exact .of_setGovProposal hproposal hopen.1
  | other _ _ _ hsame => exact hsame.steered

omit [DecidableEq A] in
/-- Executing a proposal steers: the proposal joins the executed ones. -/
theorem ExecutesProposal.steered [LinearOrder A] {s s' : Storage A} {executor : A} {proposalId : ℕ}
    {proposal : GovProposal A} (hexecutes : ExecutesProposal env s executor proposalId proposal s') :
    Steered s.control s'.control := by
  have hsubset : executedIds s.control.governance.govProposal ⊆
      executedIds (s.control.governance.govProposal.set proposalId
        { proposal with status := .executed }) := by
    refine executedIds_subset_set fun old hold => ?_
    obtain rfl := Option.some.inj (hexecutes.stored.symm.trans hold)
    simp [hexecutes.approved]
  have hproposals : s'.control.governance.govProposal =
      s.control.governance.govProposal.set proposalId { proposal with status := .executed } := by
    rw [hexecutes.control, Control.withProposal, Control.enact_proposals]
  have hnext : s'.control.governance.nextGovProposalId =
      s.control.governance.nextGovProposalId := by
    rw [hexecutes.control]
    exact s.control.enact_next _
  refine ⟨fun hcapped => ?_, fun hnumbered => ?_, fun _ => ?_, .inr (.inr fun hnumbered => ?_)⟩
  · rw [hexecutes.control]
    exact hcapped.enact hexecutes.valid
  · rw [hproposals, hnext]
    exact hnumbered.set hexecutes.stored
  · rw [hproposals]
    exact hsubset
  · rw [hproposals, Finset.ssubset_iff_of_subset hsubset]
    have hlt := (hnumbered.below _ _ hexecutes.stored).trans hnumbered.next_lt
    refine ⟨proposalId, mem_executedIds.mpr ⟨hlt, _, Store.get_set_self _ _ _, rfl⟩, fun hmem => ?_⟩
    obtain ⟨-, old, hold, hstatus⟩ := mem_executedIds.mp hmem
    obtain rfl := Option.some.inj (hexecutes.stored.symm.trans hold)
    simp [hexecutes.approved] at hstatus

end XelmaMarket
