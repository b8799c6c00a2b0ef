import XelmaMarket.Script

/-!
# The life of a proposal

Every stored proposal is traced back to the transition that filed it, and an approved one to the
transition that approved it. So a proposal takes effect once, in an execution that comes after its
approval by another authorised address and before its expiry, and never after a cancellation.
-/

namespace XelmaMarket

variable {A : Type} [LinearOrder A] {host : Host A} {chain : Chain A}
  {trace earlier later : List (Transition (Chain A) (Action A))}
  {transition : Transition (Chain A) (Action A)}

/-! ## What a transition does to the proposals -/

section Transitions

/-- The governance of a chain. -/
def Chain.governance (chain : Chain A) : Governance A :=
  chain.storage.control.governance

/-- A transition that issues a proposal id. -/
def Issues (transition : Transition (Chain A) (Action A)) (id : ℕ) : Prop :=
  ∃ signers proposer action customTtl,
    transition.label =
      .invoke signers (.control (.proposeGovAction proposer action customTtl)) ∧
    transition.before.governance.nextGovProposalId.getD 1 = id

/-- A transition that files a proposal: an authorised proposer signs the call, and the proposal is
stored under the next id, to which later only an approver and another status may be added. -/
structure Files (transition : Transition (Chain A) (Action A)) (id : ℕ)
    (proposal : GovProposal A) : Prop where
  call : ∃ signers customTtl, proposal.proposer ∈ signers ∧ transition.label =
    .invoke signers (.control (.proposeGovAction proposal.proposer proposal.action customTtl))
  next : transition.before.governance.nextGovProposalId.getD 1 = id
  authorized : transition.before.governance.isAuthorizedGovUser proposal.proposer = true
  stored : ∃ filed, transition.after.governance.govProposal.get id = some filed ∧
    filed.status = .pending ∧
    proposal = { filed with approver := proposal.approver, status := proposal.status }

/-- A transition that approves a proposal: an authorised address other than the proposer signs the
call, no later than the expiry. -/
structure Approves (transition : Transition (Chain A) (Action A)) (id : ℕ)
    (proposal : GovProposal A) (approver : A) : Prop where
  call : ∃ signers, approver ∈ signers ∧
    transition.label = .invoke signers (.control (.approveGovProposal approver id))
  authorized : transition.before.governance.isAuthorizedGovUser approver = true
  other : approver ≠ proposal.proposer
  live : transition.before.ledger.sequence ≤ proposal.expiresAtLedger

omit [LinearOrder A] in
/-- The proposal a call closes, and the status it is closed with. -/
def Call.closes : Call A → Option (ℕ × GovProposalStatus)
  | .control (.cancelGovProposal _ id) => some (id, .cancelled)
  | .executeGovProposal _ id => some (id, .executed)
  | _ => none

omit [LinearOrder A] in
/-- A transition that closes a proposal: a cancellation or an execution. -/
def Closes (transition : Transition (Chain A) (Action A)) (id : ℕ)
    (status : GovProposalStatus) : Prop :=
  ∃ signers call, transition.label = .invoke signers call ∧ call.closes = some (id, status)

/-- A transition in which the action of a proposal takes effect: the accounts and the
administration change as the action says, and the proposal is marked as executed. -/
structure TakesEffect (transition : Transition (Chain A) (Action A)) (id : ℕ)
    (proposal : GovProposal A) : Prop where
  stored : transition.before.governance.govProposal.get id = some proposal
  unexecuted : proposal.status ≠ .executed
  performed : Performed proposal.action transition.before.storage.vault
    transition.after.storage.vault
  enacted : transition.after.storage.control =
    (transition.before.storage.control.enact proposal.action).withProposal id
      { proposal with status := .executed }

omit [LinearOrder A] in
/-- Whether a call acts on proposals. -/
def Call.aboutProposals : Call A → Bool
  | .control (.proposeGovAction ..) | .control (.approveGovProposal ..)
  | .control (.cancelGovProposal ..) | .executeGovProposal .. => true
  | _ => false

end Transitions

/-! ## Provenance -/

/-- What a history establishes of the stored proposals: each was filed by a transition of the
history, an approved one was approved by one, and a closed one keeps the status it was closed
with. -/
structure Traced (trace : List (Transition (Chain A) (Action A))) (sequence : ℕ)
    (governance : Governance A) : Prop where
  numbered : Numbered governance.govProposal governance.nextGovProposalId
  past : ∀ transition ∈ trace, transition.before.ledger.sequence ≤ sequence
  issued : ∀ transition ∈ trace, ∀ id, Issues transition id →
    id < governance.nextGovProposalId.getD 1
  filed : ∀ id proposal, governance.govProposal.get id = some proposal →
    ∃ transition ∈ trace, Files transition id proposal
  approved : ∀ id proposal, governance.govProposal.get id = some proposal →
    proposal.status = .approved → ∃ transition ∈ trace, ∃ approver,
      proposal.approver = some approver ∧ Approves transition id proposal approver
  closed : ∀ transition ∈ trace, ∀ id status, Closes transition id status →
    ∃ proposal, governance.govProposal.get id = some proposal ∧ proposal.status = status

variable {sequence : ℕ} {governance governance' : Governance A} {id : ℕ}
  {proposal proposal' : GovProposal A}

omit [LinearOrder A] in
theorem Call.aboutProposals_of_hasOwnEffect {call : ControlCall A}
    (hplain : call.hasOwnEffect = false) : (Call.control call).aboutProposals = false := by
  cases call <;> first | rfl | cases hplain

omit [LinearOrder A] in
theorem Call.aboutProposals_of_administers {call : Call A} (hplain : call.administers = false) :
    call.aboutProposals = false := by
  cases call <;> first | rfl | cases hplain

omit [LinearOrder A] in
/-- A call that is not about proposals closes none. -/
theorem Call.closes_eq_none {call : Call A} (hquiet : call.aboutProposals = false) :
    call.closes = none := by
  cases call with
  | control call => cases call <;> first | rfl | cases hquiet
  | executeGovProposal => cases hquiet
  | _ => rfl

omit [LinearOrder A] in
/-- A proposal is closed as cancelled or as executed. -/
theorem Call.closes_status {call : Call A} {id : ℕ} {status : GovProposalStatus}
    (hcloses : call.closes = some (id, status)) : status = .cancelled ∨ status = .executed := by
  cases call with
  | control call =>
      cases call with
      | cancelGovProposal => exact .inl (congrArg Prod.snd (Option.some.inj hcloses)).symm
      | _ => cases hcloses
  | executeGovProposal => exact .inr (congrArg Prod.snd (Option.some.inj hcloses)).symm
  | _ => cases hcloses

/-- A stored proposal that got an approver or another status was filed where it was before. -/
theorem Files.of_rewrite (hfiles : Files transition id proposal)
    (hkept : proposal' =
      { proposal with approver := proposal'.approver, status := proposal'.status }) :
    Files transition id proposal' := by
  obtain ⟨filed, hstored, hpending, hproposal⟩ := hfiles.stored
  have hproposer : proposal'.proposer = proposal.proposer := by rw [hkept]
  have haction : proposal'.action = proposal.action := by rw [hkept]
  refine ⟨?_, hfiles.next, ?_, filed, hstored, hpending, ?_⟩
  · rw [hproposer, haction]
    exact hfiles.call
  · rw [hproposer]
    exact hfiles.authorized
  · rw [hkept, hproposal]

/-- A transition that is not about proposals keeps the provenance. -/
theorem Traced.quiet (htraced : Traced earlier transition.before.ledger.sequence governance)
    (hquiet : ∀ signers call, transition.label = .invoke signers call →
      call.aboutProposals = false)
    (hledger : transition.before.ledger.sequence ≤ sequence)
    (hproposals : governance'.govProposal = governance.govProposal)
    (hnext : governance'.nextGovProposalId = governance.nextGovProposalId) :
    Traced (earlier ++ [transition]) sequence governance' := by
  constructor
  · rw [hproposals, hnext]
    exact htraced.numbered
  · refine List.forall_mem_append.mpr ⟨fun other hother => ?_, List.forall_mem_singleton.mpr hledger⟩
    exact (htraced.past other hother).trans hledger
  · rw [hnext]
    refine List.forall_mem_append.mpr ⟨htraced.issued, List.forall_mem_singleton.mpr ?_⟩
    rintro id ⟨_, _, _, _, hlabel, -⟩
    cases hquiet _ _ hlabel
  · rw [hproposals]
    intro id proposal hget
    obtain ⟨other, hother, hfiles⟩ := htraced.filed id proposal hget
    exact ⟨other, List.mem_append_left _ hother, hfiles⟩
  · rw [hproposals]
    intro id proposal hget hstatus
    obtain ⟨other, hother, happroves⟩ := htraced.approved id proposal hget hstatus
    exact ⟨other, List.mem_append_left _ hother, happroves⟩
  · rw [hproposals]
    refine List.forall_mem_append.mpr ⟨htraced.closed, List.forall_mem_singleton.mpr ?_⟩
    rintro id status ⟨_, call, hlabel, hcall⟩
    rw [Call.closes_eq_none (hquiet _ _ hlabel)] at hcall
    cases hcall

/-- A transition that rewrites an open proposal keeps the provenance: the proposal is approved by
it, or closed by it. -/
theorem Traced.rewrite (proposal' : GovProposal A)
    (htraced : Traced earlier transition.before.ledger.sequence governance)
    {signers : List A} {call : Call A} (hlabel : transition.label = .invoke signers call)
    (hissues : ∀ id, ¬ Issues transition id)
    (hget : governance.govProposal.get id = some proposal)
    (hopen : proposal.status ≠ .executed ∧ proposal.status ≠ .cancelled)
    (hkept : proposal' =
      { proposal with approver := proposal'.approver, status := proposal'.status })
    (happroved : proposal'.status = .approved → ∃ approver,
      proposal'.approver = some approver ∧ Approves transition id proposal' approver)
    (hcloses : ∀ other status, call.closes = some (other, status) →
      other = id ∧ proposal'.status = status)
    (hproposals : governance'.govProposal = governance.govProposal.set id proposal')
    (hnext : governance'.nextGovProposalId = governance.nextGovProposalId) :
    Traced (earlier ++ [transition]) transition.before.ledger.sequence governance' := by
  constructor
  · rw [hproposals, hnext]
    exact htraced.numbered.set hget
  · exact List.forall_mem_append.mpr ⟨htraced.past, List.forall_mem_singleton.mpr le_rfl⟩
  · rw [hnext]
    refine List.forall_mem_append.mpr ⟨htraced.issued, List.forall_mem_singleton.mpr ?_⟩
    exact fun id hid => absurd hid (hissues id)
  · rw [hproposals]
    intro other stored hstored
    rw [Store.get_set] at hstored
    split at hstored
    · next heq =>
        obtain rfl := Option.some.inj hstored
        obtain ⟨filing, hfiling, hfiles⟩ := htraced.filed id proposal hget
        exact ⟨filing, List.mem_append_left _ hfiling, heq ▸ hfiles.of_rewrite hkept⟩
    · obtain ⟨filing, hfiling, hfiles⟩ := htraced.filed other stored hstored
      exact ⟨filing, List.mem_append_left _ hfiling, hfiles⟩
  · rw [hproposals]
    intro other stored hstored hstatus
    rw [Store.get_set] at hstored
    split at hstored
    · next heq =>
        obtain rfl := Option.some.inj hstored
        exact ⟨transition, by simp, heq ▸ happroved hstatus⟩
    · obtain ⟨approval, happroval, happroves⟩ := htraced.approved other stored hstored hstatus
      exact ⟨approval, List.mem_append_left _ happroval, happroves⟩
  · rw [hproposals]
    refine List.forall_mem_append.mpr ⟨?_, List.forall_mem_singleton.mpr ?_⟩
    · -- a proposal closed before is not the open one rewritten now
      intro other hother closedId status hclosed
      obtain ⟨stored, hstored, hstatus⟩ := htraced.closed other hother closedId status hclosed
      have hne : closedId ≠ id := by
        rintro rfl
        obtain rfl := Option.some.inj (hget.symm.trans hstored)
        obtain ⟨_, closing, _, hclosing⟩ := hclosed
        rcases Call.closes_status hclosing with rfl | rfl
        · exact hopen.2 hstatus
        · exact hopen.1 hstatus
      exact ⟨stored, by rw [Store.get_set_of_ne _ _ hne, hstored], hstatus⟩
    · rintro other status ⟨_, closing, hclosing, hcall⟩
      obtain ⟨-, rfl⟩ : signers = _ ∧ call = closing := by
        simpa using hlabel.symm.trans hclosing
      obtain ⟨rfl, hstatus⟩ := hcloses other status hcall
      exact ⟨proposal', Store.get_set_self _ _ _, hstatus⟩

/-- A transition that files a proposal keeps the provenance. -/
theorem Traced.file (htraced : Traced earlier transition.before.ledger.sequence
      transition.before.governance) {signers : List A} {proposer : A} {action : GovAction A}
    {customTtl : Option ℕ}
    (hlabel : transition.label =
      .invoke signers (.control (.proposeGovAction proposer action customTtl)))
    (hsigner : proposer ∈ signers)
    (hauthorized : transition.before.governance.isAuthorizedGovUser proposer = true)
    (hnext : transition.before.governance.nextGovProposalId.getD 1 + 1 < 2 ^ 64)
    (hproposal : proposal = filedProposal ⟨host, transition.before.ledger, signers⟩
      transition.before.governance proposer action customTtl)
    (hafter : transition.after.governance = { transition.before.governance with
      nextGovProposalId := some (transition.before.governance.nextGovProposalId.getD 1 + 1)
      govProposal := transition.before.governance.govProposal.set
        (transition.before.governance.nextGovProposalId.getD 1) proposal }) :
    Traced (earlier ++ [transition]) transition.before.ledger.sequence
      transition.after.governance := by
  have hpending : proposal.status = .pending := hproposal ▸ rfl
  have hfiles : Files transition (transition.before.governance.nextGovProposalId.getD 1)
      proposal := by
    refine ⟨⟨signers, customTtl, ?_⟩, rfl, ?_, proposal, ?_, hpending, rfl⟩
    · rw [hproposal]
      exact ⟨hsigner, hlabel⟩
    · rw [hproposal]
      exact hauthorized
    · rw [hafter]
      exact Store.get_set_self _ _ _
  have hfresh : ∀ id proposal, transition.before.governance.govProposal.get id = some proposal →
      id ≠ transition.before.governance.nextGovProposalId.getD 1 :=
    fun id proposal hget => (htraced.numbered.below id proposal hget).ne
  rw [hafter]
  constructor
  · refine ⟨fun id proposal hget => ?_, hnext⟩
    show id < _ + 1
    rw [Store.get_set] at hget
    split at hget
    · omega
    · exact (htraced.numbered.below id proposal hget).trans (Nat.lt_succ_self _)
  · exact List.forall_mem_append.mpr ⟨htraced.past, List.forall_mem_singleton.mpr le_rfl⟩
  · refine List.forall_mem_append.mpr ⟨fun other hother id hissues => ?_,
      List.forall_mem_singleton.mpr ?_⟩
    · exact (htraced.issued other hother id hissues).trans (Nat.lt_succ_self _)
    · rintro id ⟨_, _, _, _, -, rfl⟩
      exact Nat.lt_succ_self _
  · intro id stored hget
    rw [Store.get_set] at hget
    split at hget
    · next heq =>
        obtain rfl := Option.some.inj hget
        exact ⟨transition, by simp, heq ▸ hfiles⟩
    · obtain ⟨filing, hfiling, hfiles⟩ := htraced.filed id stored hget
      exact ⟨filing, List.mem_append_left _ hfiling, hfiles⟩
  · intro id stored hget hstatus
    rw [Store.get_set] at hget
    split at hget
    · obtain rfl := Option.some.inj hget
      rw [hpending] at hstatus
      cases hstatus
    · obtain ⟨approval, happroval, happroves⟩ := htraced.approved id _ hget hstatus
      exact ⟨approval, List.mem_append_left _ happroval, happroves⟩
  · refine List.forall_mem_append.mpr ⟨fun other hother id status hcloses => ?_,
      List.forall_mem_singleton.mpr ?_⟩
    · obtain ⟨stored, hstored, hstatus⟩ := htraced.closed other hother id status hcloses
      exact ⟨stored, by rw [Store.get_set_of_ne _ _ (hfresh id stored hstored), hstored], hstatus⟩
    · rintro id status ⟨_, call, hcall, hcloses⟩
      obtain rfl : _ = call := (Action.invoke.inj (hlabel.symm.trans hcall)).2
      cases hcloses

omit [LinearOrder A] in
/-- A call that files no proposal issues no id. -/
theorem not_issues {signers : List A} {call : Call A}
    (hlabel : transition.label = .invoke signers call)
    (hcall : ∀ proposer action customTtl,
      call ≠ .control (.proposeGovAction proposer action customTtl)) (id : ℕ) :
    ¬ Issues transition id := by
  rintro ⟨_, proposer, action, customTtl, hissues, -⟩
  exact hcall proposer action customTtl (Action.invoke.inj (hlabel.symm.trans hissues)).2

/-- An administrative call keeps the provenance. -/
theorem Traced.administered (htraced : Traced earlier transition.before.ledger.sequence
      transition.before.governance) {signers : List A} {call : ControlCall A}
    {control : Control A} (hlabel : transition.label = .invoke signers (.control call))
    (hquiet : (Call.control call).aboutProposals = false → ∀ signers' call',
      transition.label = .invoke signers' call' → call'.aboutProposals = false)
    (hafter : transition.after.governance = control.governance)
    (heffect : ControlEffect ⟨host, transition.before.ledger, signers⟩
      transition.before.storage.control call control) :
    Traced (earlier ++ [transition]) transition.before.ledger.sequence control.governance := by
  cases heffect with
  | initialized | deviation | attestation | approver =>
      exact htraced.quiet (hquiet rfl) le_rfl rfl rfl
  | switched _ _ hswitches =>
      rw [Control.withMode_governance]
      exact htraced.quiet (hquiet (by cases hswitches <;> rfl)) le_rfl rfl rfl
  | heartbeat _ _ hrewrites =>
      exact htraced.quiet (hquiet (by cases hrewrites <;> rfl)) le_rfl rfl rfl
  | configured _ _ hplain =>
      exact htraced.quiet (hquiet (Call.aboutProposals_of_hasOwnEffect hplain)) le_rfl rfl rfl
  | other _ _ hplain hsame =>
      exact htraced.quiet (hquiet (Call.aboutProposals_of_hasOwnEffect hplain)) le_rfl
        hsame.proposals hsame.next
  | proposed proposer action customTtl hsigner hauthorized hnext =>
      rw [← hafter]
      exact htraced.file hlabel hsigner hauthorized hnext rfl hafter
  | approved approver id proposal hsigner hauthorized hproposal hlive hpending hother =>
      refine htraced.rewrite _ hlabel (not_issues hlabel nofun) hproposal (by simp [hpending]) rfl
        (fun _ => ?_) nofun rfl rfl
      exact ⟨approver, rfl, ⟨signers, hsigner, hlabel⟩, hauthorized, Ne.symm hother, hlive⟩
  | cancelled canceller id proposal _ hproposal hopen =>
      refine htraced.rewrite _ hlabel (not_issues hlabel nofun) hproposal hopen rfl ?_ ?_ rfl rfl
      · intro hstatus
        cases hstatus
      · rintro _ _ ⟨⟩
        exact ⟨rfl, rfl⟩

/-- The execution of a proposal keeps the provenance. -/
theorem Traced.executed (htraced : Traced earlier transition.before.ledger.sequence
      transition.before.governance) {signers : List A} {executor : A}
    (hlabel : transition.label = .invoke signers (.executeGovProposal executor id))
    (hexecutes : ExecutesProposal ⟨host, transition.before.ledger, signers⟩
      transition.before.storage executor id proposal transition.after.storage) :
    Traced (earlier ++ [transition]) transition.before.ledger.sequence
      transition.after.governance := by
  have happroved := hexecutes.approved
  refine htraced.rewrite { proposal with status := .executed } hlabel (not_issues hlabel nofun)
    hexecutes.stored (by simp [happroved]) rfl ?_ ?_ ?_ ?_
  · intro hstatus
    cases hstatus
  · rintro _ _ ⟨⟩
    exact ⟨rfl, rfl⟩
  · rw [Chain.governance, hexecutes.control, Control.withProposal, Control.enact_proposals]
    rfl
  · rw [Chain.governance, hexecutes.control]
    exact Control.enact_next _ _

/-- Every step keeps the provenance. -/
theorem Traced.step (htraced : Traced earlier transition.before.ledger.sequence
      transition.before.governance)
    (hstep : Step host transition.before transition.label transition.after) :
    Traced (earlier ++ [transition]) transition.after.ledger.sequence
      transition.after.governance := by
  obtain ⟨signers, call, hlabel⟩ | ⟨hidle, meter, hsame⟩ := hstep.invokes_or_idles
  · rw [hlabel] at hstep
    rw [hstep.ledger_eq]
    have hquiet : call.aboutProposals = false → ∀ signers' call',
        transition.label = .invoke signers' call' → call'.aboutProposals = false := by
      intro hcall signers' call' hlabel'
      obtain ⟨-, rfl⟩ := Action.invoke.inj (hlabel.symm.trans hlabel')
      exact hcall
    have hchange := hstep.controlChange
    generalize htarget : transition.after.storage = target at hchange
    have hafter : transition.after.governance = target.control.governance := by
      rw [Chain.governance, htarget]
    cases hchange with
    | administered call _ heffect =>
        rw [hafter]
        exact htraced.administered hlabel hquiet hafter heffect
    | executed executor id proposal _ hexecutes =>
        exact htraced.executed hlabel (htarget ▸ hexecutes)
    | submitted _ _ _ _ _ hbound _ hcontrol =>
        have hnone : call.aboutProposals = false := by
          cases call <;> first | rfl | cases hbound
        rw [hafter, hcontrol]
        exact htraced.quiet (hquiet hnone) le_rfl rfl rfl
    | kept _ _ hplain hsame =>
        rw [hafter]
        exact htraced.quiet (hquiet (Call.aboutProposals_of_administers hplain)) le_rfl
          hsame.proposals hsame.next
  · have hgovernance : transition.after.governance = transition.before.governance := by
      rw [Chain.governance, hsame]
      rfl
    exact htraced.quiet (fun signers call hlabel => absurd hlabel (hidle signers call))
      hstep.ledger_le (by rw [hgovernance]) (by rw [hgovernance])

/-- Every history has the provenance of its proposals. -/
theorem History.traced (hhistory : History host trace chain) :
    Traced trace chain.ledger.sequence chain.governance := by
  obtain ⟨ledger, hrun⟩ := hhistory
  refine hrun.invariant_of_trace
    (fun trace chain => Traced trace chain.ledger.sequence chain.governance) ?_
    fun earlier transition _ hstep htraced => htraced.step hstep
  have hnone : ∀ id, (Chain.genesis (A := A) ledger).governance.govProposal.get id = none :=
    fun _ => rfl
  have hnumbered := (healthy_empty (A := A) ledger.sequence).numbered
  refine ⟨hnumbered, ?_, ?_, fun id proposal hget => ?_, fun id proposal hget => ?_, ?_⟩
  · exact fun _ hmem => absurd hmem List.not_mem_nil
  · exact fun _ hmem => absurd hmem List.not_mem_nil
  · exact absurd ((hnone id).symm.trans hget) nofun
  · exact absurd ((hnone id).symm.trans hget) nofun
  · exact fun _ hmem => absurd hmem List.not_mem_nil

/-! ## Where a proposal takes effect -/

/-- A successful execution lets the stored proposal take effect. -/
theorem ExecutesProposal.takesEffect {signers : List A} {executor : A}
    (hexecutes : ExecutesProposal ⟨host, transition.before.ledger, signers⟩
      transition.before.storage executor id proposal transition.after.storage) :
    TakesEffect transition id proposal :=
  ⟨hexecutes.stored, by simp [hexecutes.approved], hexecutes.performed, hexecutes.control⟩

omit [LinearOrder A] in
/-- An administrative call marks no stored proposal as executed. -/
theorem ControlEffect.unexecuted [DecidableEq A] {env : Env A} {control control' : Control A}
    {call : ControlCall A} (heffect : ControlEffect env control call control')
    (hnumbered : Numbered control.governance.govProposal control.governance.nextGovProposalId)
    (hget : control.governance.govProposal.get id = some proposal)
    (hunexecuted : proposal.status ≠ .executed)
    (hget' : control'.governance.govProposal.get id = some proposal') :
    proposal'.status ≠ .executed := by
  have hsame : control'.governance.govProposal.get id = control.governance.govProposal.get id →
      proposal'.status ≠ .executed := by
    intro hsame
    obtain rfl := Option.some.inj (hget.symm.trans (hsame.symm.trans hget'))
    exact hunexecuted
  cases heffect with
  | initialized | deviation | attestation | approver | heartbeat | configured => exact hsame rfl
  | switched => exact hsame (by rw [Control.withMode_governance])
  | other _ _ _ hcore => exact hsame (by rw [hcore.proposals])
  | proposed =>
      exact hsame (Store.get_set_of_ne _ _ (hnumbered.below id proposal hget).ne)
  | approved approver other stored =>
      by_cases heq : id = other
      · subst heq
        obtain rfl := Option.some.inj ((Store.get_set_self _ _ _).symm.trans hget')
        simp
      · exact hsame (Store.get_set_of_ne _ _ heq)
  | cancelled canceller other stored =>
      by_cases heq : id = other
      · subst heq
        obtain rfl := Option.some.inj ((Store.get_set_self _ _ _).symm.trans hget')
        simp
      · exact hsame (Store.get_set_of_ne _ _ heq)

/-- A proposal takes effect in a successful execution of it only. -/
theorem TakesEffect.executed (heffect : TakesEffect transition id proposal)
    (hhealthy : transition.before.Healthy)
    (hstep : Step host transition.before transition.label transition.after) :
    ∃ signers executor, transition.label = .invoke signers (.executeGovProposal executor id) ∧
      ExecutesProposal ⟨host, transition.before.ledger, signers⟩ transition.before.storage
        executor id proposal transition.after.storage := by
  have hmarked : transition.after.storage.control.governance.govProposal.get id =
      some { proposal with status := .executed } := by
    rw [heffect.enacted]
    exact Store.get_set_self _ _ _
  have hstored : transition.before.storage.control.governance.govProposal.get id =
    some proposal := heffect.stored
  have hchanged : transition.after.storage.control.governance.govProposal.get id ≠
      transition.before.storage.control.governance.govProposal.get id := by
    rw [hmarked, hstored]
    intro hsame
    exact heffect.unexecuted (congrArg GovProposal.status (Option.some.inj hsame)).symm
  obtain ⟨signers, call, hlabel⟩ | ⟨-, meter, hsame⟩ := hstep.invokes_or_idles
  · rw [hlabel] at hstep
    have hchange := hstep.controlChange
    generalize transition.after.storage = target at hchange hmarked hchanged
    cases hchange with
    | administered call _ hcontrol =>
        exact absurd rfl (hcontrol.unexecuted hhealthy.numbered hstored heffect.unexecuted hmarked)
    | executed executor other stored _ hexecutes =>
        by_cases heq : id = other
        · subst heq
          obtain rfl := Option.some.inj (hstored.symm.trans hexecutes.stored)
          exact ⟨signers, executor, hlabel, hexecutes⟩
        · refine absurd ?_ hchanged
          rw [hexecutes.control, Control.withProposal, Control.enact_proposals]
          exact Store.get_set_of_ne _ _ heq
    | submitted _ _ _ _ _ _ _ hcontrol => exact absurd (by rw [hcontrol]) hchanged
    | kept _ _ _ hsame => exact absurd (by rw [hsame.proposals]) hchanged
  · exact absurd (by rw [hsame]) hchanged

omit [LinearOrder A] in
/-- Whether the fee rate is valid, or the treasury or the fund covers the amount, that an action
asks for. -/
def GovAction.Performable (vault : Vault A) : GovAction A → Prop
  | .setProtocolFeeBps (some bps) => 0 < bps ∧ bps ≤ maxProtocolFeeBps
  | .withdrawProtocolFee _ amount => 0 < amount ∧ amount ≤ vault.treasury
  | .withdrawInsuranceFund _ amount => 0 < amount ∧ amount ≤ vault.insuranceFund
  | _ => True

/-- What a successful execution performed could be performed. -/
theorem ExecutesProposal.performable {env : Env A} {s s' : Storage A} {executor : A}
    (hexecutes : ExecutesProposal env s executor id proposal s') :
    proposal.action.Performable s.vault := by
  have hperformed := hexecutes.performed
  cases haction : proposal.action with
  | setProtocolFeeBps bps =>
      cases bps with
      | none => trivial
      | some rate =>
          have hvalid := hexecutes.valid
          rw [haction] at hvalid
          exact hvalid.fee rate rfl
  | withdrawProtocolFee recipient amount =>
      rw [haction] at hperformed
      exact hperformed.1
  | withdrawInsuranceFund recipient amount =>
      rw [haction] at hperformed
      exact hperformed.1
  | _ => trivial

/-- Every proposal id is issued once. An executed proposal takes effect; it does so only in an
execution and at most once, no later than its expiry, after it was filed, after another authorised
address approved it in time, and if no cancellation came before. An execution that fails, as one of
an invalid fee rate or of an overdrawn treasury or fund does, leaves everything as it was. -/
theorem proposal_lifecycle (hhistory : History host trace chain) (id : ℕ) :
    (∀ earlier transition later, trace = earlier ++ transition :: later →
      Issues transition id → ∀ other ∈ later, ¬ Issues other id) ∧
    (∀ transition ∈ trace, ∀ signers executor,
      transition.label = .invoke signers (.executeGovProposal executor id) →
      ∃ proposal, TakesEffect transition id proposal) ∧
    (∀ earlier transition later proposal, trace = earlier ++ transition :: later →
      TakesEffect transition id proposal →
      (∃ signers executor,
        transition.label = .invoke signers (.executeGovProposal executor id)) ∧
      transition.before.ledger.sequence ≤ proposal.expiresAtLedger ∧
      (∃ filing ∈ earlier, Files filing id proposal) ∧
      (∃ approval ∈ earlier, ∃ approver, proposal.approver = some approver ∧
        Approves approval id proposal approver ∧
        approval.before.ledger.sequence ≤ transition.before.ledger.sequence) ∧
      (∀ other ∈ earlier, ¬ Closes other id .cancelled) ∧
      ∀ other ∈ later, ∀ proposal', ¬ TakesEffect other id proposal') ∧
    (∀ signers executor proposal, chain.governance.govProposal.get id = some proposal →
      ¬ proposal.action.Performable chain.storage.vault → ∀ chain',
        ¬ Step host chain (.invoke signers (.executeGovProposal executor id)) chain') ∧
    ∀ signers executor,
      (∀ chain', ¬ Step host chain (.invoke signers (.executeGovProposal executor id)) chain') →
      chain.submit host (.invoke signers (.executeGovProposal executor id)) = chain := by
  refine ⟨?_, ?_, ?_, ?_, fun signers executor hfailed => submit_eq_of_failed hfailed⟩
  · rintro earlier transition later rfl hissues other hother ⟨_, _, _, _, -, hid⟩
    obtain ⟨between, rest, rfl⟩ := List.append_of_mem hother
    have hcut : History host ((earlier ++ transition :: between) ++ other :: rest) chain := by
      simpa using hhistory
    have hissued := hcut.cut.1.traced.issued transition (by simp) id hissues
    exact hissued.ne hid.symm
  · intro transition hmem signers executor hlabel
    obtain ⟨-, hstep⟩ := hhistory.of_mem hmem
    rw [hlabel] at hstep
    have hchange := hstep.controlChange
    generalize htarget : transition.after.storage = target at hchange
    cases hchange with
    | executed _ _ proposal _ hexecutes =>
        exact ⟨proposal, ExecutesProposal.takesEffect (htarget ▸ hexecutes)⟩
    | submitted _ _ _ _ _ hbound => cases hbound
    | kept _ _ hplain => cases hplain
  · rintro earlier transition later proposal rfl heffect
    obtain ⟨hearlier, hstep, -⟩ := hhistory.cut
    obtain ⟨signers, executor, hlabel, hexecutes⟩ := heffect.executed hearlier.healthy hstep
    have htraced := hearlier.traced
    refine ⟨⟨signers, executor, hlabel⟩, hexecutes.live,
      htraced.filed id proposal hexecutes.stored, ?_, ?_, ?_⟩
    · obtain ⟨approval, happroval, approver, happrover, happroves⟩ :=
        htraced.approved id proposal hexecutes.stored hexecutes.approved
      exact ⟨approval, happroval, approver, happrover, happroves, htraced.past approval happroval⟩
    · intro other hother hcloses
      obtain ⟨stored, hstored, hstatus⟩ := htraced.closed other hother id .cancelled hcloses
      obtain rfl := Option.some.inj (hexecutes.stored.symm.trans hstored)
      rw [hexecutes.approved] at hstatus
      cases hstatus
    · -- the execution leaves the proposal marked, and it stays so up to the other transition
      intro other hother proposal' heffect'
      obtain ⟨between, rest, rfl⟩ := List.append_of_mem hother
      have hcut : History host ((earlier ++ transition :: between) ++ other :: rest) chain := by
        simpa using hhistory
      obtain ⟨stored, hstored, hstatus⟩ :=
        hcut.cut.1.traced.closed transition (by simp) id .executed ⟨signers, _, hlabel, rfl⟩
      obtain rfl := Option.some.inj (heffect'.stored.symm.trans hstored)
      exact heffect'.unexecuted hstatus
  · intro signers executor proposal hstored hunperformable chain' hstep
    have hchange := hstep.controlChange
    generalize chain'.storage = target at hchange
    cases hchange with
    | executed _ _ other _ hexecutes =>
        obtain rfl := Option.some.inj (hstored.symm.trans hexecutes.stored)
        exact hunperformable hexecutes.performable
    | submitted _ _ _ _ _ hbound => cases hbound
    | kept _ _ hplain => cases hplain

/-- The actions that let the trial proposal to pause be executed. -/
def approvedPause : List (Action ℕ) := trialSetup ++ [
  .invoke [1] (.control (.setGovApprover 6)),
  .invoke [1] (.control (.proposeGovAction 1 .pauseProtocol none)),
  .invoke [6] (.control (.approveGovProposal 6 1))]

/-- The proposal of administrator 1 to pause, which approver 6 approves, is executed once. -/
theorem proposal_lifecycle_pause : ∃ chain chain' : Chain ℕ, ∃ proposal,
    TakesEffect ⟨chain, .invoke [1] (.executeGovProposal 1 1), chain'⟩ 1 proposal ∧
      chain'.storage.control.settings.currentMode = .fullyPaused := by
  obtain ⟨trace, chain, chain', hhistory, hfits⟩ := exists_trial approvedPause
    (.invoke [1] (.executeGovProposal 1 1))
    (fun _ chain' => decide (chain'.storage.control.settings.currentMode = .fullyPaused))
    (by decide +kernel)
  obtain ⟨-, hexecuted, -⟩ := proposal_lifecycle hhistory 1
  obtain ⟨proposal, heffect⟩ := hexecuted _ (List.mem_concat_self ..) [1] 1 rfl
  exact ⟨chain, chain', proposal, heffect, by simpa using hfits⟩

end XelmaMarket
