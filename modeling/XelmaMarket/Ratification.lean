import XelmaMarket.Constitution

/-!
# Approving and reading amendments

The constitution stores whether it requires dual approval and no call asks for it: an amendment has
two supporters exactly when somebody else than its proposer activates it. And reading an amendment
is no mere reading: past the activation deadline it closes a pending amendment for good.
-/

namespace XelmaMarket

open Transaction

variable {A : Type} [LinearOrder A] {host : Host A} {chain chain' : Chain A} {action : Action A}
  {trace : List (Transition (Chain A) (Action A))} {id : ℕ} {amendment : Amendment A}

/-! ## Dual approval -/

/-- Two distinct addresses, each authorised at that moment, acted for an amendment. -/
def DuallyApproved (trace : List (Transition (Chain A) (Action A))) (id : ℕ) : Prop :=
  ∃ first second, first ≠ second ∧ (∃ transition ∈ trace, ActsFor transition id first) ∧
    ∃ transition ∈ trace, ActsFor transition id second

/-- In every history an amendment has two supporters if and only if an address other than its
proposer activated it. -/
theorem dual_approval_iff (hhistory : History host trace chain)
    (hstored : chain.governance.amendment.get id = some amendment) :
    DuallyApproved trace id ↔ ∃ transition ∈ trace, ∃ activator,
      ActivatesAmendment transition id activator ∧ activator ≠ amendment.proposer := by
  have hratified := hhistory.ratified
  -- who acts for the amendment and did not propose it activates it
  have hother : ∀ {user}, user ≠ amendment.proposer →
      (∃ transition ∈ trace, ActsFor transition id user) →
        ∃ transition ∈ trace, ActivatesAmendment transition id user := by
    rintro user hne ⟨transition, hmem, -, -, hproposes | hactivates⟩
    · obtain ⟨found, hfound, hproposer⟩ := hratified.filed transition hmem id user hproposes
      obtain rfl := Option.some.inj (hstored.symm.trans hfound)
      exact absurd hproposer.symm hne
    · exact ⟨transition, hmem, hactivates⟩
  constructor
  · rintro ⟨first, second, hdistinct, hfirst, hsecond⟩
    by_cases hproposer : first = amendment.proposer
    · have hne : second ≠ amendment.proposer := fun h => hdistinct (hproposer.trans h.symm)
      obtain ⟨transition, hmem, hactivates⟩ := hother hne hsecond
      exact ⟨transition, hmem, second, hactivates, hne⟩
    · obtain ⟨transition, hmem, hactivates⟩ := hother hproposer hfirst
      exact ⟨transition, hmem, first, hactivates, hproposer⟩
  · rintro ⟨transition, hmem, activator, hactivates, hne⟩
    obtain ⟨hacts, -⟩ := hratified.closed transition hmem id activator hactivates
    exact ⟨activator, amendment.proposer, hne, ⟨transition, hmem, hacts⟩,
      hratified.proposed id amendment hstored⟩

/-- A constitution that requires dual approval, under which administrator 1 proposes an amendment
that the activator activates. -/
def activatedAmendment (activator : ℕ) : List (Action ℕ) := trialSetup ++ [
  .invoke [1] (.control (.setGovApprover 6)),
  .invoke [1] (.control (.establishConstitution 10 20 true)),
  .invoke [1] (.control (.proposeAmendment 1 "quorum" 3)),
  .closeLedger (ledgerAt 40),
  .invoke [activator] (.control (.activateAmendment activator 1))]

/-- Approver 6 activates the amendment of administrator 1: two addresses approved of it. -/
theorem dual_approval_by_two : ∃ trace, ∃ chain : Chain ℕ, ∃ amendment,
    History trialHost trace chain ∧ chain.governance.amendment.get 1 = some amendment ∧
      amendment.status = .activated ∧ DuallyApproved trace 1 := by
  obtain ⟨trace, chain, hhistory, hlabels, hfits⟩ := exists_trial_history (activatedAmendment 6)
    (fun chain : Chain ℕ => (chain.governance.amendment.get 1).any fun amendment =>
      amendment.status = .activated ∧ amendment.proposer = 1) (by decide +kernel)
  obtain ⟨amendment, hstored, hfits⟩ := (Option.any_eq_true _ _).mp hfits
  obtain ⟨hactivated, hproposer⟩ := of_decide_eq_true hfits
  refine ⟨trace, chain, amendment, hhistory, hstored, hactivated,
    (dual_approval_iff hhistory hstored).mpr ?_⟩
  have hmem : Action.invoke [6] (.control (.activateAmendment 6 1)) ∈ trace.map (·.label) := by
    rw [hlabels]
    simp [activatedAmendment]
  obtain ⟨transition, hmem, hlabel⟩ := List.mem_map.mp hmem
  exact ⟨transition, hmem, 6, ⟨[6], hlabel⟩, by rw [hproposer]; decide⟩

/-- Administrator 1 alone takes an amendment from its proposal to its activation under a
constitution that requires dual approval. -/
theorem approved_alone : ¬ ∀ (trace : List (Transition (Chain ℕ) (Action ℕ))) chain id
    (amendment : Amendment ℕ) (constitution : ConstitutionMetadata),
    History trialHost trace chain →
    chain.governance.constitutionMetadata = some constitution →
    constitution.dualApprovalRequired = true →
    chain.governance.amendment.get id = some amendment → amendment.status = .activated →
    DuallyApproved trace id := by
  intro hall
  obtain ⟨trace, chain, hhistory, hlabels, hfits⟩ := exists_trial_history (activatedAmendment 1)
    (fun chain => (chain.governance.constitutionMetadata.any fun constitution =>
        constitution.dualApprovalRequired) &&
      (chain.governance.amendment.get 1).any fun amendment => amendment.status = .activated)
    (by decide +kernel)
  obtain ⟨hrequired, hfits⟩ := Bool.and_eq_true_iff.mp hfits
  obtain ⟨constitution, hconstitution, hrequired⟩ := (Option.any_eq_true _ _).mp hrequired
  obtain ⟨amendment, hstored, hactivated⟩ := (Option.any_eq_true _ _).mp hfits
  obtain ⟨first, second, hdistinct, hfirst, hsecond⟩ := hall trace chain 1 amendment constitution
    hhistory hconstitution hrequired hstored (of_decide_eq_true hactivated)
  -- every call for the amendment in the run is one of administrator 1
  have hone : ∀ {user}, (∃ transition ∈ trace, ActsFor transition 1 user) → user = 1 := by
    rintro user ⟨transition, hmem, -, -, hacts⟩
    have hlabel : transition.label ∈ activatedAmendment 1 := hlabels ▸ List.mem_map_of_mem hmem
    rcases hacts with ⟨_, _, _, heq, -⟩ | ⟨_, heq⟩
    · simp only [heq, activatedAmendment, trialSetup] at hlabel
      simp at hlabel
      exact hlabel.2.1
    · simp only [heq, activatedAmendment, trialSetup] at hlabel
      simp at hlabel
      exact hlabel.2
  exact hdistinct ((hone hfirst).trans (hone hsecond).symm)

/-! ## When a veto and an activation succeed -/

section Moves

variable {env : Env A} {control : Control A} {post : PUnit → Control A → Prop}

theorem governanceGate_returns (caller : A) : Returns (governanceGate caller) env control post ↔
    SchemaSupported control.settings.schemaVersion ∧ caller ∈ env.signers ∧
      control.governance.isAuthorizedGovUser caller = true ∧ post ⟨⟩ control := by
  simp only [governanceGate, requireSupportedSchema, returns_bind, returns_gets, returns_reject,
    returns_pure, returns_requireAuth, SchemaSupported, not_or, Bool.not_eq_false, not_lt, gt_iff_lt,
    ne_eq]

/-- A veto succeeds on a pending amendment within its veto window. -/
theorem vetoAmendment_returns (vetoer : A) (id : ℕ) :
    Returns (vetoAmendment vetoer id) env control post ↔
      SchemaSupported control.settings.schemaVersion ∧ vetoer ∈ env.signers ∧
        control.governance.isAuthorizedGovUser vetoer = true ∧
        ∃ amendment, control.governance.amendment.get id = some amendment ∧
          env.ledger.sequence ≤ amendment.vetoDeadlineLedger ∧ amendment.status = .pending ∧
          post ⟨⟩ { control with
            governance := control.governance.withAmendment id
              { amendment with status := .vetoed } } := by
  simp only [vetoAmendment, readAmendment, setAmendment, updateGovernance, returns_bind,
    governanceGate_returns, returns_gets, returns_orError, returns_ledgerSequence,
    returns_reject, returns_update, not_lt, gt_iff_lt, not_not, ne_eq, Governance.withAmendment]

/-- An activation succeeds on a pending amendment after its activation deadline. -/
theorem activateAmendment_returns (activator : A) (id : ℕ) :
    Returns (activateAmendment activator id) env control post ↔
      SchemaSupported control.settings.schemaVersion ∧ activator ∈ env.signers ∧
        control.governance.isAuthorizedGovUser activator = true ∧
        ∃ amendment, control.governance.amendment.get id = some amendment ∧
          amendment.activationDeadlineLedger < env.ledger.sequence ∧
          amendment.status = .pending ∧
          post ⟨⟩ { control with
            governance := control.governance.withAmendment id
              { amendment with status := .activated } } := by
  simp only [activateAmendment, readAmendment, setAmendment, updateGovernance, returns_bind,
    governanceGate_returns, returns_gets, returns_orError, returns_ledgerSequence,
    returns_reject, returns_update, not_le, not_not, ne_eq, Governance.withAmendment]

end Moves

/-! ## Runs without reads -/

/-- The amendment as it stands if nobody has read it. -/
def Amendment.reopen (amendment : Amendment A) : Amendment A :=
  if amendment.status = .expired then { amendment with status := .pending } else amendment

/-- The amendments as they stand if nobody has read them. -/
def Mask.reopen : Mask A :=
  Mask.amendments (·.map Amendment.reopen) fun next => next

/-- The chain as it stands if nobody has read an amendment. -/
def Chain.reopen (chain : Chain A) : Chain A :=
  { chain with storage := chain.storage.mask Mask.reopen }

/-- A call that only reads an amendment. -/
def Action.readsAmendment : Action A → Bool
  | .invoke _ (.control (.getAmendment _)) => true
  | _ => false

omit [LinearOrder A] in
theorem Amendment.reopen_of_ne {amendment : Amendment A} (hstatus : amendment.status ≠ .expired) :
    amendment.reopen = amendment :=
  if_neg hstatus

omit [LinearOrder A] in
/-- Moving an amendment to a status other than expired and reopening the amendments commute. -/
theorem mask_reopen_withAmendment (control : Control A) (id : ℕ) {amendment : Amendment A}
    (hstatus : amendment.status ≠ .expired) :
    ({ control with governance := control.governance.withAmendment id amendment }
        : Control A).mask Mask.reopen =
      { control.mask Mask.reopen with
        governance := (control.mask Mask.reopen).governance.withAmendment id amendment } := by
  simp only [Control.mask, Mask.reopen, Mask.amendments, Governance.withAmendment, Store.map_set,
    Amendment.reopen_of_ne hstatus]

/-- Proposing an amendment does not depend on reads. -/
instance (proposer : A) (parameterName : String) (newValue : ℕ) :
    Ignores (Control.mask Mask.reopen) (proposeAmendment proposer parameterName newValue) := by
  have hset : ∀ (id : ℕ) (amendment : Amendment A), amendment.status ≠ .expired →
      Ignores (Control.mask Mask.reopen) (setAmendment id amendment : ControlM A PUnit) :=
    fun id amendment hstatus =>
      .update fun control => (mask_reopen_withAmendment control id hstatus).symm
  unfold proposeAmendment
  refine .bind inferInstance fun _ => .bind (.gets fun _ => rfl) fun _ => ?_
  refine .bind inferInstance fun _ => .bind (.gets fun _ => rfl) fun _ => ?_
  refine .bind inferInstance fun _ => .bind (.update fun _ => rfl) fun _ => ?_
  exact .bind inferInstance fun _ => .bind (hset _ _ nofun) inferInstance

omit [LinearOrder A] in
/-- What a read does to the amendments is undone by reopening them. -/
theorem getAmendment_spec {env : Env A} {control : Control A} (id : ℕ) :
    Ensures (getAmendment id) env control fun _ control' =>
      control'.mask Mask.reopen = control.mask Mask.reopen := by
  simp only [getAmendment, setAmendment, ensures_bind, ensures_gets, ensures_ledgerSequence,
    ensures_onSome, ensures_updateGovernance, Option.filter_eq_some_iff, decide_eq_true_eq]
  refine ⟨?_, fun _ => trivial⟩
  rintro amendment ⟨hstored, hpending, -⟩
  simp only [Control.mask, Mask.reopen, Mask.amendments, Store.map_set]
  congr 2
  ext1 other
  rw [Store.get_set]
  split
  · next heq =>
      subst heq
      have hsame : ({ amendment with status := .expired } : Amendment A).reopen = amendment := by
        rw [Amendment.reopen, if_pos rfl, ← hpending]
      rw [hsame, Store.get_map, hstored, Option.map_some,
        Amendment.reopen_of_ne (by simp [hpending])]
  · rfl

section Moves

variable {env : Env A} {control control' : Control A} {value : PUnit}

omit [LinearOrder A] in
theorem reopen_stored (hstored : control.governance.amendment.get id = some amendment)
    (hpending : amendment.status = .pending) :
    (control.mask Mask.reopen).governance.amendment.get id = some amendment := by
  have hsame : amendment.reopen = amendment := Amendment.reopen_of_ne (by simp [hpending])
  show (control.governance.amendment.map Amendment.reopen).get id = some amendment
  rw [Store.get_map, hstored, Option.map_some, hsame]

/-- A successful veto succeeds among the reopened amendments too. -/
theorem vetoAmendment_reopen {vetoer : A}
    (hrun : vetoAmendment vetoer id env control = .ok (value, control')) :
    vetoAmendment vetoer id env (control.mask Mask.reopen) =
      .ok (value, control'.mask Mask.reopen) := by
  have hreturns : Returns (vetoAmendment vetoer id) env control fun _ after => after = control' :=
    ⟨value, control', hrun, rfl⟩
  obtain ⟨hschema, hsigner, hauthorized, amendment, hstored, hopen, hpending, rfl⟩ :=
    (vetoAmendment_returns vetoer id).mp hreturns
  have hcommutes := @mask_reopen_withAmendment _ control id { amendment with status := .vetoed }
    nofun
  have hreopened : Returns (vetoAmendment vetoer id) env (control.mask Mask.reopen) fun _ after =>
      after = Control.mask Mask.reopen { control with
        governance := control.governance.withAmendment id { amendment with status := .vetoed } } :=
    (vetoAmendment_returns vetoer id).mpr ⟨hschema, hsigner, hauthorized, amendment,
      reopen_stored hstored hpending, hopen, hpending, hcommutes.symm⟩
  obtain ⟨_, _, hafter, rfl⟩ := hreopened
  exact hafter

/-- A successful activation succeeds among the reopened amendments too. -/
theorem activateAmendment_reopen {activator : A}
    (hrun : activateAmendment activator id env control = .ok (value, control')) :
    activateAmendment activator id env (control.mask Mask.reopen) =
      .ok (value, control'.mask Mask.reopen) := by
  have hreturns : Returns (activateAmendment activator id) env control fun _ after => after = control' :=
    ⟨value, control', hrun, rfl⟩
  obtain ⟨hschema, hsigner, hauthorized, amendment, hstored, hready, hpending, rfl⟩ :=
    (activateAmendment_returns activator id).mp hreturns
  have hcommutes := @mask_reopen_withAmendment _ control id
    { amendment with status := .activated } nofun
  have hreopened : Returns (activateAmendment activator id) env (control.mask Mask.reopen) fun _ after =>
      after = Control.mask Mask.reopen { control with
        governance := control.governance.withAmendment id { amendment with status := .activated } } :=
    (activateAmendment_returns activator id).mpr ⟨hschema, hsigner, hauthorized, amendment,
      reopen_stored hstored hpending, hready, hpending, hcommutes.symm⟩
  obtain ⟨_, _, hafter, rfl⟩ := hreopened
  exact hafter

end Moves

omit [LinearOrder A] in
/-- An administrative transaction returns on the storage as it does on the administration. -/
theorem onControl_eq_ok {α : Type} {m : ControlM A α} {env : Env A} {s s' : Storage A}
    {value : α} : onControl m env s = .ok (value, s') ↔
      ∃ control', m env s.control = .ok (value, control') ∧
        s' = { s with control := control' } := by
  unfold onControl zoom
  dsimp only
  cases m env s.control with
  | error failure => simp
  | ok result => simp [Prod.ext_iff, and_comm, eq_comm]

/-- A call that is not a read happens in the same way if nobody has read an amendment. -/
theorem Step.reopen (hstep : Step host chain action chain')
    (hread : action.readsAmendment = false) : Step host chain.reopen action chain'.reopen := by
  cases hstep with
  | closeLedger ledger hsequence htimestamp =>
      exact .closeLedger chain.reopen ledger hsequence htimestamp
  | expire key => exact .expire chain.reopen key
  | invoke signers call storage hrun =>
      refine .invoke chain.reopen signers call (storage.mask Mask.reopen) ?_
      by_cases hplain : call.amends = false
      · exact (Call.ignores_amendments hplain).ok hrun
      · cases call with
        | control call =>
            obtain ⟨control', hcontrol, rfl⟩ := onControl_eq_ok.mp hrun
            refine onControl_eq_ok.mpr ⟨control'.mask Mask.reopen, ?_, rfl⟩
            cases call with
            | proposeAmendment proposer parameterName newValue =>
                have hignores : Ignores (Control.mask Mask.reopen)
                    (ControlCall.proposeAmendment proposer parameterName newValue).exec :=
                  inferInstanceAs (Ignores _
                    (discardResult (proposeAmendment proposer parameterName newValue)))
                exact hignores.ok hcontrol
            | vetoAmendment vetoer id => exact vetoAmendment_reopen hcontrol
            | activateAmendment activator id => exact activateAmendment_reopen hcontrol
            | getAmendment id => cases hread
            | _ => exact absurd rfl hplain
        | _ => exact absurd rfl hplain

/-- A read does not happen if nobody has read an amendment. -/
theorem Step.reopen_read (hstep : Step host chain action chain')
    (hread : action.readsAmendment = true) : chain'.reopen = chain.reopen := by
  cases action with
  | closeLedger | expire => cases hread
  | invoke signers call =>
      cases call with
      | control call =>
          cases call with
          | getAmendment id =>
              have hledger := hstep.ledger_eq
              have hspec : Ensures (Call.control (.getAmendment id)).exec
                  ⟨host, chain.ledger, signers⟩ chain.storage fun _ s' =>
                    s'.mask Mask.reopen = chain.storage.mask Mask.reopen := by
                simp only [Call.exec, ControlCall.exec, discardResult, ensures_onControl,
                  ensures_bind, ensures_pure]
                exact (getAmendment_spec id).mono fun _ control' hsame =>
                  congrArg (fun control => { chain.storage with control := control }) hsame
              unfold Chain.reopen
              rw [hledger, hstep.ensured hspec]
          | _ => cases hread
      | _ => cases hread

/-- Every history stays one when the calls that only read amendments are left out. -/
theorem History.reopen (hhistory : History host trace chain) :
    ∃ trace', History host trace' chain.reopen ∧
      trace'.map (·.label) = (trace.map (·.label)).filter (!·.readsAmendment) := by
  obtain ⟨ledger, hrun⟩ := hhistory
  refine hrun.invariant_of_trace (fun trace chain => ∃ trace', History host trace' chain.reopen ∧
    trace'.map (·.label) = (trace.map (·.label)).filter (!·.readsAmendment)) ?_ ?_
  · have hempty : (Chain.genesis ledger : Chain A).reopen = Chain.genesis ledger := by
      have hnone : (Store.empty : Store ℕ (Amendment A)).map Amendment.reopen = Store.empty := rfl
      simp [Chain.reopen, Chain.genesis, Storage.mask, Control.mask, Mask.reopen, Mask.amendments,
        Storage.empty, hnone]
    exact ⟨[], ⟨ledger, hempty ▸ .nil _⟩, rfl⟩
  · rintro earlier ⟨before, action, after⟩ - hstep ⟨trace', ⟨start, hrun'⟩, hlabels⟩
    cases hread : action.readsAmendment with
    | true =>
        refine ⟨trace', ⟨start, ?_⟩, by simp [hlabels, hread]⟩
        rw [hstep.reopen_read hread]
        exact hrun'
    | false => exact ⟨_, ⟨start, .snoc hrun' (hstep.reopen hread)⟩, by simp [hlabels, hread]⟩

/-! ## What reading an amendment does -/

/-- Whether an address can activate an amendment: its call succeeds. -/
def Activable (host : Host A) (chain : Chain A) (signers : List A) (activator : A) (id : ℕ) : Prop :=
  ∃ chain', Step host chain (.invoke signers (.control (.activateAmendment activator id))) chain'

/-- An authorised address can activate an amendment that is pending after its deadline. -/
theorem activable_iff {signers : List A} {activator : A}
    (hschema : SchemaSupported chain.settings.schemaVersion) (hsigner : activator ∈ signers)
    (hauthorized : chain.governance.isAuthorizedGovUser activator = true)
    (hstored : chain.governance.amendment.get id = some amendment) :
    Activable host chain signers activator id ↔
      amendment.activationDeadlineLedger < chain.ledger.sequence ∧ amendment.status = .pending := by
  constructor
  · rintro ⟨chain', hstep⟩
    have hchange := hstep.amendmentChange
    generalize chain'.governance = governance at hchange
    cases hchange with
    | activated _ _ found _ _ hfound hpending hready =>
        obtain rfl := Option.some.inj (hstored.symm.trans hfound)
        exact ⟨hready, hpending⟩
    | other _ _ hplain => cases hplain
  · rintro ⟨hready, hpending⟩
    obtain ⟨value, control', hrun, -⟩ :=
      (@activateAmendment_returns _ _ ⟨host, chain.ledger, signers⟩ chain.storage.control
        (fun _ _ => True) activator id).mpr
        ⟨hschema, hsigner, hauthorized, amendment, hstored, hready, hpending, trivial⟩
    exact ⟨_, .invoke chain signers _ _ (onControl_eq_ok.mpr ⟨control', hrun, rfl⟩)⟩

/-- Every history of an amendment that nobody vetoed is also one without the calls that only read
amendments. Without them an authorised address can activate the amendment exactly after its
activation deadline and until it is activated. With them it can at the same ledgers if and only if
no read past the deadline came before an activation. -/
theorem amendment_reads_iff (hhistory : History host trace chain)
    (hstored : chain.governance.amendment.get id = some amendment)
    (hunvetoed : ∀ transition ∈ trace, ¬ VetoesAmendment transition id)
    {signers : List A} {activator : A} (hsigner : activator ∈ signers)
    (hauthorized : chain.governance.isAuthorizedGovUser activator = true) :
    ∃ trace' chain', History host trace' chain' ∧
      trace'.map (·.label) = (trace.map (·.label)).filter (!·.readsAmendment) ∧
      chain'.ledger = chain.ledger ∧
      (Activable host chain' signers activator id ↔
        amendment.activationDeadlineLedger < chain.ledger.sequence ∧
          ∀ transition ∈ trace, ∀ user, ¬ ActivatesAmendment transition id user) ∧
      ((Activable host chain signers activator id ↔ Activable host chain' signers activator id) ↔
        ∀ earlier reading later, trace = earlier ++ reading :: later → ReadsOverdue reading id →
          ∃ other ∈ earlier, ∃ user, ActivatesAmendment other id user) := by
  obtain ⟨trace', hhistory', hlabels⟩ := hhistory.reopen
  refine ⟨trace', chain.reopen, hhistory', hlabels, rfl, ?_⟩
  have hratified := hhistory.ratified
  have hstored' : chain.reopen.governance.amendment.get id = some amendment.reopen := by
    show (chain.governance.amendment.map Amendment.reopen).get id = _
    rw [Store.get_map, hstored, Option.map_some]
  rw [activable_iff hhistory.timelockKept.schema hsigner hauthorized hstored,
    @activable_iff _ _ host chain.reopen id _ signers activator hhistory'.timelockKept.schema
      hsigner hauthorized hstored']
  have hledger : chain.reopen.ledger.sequence = chain.ledger.sequence := rfl
  have hdeadline : amendment.reopen.activationDeadlineLedger =
      amendment.activationDeadlineLedger := by
    unfold Amendment.reopen
    split <;> rfl
  rw [hledger, hdeadline]
  cases hstatus : amendment.status with
  | pending =>
      rw [Amendment.reopen_of_ne (by simp [hstatus]), hstatus]
      have hunmoved := hratified.unmoved hstored (by simp [hstatus])
      refine ⟨and_congr_right fun _ => iff_of_true rfl hunmoved, iff_of_true Iff.rfl ?_⟩
      rintro earlier reading later rfl hreads
      obtain ⟨found, hfound, hmoved⟩ := hratified.read reading (by simp) id hreads
      obtain rfl := Option.some.inj (hstored.symm.trans hfound)
      exact absurd hstatus hmoved
  | activated =>
      rw [Amendment.reopen_of_ne (by simp [hstatus]), hstatus]
      obtain ⟨first, activation, last, user, rfl, hactivates, hunread⟩ :=
        hratified.activated id amendment hstored hstatus
      refine ⟨iff_of_false nofun fun h => h.2 activation (by simp) user hactivates,
        iff_of_true Iff.rfl ?_⟩
      intro earlier reading later hsplit hreads
      -- the read is none of those before the activation, nor the activation itself
      rcases List.append_eq_append_iff.mp hsplit with ⟨middle, rfl, htail⟩ | ⟨middle, rfl, htail⟩
      · cases middle with
        | nil =>
            obtain ⟨rfl, -⟩ := List.cons.inj (htail.trans rfl)
            obtain ⟨_, hlabel⟩ := hactivates
            obtain ⟨_, _, hlabel', -⟩ := hreads
            cases hlabel.symm.trans hlabel'
        | cons other rest =>
            obtain ⟨rfl, -⟩ := List.cons.inj htail
            exact ⟨activation, by simp, user, hactivates⟩
      · cases middle with
        | nil =>
            obtain ⟨rfl, -⟩ := List.cons.inj htail
            obtain ⟨_, hlabel⟩ := hactivates
            obtain ⟨_, _, hlabel', -⟩ := hreads
            cases hlabel.symm.trans hlabel'
        | cons other rest =>
            obtain ⟨rfl, -⟩ := List.cons.inj htail
            exact absurd hreads (hunread reading (by simp))
  | activationReady => exact absurd hstatus (hratified.known id amendment hstored)
  | vetoed =>
      obtain ⟨transition, hmem, hvetoes⟩ := hratified.vetoed id amendment hstored hstatus
      exact absurd hvetoes (hunvetoed transition hmem)
  | expired =>
      have hreopened : amendment.reopen.status = .pending := by
        rw [Amendment.reopen, if_pos hstatus]
      obtain ⟨⟨reading, hmem, hreads⟩, hoverdue⟩ := hratified.expired id amendment hstored hstatus
      have hunmoved := hratified.unmoved hstored (by simp [hstatus])
      refine ⟨and_congr_right fun _ => iff_of_true hreopened hunmoved, iff_of_false ?_ ?_⟩
      · simp [hreopened, hoverdue]
      · intro hcovered
        obtain ⟨earlier, later, rfl⟩ := List.append_of_mem hmem
        obtain ⟨other, hother, user, hactivates⟩ := hcovered earlier reading later rfl hreads
        exact hunmoved other (by simp [hother]) user hactivates

/-- Administrator 1 proposes an amendment, and its activation deadline passes. -/
def overdueAmendment : List (Action ℕ) := trialSetup ++ [
  .invoke [1] (.control (.establishConstitution 10 20 false)),
  .invoke [1] (.control (.proposeAmendment 1 "quorum" 3)),
  .closeLedger (ledgerAt 40)]

/-- The state a trial of the amendment ends in. -/
theorem exists_overdue (reads : List (Action ℕ)) (status : AmendmentStatus)
    (htrial : ((Chain.genesis (ledgerAt 1)).performAll trialHost (overdueAmendment ++ reads)).any
      (fun chain : Chain ℕ => chain.governance.admin = some 1 ∧
        (chain.governance.amendment.get 1).any fun amendment =>
          amendment.status = status ∧ amendment.activationDeadlineLedger < chain.ledger.sequence) =
      true) :
    ∃ trace chain amendment, History trialHost trace chain ∧
      trace.map (·.label) = overdueAmendment ++ reads ∧
      chain.governance.isAuthorizedGovUser 1 = true ∧
      chain.governance.amendment.get 1 = some amendment ∧ amendment.status = status ∧
      amendment.activationDeadlineLedger < chain.ledger.sequence := by
  obtain ⟨trace, chain, hhistory, hlabels, hfits⟩ := exists_trial_history _ _ htrial
  obtain ⟨hadmin, hfits⟩ := of_decide_eq_true hfits
  obtain ⟨amendment, hstored, hfits⟩ := (Option.any_eq_true _ _).mp hfits
  obtain ⟨hstatus, hoverdue⟩ := of_decide_eq_true hfits
  exact ⟨trace, chain, amendment, hhistory, hlabels, by simp [Governance.isAuthorizedGovUser, hadmin],
    hstored, hstatus, hoverdue⟩

/-- A label of a trial of the amendment is no veto. -/
theorem overdue_unvetoed {trace : List (Transition (Chain ℕ) (Action ℕ))} {reads : List (Action ℕ)}
    (hlabels : trace.map (·.label) = overdueAmendment ++ reads)
    (hreads : ∀ action ∈ reads, action.readsAmendment = true) :
    ∀ transition ∈ trace, ¬ VetoesAmendment transition 1 := by
  rintro transition hmem ⟨signers, vetoer, hlabel⟩
  have hlabels' : transition.label ∈ overdueAmendment ++ reads :=
    hlabels ▸ List.mem_map_of_mem hmem
  rw [hlabel] at hlabels'
  rcases List.mem_append.mp hlabels' with hmem | hmem
  · simp [overdueAmendment, trialSetup] at hmem
  · cases hreads _ hmem

/-- Administrator 1 can activate the overdue amendment that nobody has read. -/
theorem unread_amendment_activable : ∃ trace, ∃ chain : Chain ℕ, History trialHost trace chain ∧
    Activable trialHost chain [1] 1 1 := by
  obtain ⟨trace, chain, amendment, hhistory, hlabels, hauthorized, hstored, hpending, hoverdue⟩ :=
    exists_overdue [] .pending (by decide +kernel)
  have hnothing : ∀ action ∈ ([] : List (Action ℕ)), action.readsAmendment = true := by simp
  have hsigner : 1 ∈ [1] := by simp
  obtain ⟨trace', chain', -, -, -, hunread, hiff⟩ := amendment_reads_iff hhistory hstored
    (overdue_unvetoed hlabels hnothing) hsigner hauthorized
  have hlabel : ∀ transition ∈ trace, transition.label ∈ overdueAmendment ++ [] :=
    fun transition hmem => hlabels ▸ List.mem_map_of_mem hmem
  have hunmoved : ∀ transition ∈ trace, ∀ user, ¬ ActivatesAmendment transition 1 user := by
    rintro transition hmem user ⟨signers, hactivates⟩
    have hmem := hlabel transition hmem
    simp [hactivates, overdueAmendment, trialSetup] at hmem
  refine ⟨trace, chain, hhistory, (hiff.mpr ?_).mpr (hunread.mpr ⟨hoverdue, hunmoved⟩)⟩
  rintro earlier reading later rfl ⟨signers, found, hreads, -⟩
  have hmem := hlabel reading (by simp)
  simp [hreads, overdueAmendment, trialSetup] at hmem

/-- User 5 reads the overdue amendment, and administrator 1 can no longer activate it. -/
theorem read_closes_amendment : ¬ ∀ (trace trace' : List (Transition (Chain ℕ) (Action ℕ)))
    chain chain' id (amendment : Amendment ℕ) signers activator,
    History trialHost trace chain → History trialHost trace' chain' →
    trace'.map (·.label) = (trace.map (·.label)).filter (!·.readsAmendment) →
    chain.governance.amendment.get id = some amendment →
    (∀ transition ∈ trace, ¬ VetoesAmendment transition id) →
    activator ∈ signers → chain.governance.isAuthorizedGovUser activator = true →
    (Activable trialHost chain signers activator id ↔
      Activable trialHost chain' signers activator id) := by
  intro hall
  obtain ⟨trace, chain, amendment, hhistory, hlabels, hauthorized, hstored, hexpired, -⟩ :=
    exists_overdue [.invoke [5] (.control (.getAmendment 1))] .expired (by decide +kernel)
  obtain ⟨trace', chain', amendment', hhistory', hlabels', hauthorized', hstored', hpending,
    hoverdue⟩ := exists_overdue [] .pending (by decide +kernel)
  have hread : ∀ action ∈ [(Action.invoke [5] (.control (.getAmendment 1)) : Action ℕ)],
      action.readsAmendment = true := by
    simp [Action.readsAmendment]
  have hsigner : 1 ∈ [1] := by simp
  have hiff := hall trace trace' chain chain' 1 amendment [1] 1 hhistory hhistory'
    (by rw [hlabels, hlabels']; rfl) hstored (overdue_unvetoed hlabels hread) hsigner hauthorized
  rw [activable_iff hhistory.timelockKept.schema hsigner hauthorized hstored,
    activable_iff hhistory'.timelockKept.schema hsigner hauthorized' hstored'] at hiff
  cases hexpired.symm.trans (hiff.mpr ⟨hoverdue, hpending⟩).2

end XelmaMarket
