import XelmaMarket.Custody
import XelmaMarket.Proposals

/-!
# What the access lists decide

The access state of an address is what the administrator's last decision about it made it, in every
run and whatever else happens. While the lists refuse an address it cannot bet, predict, commit,
reveal, cash out or be minted to: its bets stay as they are until their round is over, and nothing
but a top-up it makes as the administrator lowers its balance.
-/

namespace XelmaMarket

open Transaction

variable {A : Type}

/-! ## Reading the lists -/

/-- The access state of an address; `unlisted` is the source's `Open`. -/
inductive AccessState where
  | unlisted
  | allowlisted
  | denylisted
  deriving DecidableEq

/-- The mode and the two lists. -/
structure AccessLists (A : Type) where
  accessControlEnabled : Option Bool
  allowlisted : Store A Bool
  denylisted : Store A Bool

/-- The mode and the lists of a governance. -/
def Governance.accessLists (governance : Governance A) : AccessLists A where
  accessControlEnabled := governance.accessControlEnabled
  allowlisted := governance.allowlisted
  denylisted := governance.denylisted

namespace AccessLists

def isAccessControlEnabled (lists : AccessLists A) : Bool :=
  lists.accessControlEnabled.getD false

def isAllowlisted (lists : AccessLists A) (user : A) : Bool :=
  lists.allowlisted.has user

def isDenylisted (lists : AccessLists A) (user : A) : Bool :=
  lists.denylisted.has user

/-- The resolved access state of a user: the denylist takes precedence. -/
def getAccessState (lists : AccessLists A) (user : A) : AccessState :=
  if lists.isDenylisted user then .denylisted
  else if lists.isAllowlisted user then .allowlisted
  else .unlisted

/-- Whether the allowlist mode is on, and the state of the user. -/
def getAccessPolicy (lists : AccessLists A) (user : A) : Bool × AccessState :=
  (lists.isAccessControlEnabled, lists.getAccessState user)

/-- No address is on both lists. -/
def Exclusive (lists : AccessLists A) : Prop :=
  ∀ user, lists.isAllowlisted user = true → lists.isDenylisted user = false

end AccessLists

/-- A policy that lets a user in: not denied, and allowed when the allowlist mode is on. -/
structure Admits (policy : Bool × AccessState) : Prop where
  not_denied : policy.2 ≠ .denylisted
  allowed : policy.1 = true → policy.2 = .allowlisted

instance (policy : Bool × AccessState) : Decidable (Admits policy) :=
  decidable_of_iff (policy.2 ≠ .denylisted ∧ (policy.1 = true → policy.2 = .allowlisted))
    ⟨fun h => ⟨h.1, h.2⟩, fun h => ⟨h.not_denied, h.allowed⟩⟩

section Gate

variable {lists : AccessLists A} {user : A}

theorem getAccessState_eq_denylisted :
    lists.getAccessState user = .denylisted ↔ lists.isDenylisted user = true := by
  unfold AccessLists.getAccessState
  split
  · next hdenied => exact ⟨fun _ => hdenied, fun _ => rfl⟩
  · next hdenied =>
      refine ⟨fun h => ?_, fun h => absurd h hdenied⟩
      split at h <;> cases h

theorem getAccessState_eq_allowlisted :
    lists.getAccessState user = .allowlisted ↔
      lists.isDenylisted user = false ∧ lists.isAllowlisted user = true := by
  unfold AccessLists.getAccessState
  cases lists.isDenylisted user <;> cases lists.isAllowlisted user <;> simp

/-- The gate of the betting entrypoints lets through whom the policy admits. -/
theorem ensures_gate [DecidableEq A] {env : Env A} {control : Control A} (post : PUnit → Control A → Prop) :
    Ensures (enforceAccessControl user) env control post ↔
      (Admits (control.governance.accessLists.getAccessPolicy user) → post ⟨⟩ control) := by
  rw [ensures_enforceAccessControl]
  have hadmits : Admits (control.governance.accessLists.getAccessPolicy user) ↔
      ¬ control.governance.denylisted.has user = true ∧
        ¬ (control.governance.accessControlEnabled.getD false = true ∧
          control.governance.allowlisted.has user = false) := by
    constructor
    · intro h
      have hdenied := h.not_denied
      rw [Ne, AccessLists.getAccessPolicy, getAccessState_eq_denylisted] at hdenied
      refine ⟨hdenied, fun hclosed => ?_⟩
      have hallowed := (getAccessState_eq_allowlisted.mp (h.allowed hclosed.1)).2
      rw [AccessLists.isAllowlisted] at hallowed
      exact absurd (hclosed.2.symm.trans hallowed) (by decide)
    · rintro ⟨hdenied, hclosed⟩
      refine ⟨fun h => hdenied (getAccessState_eq_denylisted.mp h), fun henabled => ?_⟩
      refine getAccessState_eq_allowlisted.mpr ⟨Bool.eq_false_iff.mpr hdenied, ?_⟩
      by_contra hunlisted
      exact hclosed ⟨henabled, Bool.eq_false_iff.mpr hunlisted⟩
  rw [hadmits]
  exact ⟨fun h hadmitted => h hadmitted.1 hadmitted.2, fun h hdenied hclosed => h ⟨hdenied, hclosed⟩⟩

end Gate

/-! ## Decisions of the administrator -/

section Decisions

variable [DecidableEq A]

/-- The mode and the lists after a call. -/
def ControlCall.relist (lists : AccessLists A) : ControlCall A → AccessLists A
  | .setAccessControlEnabled enabled =>
      { lists with accessControlEnabled := if enabled then some true else none }
  | .addAllowlisted user =>
      { lists with
        allowlisted := lists.allowlisted.set user true
        denylisted := lists.denylisted.remove user }
  | .removeAllowlisted user => { lists with allowlisted := lists.allowlisted.remove user }
  | .addDenylisted user =>
      { lists with
        denylisted := lists.denylisted.set user true
        allowlisted := lists.allowlisted.remove user }
  | .removeDenylisted user => { lists with denylisted := lists.denylisted.remove user }
  | _ => lists

/-- What a call decides about a user: the mode for everyone, an entry for the user it names. -/
def ControlCall.decide (user : A) (policy : Bool × AccessState) :
    ControlCall A → Bool × AccessState
  | .setAccessControlEnabled enabled => (enabled, policy.2)
  | .addAllowlisted other => if other = user then (policy.1, .allowlisted) else policy
  | .removeAllowlisted other =>
      if other = user ∧ policy.2 = .allowlisted then (policy.1, .unlisted) else policy
  | .addDenylisted other => if other = user then (policy.1, .denylisted) else policy
  | .removeDenylisted other =>
      if other = user ∧ policy.2 = .denylisted then (policy.1, .unlisted) else policy
  | _ => policy

omit [DecidableEq A] in
theorem has_set [DecidableEq A] (markers : Store A Bool) (user other : A) :
    (markers.set other true).has user = (decide (user = other) || markers.has user) := by
  by_cases huser : user = other <;> simp [Store.has, Store.get_set, huser]

omit [DecidableEq A] in
theorem has_remove [DecidableEq A] (markers : Store A Bool) (user other : A) :
    (markers.remove other).has user = (!decide (user = other) && markers.has user) := by
  by_cases huser : user = other <;> simp [Store.has, Store.get_remove, huser]

/-- A call keeps the lists exclusive. -/
theorem ControlCall.relist_exclusive {lists : AccessLists A} (call : ControlCall A)
    (hexclusive : lists.Exclusive) : (call.relist lists).Exclusive := by
  intro user
  have hbefore := hexclusive user
  unfold AccessLists.isAllowlisted AccessLists.isDenylisted at hbefore ⊢
  cases call with
  | addAllowlisted other | addDenylisted other | removeAllowlisted other
  | removeDenylisted other =>
      simp only [ControlCall.relist, has_set, has_remove]
      by_cases huser : user = other
      · simp [huser]
      · simpa [huser] using hbefore
  | _ => exact hbefore

/-- On exclusive lists a call changes the policy of a user as it decides. -/
theorem ControlCall.policy_relist {lists : AccessLists A} (call : ControlCall A)
    (hexclusive : lists.Exclusive) (user : A) :
    (call.relist lists).getAccessPolicy user = call.decide user (lists.getAccessPolicy user) := by
  have hbefore := hexclusive user
  unfold AccessLists.getAccessPolicy AccessLists.getAccessState AccessLists.isAllowlisted
    AccessLists.isDenylisted AccessLists.isAccessControlEnabled at *
  cases call with
  | setAccessControlEnabled enabled => cases enabled <;> rfl
  | addAllowlisted other | addDenylisted other | removeAllowlisted other
  | removeDenylisted other =>
      simp only [ControlCall.relist, ControlCall.decide, has_set, has_remove, eq_comm (a := other)]
      -- the two markers of the user decide, and whether the call names the user
      rcases Bool.eq_false_or_eq_true (lists.allowlisted.has user) with hallowed | hallowed <;>
        rcases Bool.eq_false_or_eq_true (lists.denylisted.has user) with hdenied | hdenied <;>
        by_cases huser : user = other <;> simp_all
  | _ => rfl

end Decisions

/-! ## What a call does to the lists -/

section Keeping

variable [DecidableEq A]

/-- The mode and the lists of an administration. -/
def Control.accessLists (control : Control A) : AccessLists A :=
  control.governance.accessLists

instance (f : Settings → Settings) :
    Keeps Control.accessLists (updateSettings f : ControlM A PUnit) :=
  .of_update fun _ => rfl

/-- A validation keeps the lists. -/
instance (payload : ConfigChangePayload) :
    Keeps Control.accessLists (validateConfigPayload payload : ControlM A PUnit) :=
  ⟨fun _ _ => (validateConfigPayload_spec payload).mono fun _ _ h => by rw [h.1]⟩

instance : Keeps Control.accessLists (adminGate : ControlM A A) := by
  unfold adminGate ensureNotPaused
  infer_instance

instance (payload : ConfigChangePayload) :
    Keeps Control.accessLists (setNow payload : ControlM A PUnit) := by
  unfold setNow
  infer_instance

instance (payload : ConfigChangePayload) :
    Keeps Control.accessLists (schedule payload : ControlM A PUnit) := by
  unfold schedule scheduleConfigChange ensureNotPaused
  repeat first | infer_instance | refine .bind inferInstance fun _ => ?_

instance (kind : ConfigChangeKind) :
    Keeps Control.accessLists (applyScheduledChanges kind : ControlM A PUnit) := by
  unfold applyScheduledChanges applyConfigPayload ensureNormalMode
  repeat first | infer_instance | refine .bind inferInstance fun _ => ?_

/-- An administrative call relists. -/
theorem ControlCall.ensures_relist {env : Env A} {control : Control A} (call : ControlCall A) :
    Ensures call.exec env control fun _ control' =>
      control'.accessLists = call.relist control.accessLists := by
  have hkeeps : ∀ (m : ControlM A PUnit) [Keeps Control.accessLists m],
      Ensures m env control fun _ control' => control'.accessLists = control.accessLists :=
    fun m hm => hm.ensures env control
  cases call with
  | scheduleWindows | scheduleMaxStake | scheduleMinBet | scheduleMaxUserExposure
  | scheduleMaxPendingWinnings | scheduleOracleStaleThreshold | scheduleOracleDeviationBps
  | scheduleOracleTimestampSkew | scheduleProtocolFeeBps | schedulePendingWinningsExpiry =>
      exact hkeeps (schedule _)
  | setFeeModel | setMinParticipants | setMaxPrecisionParticipants | setPrecisionPayoutPolicy
  | setMintLimit | setEpochMintBudget | setArchiveRetention | setCloseBufferLedgers
  | setEarlyCashoutBps | setDisputeLedgers => exact hkeeps (setNow _)
  | applyScheduledChanges kind => exact hkeeps (XelmaMarket.applyScheduledChanges kind)
  | _ =>
      simp [ControlCall.exec, discardResult, ControlCall.relist, Control.accessLists,
        Governance.accessLists, XelmaMarket.initializeContract,
        XelmaMarket.proposeOracleRotation, XelmaMarket.acceptOracleRotation,
        XelmaMarket.cancelOracleRotation, XelmaMarket.getOracleRotationProposal,
        XelmaMarket.setAccessControlEnabled,
        XelmaMarket.addAllowlisted, XelmaMarket.removeAllowlisted, XelmaMarket.addDenylisted,
        XelmaMarket.removeDenylisted, XelmaMarket.setGovApprover, XelmaMarket.setGovProposalTtl,
        propose, approve, cancel, readGovProposal, setGovProposal,
        XelmaMarket.establishConstitution, XelmaMarket.proposeAmendment,
        XelmaMarket.vetoAmendment, XelmaMarket.activateAmendment, XelmaMarket.getAmendment,
        readAmendment, setAmendment, XelmaMarket.announceNextSchema, XelmaMarket.clearNextSchema,
        XelmaMarket.pauseContract, XelmaMarket.unpauseContract, XelmaMarket.setRuntimeMode, setMode,
        XelmaMarket.setDeviationRefMode, XelmaMarket.setAttestationKey,
        XelmaMarket.setHbStrictMode, XelmaMarket.armHbOverride, XelmaMarket.setHbGraceSeconds,
        saveHbConfig, XelmaMarket.updateOracleHeartbeat,
        XelmaMarket.armOracleDeviationOverride, XelmaMarket.setOracleMinConfidenceBps,
        XelmaMarket.setOracleStrictMode, XelmaMarket.setOracleQuorumConfig, validateQuorumConfig,
        XelmaMarket.cancelConfigChange, XelmaMarket.setRoundTemplate, validateRoundTemplate,
        XelmaMarket.clearRoundTemplate, XelmaMarket.setInsuranceEligibleEvents,
        XelmaMarket.setInsuranceSplitBps, XelmaMarket.setInsuranceCoverageBps, adminGate,
        ensureNotPaused]

omit [DecidableEq A] in
/-- No proposal touches the lists. -/
theorem enact_accessLists (control : Control A) (action : GovAction A) :
    (control.enact action).accessLists = control.accessLists := by
  have hmode : ∀ mode, (control.withMode mode).accessLists = control.accessLists := by
    intro mode
    obtain ⟨paused, -, hsame⟩ := control.withMode_eq mode
    rw [hsame]
    rfl
  cases action with
  | pauseProtocol => exact hmode .fullyPaused
  | unpauseProtocol => exact hmode .normal
  | _ => rfl

end Keeping

variable [LinearOrder A] {host : Host A} {chain chain' : Chain A} {action : Action A}
  {trace : List (Transition (Chain A) (Action A))} {user : A}

/-- The mode and the lists after an action. -/
def Action.relist (lists : AccessLists A) : Action A → AccessLists A
  | .invoke _ (.control call) => call.relist lists
  | _ => lists

/-- What an action decides about a user. -/
def Action.decide (user : A) (policy : Bool × AccessState) : Action A → Bool × AccessState
  | .invoke _ (.control call) => call.decide user policy
  | _ => policy

/-- The policy of a user after what some actions decided. -/
def policyAfter (user : A) (policy : Bool × AccessState) (actions : List (Action A)) :
    Bool × AccessState :=
  actions.foldl (fun policy action => action.decide user policy) policy

/-- The mode and the lists of a chain. -/
def Chain.accessLists (chain : Chain A) : AccessLists A :=
  chain.storage.control.accessLists

/-- A step relists: only the administrator's own calls touch the lists. -/
theorem Step.relist (hstep : Step host chain action chain') :
    chain'.accessLists = action.relist chain.accessLists := by
  cases action with
  | closeLedger | expire =>
      obtain ⟨meter, hsame⟩ := hstep.idle nofun
      show chain'.storage.control.accessLists = chain.storage.control.accessLists
      rw [hsame]
  | invoke signers call =>
      cases call with
      | control call =>
          have hrelist : Ensures (Call.control call).exec ⟨host, chain.ledger, signers⟩
              chain.storage fun _ s' =>
                s'.control.accessLists = call.relist chain.accessLists := by
            simp only [Call.exec, ensures_onControl]
            exact call.ensures_relist
          exact hstep.ensured hrelist
      | executeGovProposal executor proposalId =>
          obtain ⟨proposal, hexecutes⟩ := hstep.ensured (execute_spec executor proposalId)
          show chain'.storage.control.accessLists = chain.storage.control.accessLists
          rw [hexecutes.control]
          exact enact_accessLists chain.storage.control proposal.action
      | _ =>
          obtain ⟨_, _, _, _, -, hsame⟩ := hstep.ensured (Call.ensures_market rfl)
          show chain'.storage.control.accessLists = chain.storage.control.accessLists
          rw [hsame]
          rfl

/-- A step keeps the lists exclusive. -/
theorem Step.exclusive (hstep : Step host chain action chain')
    (hexclusive : chain.accessLists.Exclusive) : chain'.accessLists.Exclusive := by
  rw [hstep.relist]
  cases action with
  | invoke signers call =>
      cases call with
      | control call => exact call.relist_exclusive hexclusive
      | _ => exact hexclusive
  | _ => exact hexclusive

/-- On exclusive lists a step changes the policy of a user as its action decides. -/
theorem Step.policy (hstep : Step host chain action chain')
    (hexclusive : chain.accessLists.Exclusive) (user : A) :
    chain'.accessLists.getAccessPolicy user =
      action.decide user (chain.accessLists.getAccessPolicy user) := by
  rw [hstep.relist]
  cases action with
  | invoke signers call =>
      cases call with
      | control call => exact call.policy_relist hexclusive user
      | _ => rfl
  | _ => rfl

/-- No reachable chain has an address on both lists. -/
theorem Reachable.exclusive (hreachable : Reachable host chain) :
    chain.accessLists.Exclusive := by
  obtain ⟨trace, ledger, hrun⟩ := hreachable
  refine hrun.invariant (fun chain => chain.accessLists.Exclusive) (fun user hallowed => ?_)
    fun _ _ hstep => hstep.exclusive
  exact absurd hallowed Bool.false_ne_true

/-- Over a run the policy of a user is what the actions decided. -/
theorem policy_of_run (hreachable : Reachable host chain)
    (hrun : Run (Step host) chain trace chain') (user : A) :
    chain'.accessLists.getAccessPolicy user =
      policyAfter user (chain.accessLists.getAccessPolicy user) (trace.map (·.label)) := by
  have hkept : chain'.accessLists.Exclusive ∧ chain'.accessLists.getAccessPolicy user =
      policyAfter user (chain.accessLists.getAccessPolicy user) (trace.map (·.label)) := by
    induction hrun with
    | nil => exact ⟨hreachable.exclusive, rfl⟩
    | snoc _ hlast ih =>
        refine ⟨hlast.exclusive ih.1, ?_⟩
        rw [hlast.policy ih.1, ih.2, policyAfter, policyAfter, List.map_append, List.foldl_append]
        rfl
  exact hkept.2

/-! ## While the lists refuse a user -/

section Refused

variable {env : Env A} {s s' : Storage A} {call : Call A} {rounds rounds' : Rounds A}
  {round : Round} {roundId : ℕ} {other : A}

/-- The user a participant's call acts for. -/
def Call.participant : Call A → Option A
  | .mintInitial user | .placeBet user _ _ | .placePrecisionPrediction user _ _
  | .predictPrice user _ _ | .commitPrediction user _ _ | .revealPrediction user _ _
  | .cashOutEarly user => some user
  | _ => none

/-- What comes after the gate runs for an admitted user only. -/
theorem ensures_gated {α : Type} (next : PUnit → ContractM A α) :
    Ensures (onControl (enforceAccessControl user) >>= next) env s fun _ _ =>
      Admits (s.control.accessLists.getAccessPolicy user) := by
  rw [ensures_bind, ensures_onControl, ensures_gate]
  exact fun hadmits _ _ _ => hadmits

/-- A participant's call succeeds for an admitted user only. -/
theorem Call.ensures_admitted (hparticipant : call.participant = some user) :
    Ensures call.exec env s fun _ _ => Admits (s.control.accessLists.getAccessPolicy user) := by
  have hcheck : ∀ {α β : Type} {check : ContractM A α} {next : α → ContractM A β},
      (Ensures check env s fun _ s' => s' = s) →
      (∀ value, Ensures (next value) env s fun _ _ =>
        Admits (s.control.accessLists.getAccessPolicy user)) →
      Ensures (check >>= next) env s fun _ _ =>
        Admits (s.control.accessLists.getAccessPolicy user) := by
    intro α β check next hsame hnext
    rw [ensures_bind]
    exact ensures_of_same hsame hnext
  have hschema : Ensures (onControl requireSupportedSchema : ContractM A ℕ) env s
      fun _ s' => s' = s := by simp
  have hauth : ∀ signer, Ensures (requireAuth signer : ContractM A PUnit) env s
      fun _ s' => s' = s := by simp
  have hmode : Ensures (onControl ensureNormalMode : ContractM A PUnit) env s
      fun _ s' => s' = s := by simp [ensureNormalMode]
  cases call with
  | mintInitial minter =>
      obtain rfl : minter = user := Option.some.inj hparticipant
      have hmint : Ensures (XelmaMarket.mintInitial minter) env s fun _ _ =>
          Admits (s.control.accessLists.getAccessPolicy minter) :=
        hcheck (hauth _) fun _ => hcheck hschema fun _ => hcheck hmode fun _ => ensures_gated _
      simp only [Call.exec, discardResult]
      rw [ensures_bind]
      exact hmint.mono fun _ _ hadmits _ _ _ => hadmits
  | placeBet | placePrecisionPrediction | predictPrice | cashOutEarly =>
      obtain rfl := Option.some.inj hparticipant
      exact hcheck hschema fun _ => hcheck (hauth _) fun _ => hcheck hmode fun _ =>
        ensures_gated _
  | commitPrediction | revealPrediction =>
      obtain rfl := Option.some.inj hparticipant
      exact hcheck (hauth _) fun _ => hcheck hmode fun _ => ensures_gated _
  | _ => cases hparticipant

/-- The bets of a user in a round are as they were. -/
structure SameBets (rounds rounds' : Rounds A) (roundId : ℕ) (user : A) : Prop where
  listed : user ∈ rounds'.participants roundId ↔ user ∈ rounds.participants roundId
  position : rounds'.position.get (roundId, user) = rounds.position.get (roundId, user)
  prediction : rounds'.precisionPosition.get (roundId, user) =
    rounds.precisionPosition.get (roundId, user)
  commitment : rounds'.precisionCommitment.get (roundId, user) =
    rounds.precisionCommitment.get (roundId, user)

omit [LinearOrder A] in
theorem SameBets.trans {rounds'' : Rounds A} (hfirst : SameBets rounds rounds' roundId user)
    (hsecond : SameBets rounds' rounds'' roundId user) : SameBets rounds rounds'' roundId user where
  listed := hsecond.listed.trans hfirst.listed
  position := hsecond.position.trans hfirst.position
  prediction := hsecond.prediction.trans hfirst.prediction
  commitment := hsecond.commitment.trans hfirst.commitment

omit [LinearOrder A] in
theorem SameBook.sameBets (hsame : SameBook rounds rounds' roundId) (user : A) :
    SameBets rounds rounds' roundId user where
  listed := by rw [hsame.participants]
  position := hsame.position user
  prediction := hsame.prediction user
  commitment := hsame.commitment user

/-- What a user does in a round leaves the bets of every other user alone. -/
theorem sameBets_of_other {user other : A} (hother : user ≠ other) (roundId : ℕ) :
    (∀ amount side, SameBets rounds (rounds.bet round other amount side) roundId user) ∧
    (∀ amount price, SameBets rounds (rounds.predict round other amount price) roundId user) ∧
    (∀ amount hash, SameBets rounds (rounds.commit round other amount hash) roundId user) ∧
    (∀ commitment price, SameBets rounds (rounds.reveal round other commitment price) roundId
      user) ∧
    ∀ position, SameBets rounds (rounds.leave round other position) roundId user := by
  have hkey : (roundId, user) ≠ (round.roundId, other) := fun h => hother (congrArg Prod.snd h)
  have hjoined : user ∈ (rounds.join round.roundId other).participants roundId ↔
      user ∈ rounds.participants roundId := by
    simp only [Rounds.participants, Rounds.join, Store.getD_set]
    split
    · next hid => simp [hid, hother]
    · rfl
  have hleft : ∀ position, user ∈ (rounds.leave round other position).participants roundId ↔
      user ∈ rounds.participants roundId := by
    intro position
    simp only [Rounds.participants, Rounds.leave, Store.getD_set]
    split
    · next hid => simp [hid, hother]
    · rfl
  exact ⟨fun _ _ => ⟨hjoined, Store.get_set_of_ne _ _ hkey, rfl, rfl⟩,
    fun _ _ => ⟨hjoined, rfl, Store.get_set_of_ne _ _ hkey, rfl⟩,
    fun _ _ => ⟨hjoined, rfl, rfl, Store.get_set_of_ne _ _ hkey⟩,
    fun _ _ => ⟨.rfl, rfl, Store.get_set_of_ne _ _ hkey, Store.get_set_of_ne _ _ hkey⟩,
    fun position => ⟨hleft position, Store.get_remove_of_ne _ hkey, rfl, rfl⟩⟩

/-- A call that acts for another user leaves the bets of a user in a round alone, or the round is
over. -/
theorem Effect.sameBets (hordered : s.rounds.Ordered) (heffect : Effect env s call s')
    (hother : call.participant ≠ some user) (roundId : ℕ) :
    SameBets s.rounds s'.rounds roundId user ∨ s'.rounds.Over roundId := by
  cases heffect with
  | quiet _ _ hsame =>
      rw [hsame.rounds]
      exact .inl ((SameBook.refl _ _).sameBets user)
  | mint _ _ _ _ _ hsame | treasuryAddress _ _ _ _ _ _ _ _ hsame | payFee _ _ _ _ _ _ _ hsame
  | payFund _ _ _ _ _ _ _ hsame | topUp _ _ _ _ _ _ _ hsame
  | reclaim _ _ _ _ _ _ _ _ _ _ _ hsame | claim _ _ _ _ _ _ hsame =>
      rw [hsame.rounds]
      exact .inl ((SameBook.refl _ _).sameBets user)
  | openRound _ _ _ _ _ _ _ _ _ hrounds | stage _ _ _ _ _ _ _ _ _ _ hrounds =>
      rw [hrounds]
      exact .inl ⟨.rfl, rfl, rfl, rfl⟩
  | stake _ round staker _ _ _ _ _ _ _ hplaced =>
      generalize s'.rounds = rounds' at hplaced ⊢
      cases hplaced with
      | bet side =>
          have huser : user ≠ staker := fun h => hother (congrArg some h.symm)
          exact .inl ((sameBets_of_other huser roundId).1 _ _)
      | predict _ price hcall =>
          have huser : user ≠ staker := by
            rintro rfl
            rcases hcall with rfl | rfl <;> exact hother rfl
          exact .inl ((sameBets_of_other huser roundId).2.1 _ _)
      | commit hash =>
          have huser : user ≠ staker := fun h => hother (congrArg some h.symm)
          exact .inl ((sameBets_of_other huser roundId).2.2.1 _ _)
  | reveal _ revealer _ _ _ _ _ _ _ _ _ hrounds =>
      have huser : user ≠ revealer := fun h => hother (congrArg some h.symm)
      rw [hrounds]
      exact .inl ((sameBets_of_other huser roundId).2.2.2.1 _ _)
  | cashOut _ leaver _ _ _ _ _ _ _ _ _ _ hrounds =>
      have huser : user ≠ leaver := fun h => hother (congrArg some h.symm)
      rw [hrounds]
      exact .inl ((sameBets_of_other huser roundId).2.2.2.2 _)
  | ending _ ending _ hending hends =>
      by_cases hid : roundId = ending.round.roundId
      · rw [hid]
        exact .inr (hends.over hordered hending)
      · rw [hends.rounds]
        exact .inl ((roundsAfter_other ending hid).sameBets user)

end Refused

/-- A top-up of the insurance fund out of the administrator's balance. -/
def TopsUp (admin : A) (transition : Transition (Chain A) (Action A)) : Prop :=
  transition.before.storage.control.governance.admin = some admin ∧
    ∃ signers amount, transition.label = .invoke signers (.topUpInsuranceFund amount)

/-- What a run leaves a user: the bets of every round until it is over, and the balance but for
top-ups. -/
structure LeavesAlone (user : A) (chain : Chain A)
    (trace : List (Transition (Chain A) (Action A))) (chain' : Chain A) : Prop where
  bets : ∀ roundId, SameBets chain.storage.rounds chain'.storage.rounds roundId user ∨
    chain'.storage.rounds.Over roundId
  balance : (∀ transition ∈ trace, ¬ TopsUp user transition) →
    chain.storage.vault.balanceOf user ≤ chain'.storage.vault.balanceOf user

/-- A step from a chain that refuses a user leaves the user alone. -/
theorem Step.leavesAlone (hreachable : Reachable host chain)
    (hstep : Step host chain action chain')
    (hrefused : ¬ Admits (chain.accessLists.getAccessPolicy user)) :
    LeavesAlone user chain [⟨chain, action, chain'⟩] chain' := by
  have hhealthy : chain.storage.Healthy chain.ledger.sequence := hreachable.healthy
  obtain ⟨signers, call, rfl⟩ | ⟨-, meter, hsame⟩ := hstep.invokes_or_idles
  · have heffect := hreachable.effect hstep
    have hother : call.participant ≠ some user := fun hparticipant =>
      hrefused (hstep.ensured (Call.ensures_admitted hparticipant))
    refine ⟨heffect.sameBets hhealthy.ordered hother, fun hnone => not_lt.mp fun hlowered => ?_⟩
    cases heffect.balanceLowered hhealthy.ordered hhealthy.solvent hlowered with
    | staked round amount hstakes =>
        refine hother ?_
        rcases hstakes with ⟨_, rfl⟩ | ⟨_, rfl⟩ | ⟨_, rfl⟩ | ⟨_, rfl⟩ <;> rfl
    | toppedUp amount hcall hadmin =>
        exact hnone _ (List.mem_singleton_self _) ⟨hadmin, signers, amount, by rw [hcall]⟩
  · have hrounds : chain'.storage.rounds = chain.storage.rounds := by rw [hsame]
    have hvault : chain'.storage.vault = chain.storage.vault := by rw [hsame]
    refine ⟨fun roundId => .inl ?_, fun _ => by rw [hvault]⟩
    rw [hrounds]
    exact (SameBook.refl _ roundId).sameBets user

/-- A run whose every chain refuses a user leaves the user alone. -/
theorem leavesAlone_of_run (hreachable : Reachable host chain)
    (hrun : Run (Step host) chain trace chain')
    (hrefused : ∀ transition ∈ trace,
      ¬ Admits (transition.before.accessLists.getAccessPolicy user)) :
    LeavesAlone user chain trace chain' := by
  induction hrun with
  | nil => exact ⟨fun _ => .inl ⟨.rfl, rfl, rfl, rfl⟩, fun _ => le_rfl⟩
  | snoc hearlier hlast ih =>
      have hbefore := ih fun transition hmem => hrefused transition (List.mem_append_left _ hmem)
      have hmiddle := reachable_of_run hreachable hearlier
      have hstep := hlast.leavesAlone hmiddle
        (hrefused _ (List.mem_append_right _ (List.mem_singleton_self _)))
      constructor
      · intro roundId
        rcases hbefore.bets roundId with hsame | hover
        · rcases hstep.bets roundId with hnext | hover
          · exact .inl (hsame.trans hnext)
          · exact .inr hover
        · have hrest := Run.snoc (.nil _) hlast
          exact .inr (Chain.Healthy.over_of_run hmiddle.healthy hrest hover).2
      · intro hnone
        have hfirst := hbefore.balance fun transition hmem =>
          hnone transition (List.mem_append_left _ hmem)
        have hsecond := hstep.balance fun transition hmem =>
          hnone transition (List.mem_append_right _ hmem)
        exact hfirst.trans hsecond

/-- Over every run the policy of a user is what the decisions in the trace made it, no address is on
both lists, and while the policy refuses the user nothing the user has at stake changes before its
round is over, and the balance is not lowered but by top-ups. -/
theorem access_lists_followed (hreachable : Reachable host chain)
    (hrun : Run (Step host) chain trace chain') (user : A) :
    chain'.accessLists.getAccessPolicy user =
        policyAfter user (chain.accessLists.getAccessPolicy user) (trace.map (·.label)) ∧
      chain'.accessLists.Exclusive ∧
      ((∀ n < trace.length, ¬ Admits (policyAfter user (chain.accessLists.getAccessPolicy user)
          ((trace.map (·.label)).take n))) →
        LeavesAlone user chain trace chain') := by
  refine ⟨policy_of_run hreachable hrun user, (reachable_of_run hreachable hrun).exclusive,
    fun hrefused => ?_⟩
  refine leavesAlone_of_run hreachable hrun fun transition hmem => ?_
  obtain ⟨earlier, later, rfl, hearlier, -, -⟩ := hrun.around hmem
  rw [policy_of_run hreachable hearlier user]
  have htake := hrefused earlier.length (by simp)
  rwa [List.map_append, List.take_left' (by simp)] at htake

/-- User 3 bets and is denied; the bet stays while user 4 bets and the allowlist mode is turned
on. -/
theorem denied_bettor_left_alone : ∃ trace, ∃ chain chain' : Chain ℕ,
    Reachable trialHost chain ∧ Run (Step trialHost) chain trace chain' ∧
      chain.storage.rounds.position.get (1, 3) = some ⟨70, .up⟩ ∧
      chain'.accessLists.getAccessPolicy 3 = (true, .denylisted) ∧
      LeavesAlone 3 chain trace chain' := by
  have htrial : (((Chain.genesis (ledgerAt 1)).performAll trialHost (trialSetup ++ [
      .invoke [1] (.createRound 100 (some 0)), .invoke [3] (.placeBet 3 70 .up),
      .invoke [1] (.control (.addDenylisted 3))])).any fun chain =>
        decide (chain.storage.rounds.position.get (1, 3) = some ⟨70, .up⟩) &&
        decide (chain.accessLists.getAccessPolicy 3 = (false, .denylisted)) &&
        (chain.performAll trialHost [.invoke [4] (.placeBet 4 30 .down),
          .invoke [1] (.control (.setAccessControlEnabled true))]).isSome) = true := by
    decide +kernel
  obtain ⟨chain, hchain, hfits⟩ := (Option.any_eq_true _ _).mp htrial
  simp only [Bool.and_eq_true, decide_eq_true_eq] at hfits
  obtain ⟨⟨hposition, hpolicy⟩, hrest⟩ := hfits
  obtain ⟨chain', hchain'⟩ := Option.isSome_iff_exists.mp hrest
  obtain ⟨trace, hrun, hlabels⟩ := run_of_performAll hchain'
  have hreachable := reachable_of_performAll hchain
  obtain ⟨hafter, -, halone⟩ := access_lists_followed hreachable hrun 3
  have hlength : trace.length = 2 := by simpa using congrArg List.length hlabels
  rw [hlabels, hpolicy] at hafter halone
  refine ⟨trace, chain, chain', hreachable, hrun, hposition, hafter, halone fun n hn => ?_⟩
  rw [hlength] at hn
  have hcases : n = 0 ∨ n = 1 := by omega
  rcases hcases with rfl | rfl <;> decide

end XelmaMarket
