import XelmaMarket.Harness
import XelmaMarket.Lib.Simulation
import XelmaMarket.Pause
import XelmaMarket.RoundStatus

/-!
# The market as its monitors see it

The monitoring queries read a runtime mode and the phase of the open round. This view moves by the
rules of a small machine: which activity is let through in which mode and phase, and what it does to
them. Every run of the contract is a run of the machine.
-/

namespace XelmaMarket

open Transaction

variable {A : Type}

/-! ## Queries -/

/-- Global status of the protocol. -/
inductive ProtocolStatus where
  | active
  | paused
  | claimsOnly
  deriving DecidableEq, Repr

/-- The number of a phase; 0 stands for no round. -/
def RoundPhase.value : RoundPhase → ℕ
  | .betting => 1
  | .running => 2
  | .resolvable => 3

/-- Composite protocol health status. -/
structure ProtocolHealthStatus where
  paused : Bool
  oracleLive : Bool
  oracleStatus : ℕ
  hasActiveRound : Bool
  activeRoundPhase : ℕ
  schemaVersion : ℕ
  ledgerSequence : ℕ
  ledgerTimestamp : ℕ
  statusCode : ℕ
  deriving DecidableEq, Repr

/-- The global status: a pause first, then whether a round is active. -/
def Storage.getProtocolStatus (s : Storage A) : ProtocolStatus :=
  if s.control.settings.isPaused then
    .paused
  else if s.rounds.activeRound.isSome then
    .active
  else
    .claimsOnly

/-- The phase of the active round. -/
def Storage.getRoundPhase (s : Storage A) (ledgerSequence : ℕ) : Except Failure RoundPhase :=
  match s.rounds.activeRound with
  | none => throw (.err .noActiveRound)
  | some round => return deriveRoundPhase ledgerSequence round

/-- Whether the oracle has a heartbeat that is neither stale nor offline. -/
def Settings.isOracleLive (settings : Settings) (currentTime : ℕ) : Bool :=
  match settings.oracleHeartbeat with
  | none => false
  | some record =>
      if record.status = 2 then
        false
      else
        let threshold := settings.oracleStaleThreshold.getD defaultOracleStaleThreshold
        decide (currentTime ≤ saturatingAddUint 64 record.timestamp threshold)

/-- Whether the policy gate lets an action class through. -/
def Settings.isActionAllowed (settings : Settings) (action : PolicyAction) : Bool :=
  decide (¬ settings.currentMode.blocks action)

/-- The oracle in the health status: whether it is live, and the status of its heartbeat. -/
def Settings.oracleHealth (settings : Settings) (currentTime : ℕ) : Bool × ℕ :=
  match settings.oracleHeartbeat with
  | none => (false, 3)
  | some record =>
      if record.status = 2 then
        (false, record.status)
      else
        let threshold := settings.oracleStaleThreshold.getD defaultOracleStaleThreshold
        (decide (currentTime ≤ saturatingAddUint 64 record.timestamp threshold), record.status)

/-- The active round in the health status: whether there is one, and the number of its phase. -/
def Rounds.roundHealth (rounds : Rounds A) (ledgerSequence : ℕ) : Bool × ℕ :=
  match rounds.activeRound with
  | none => (false, 0)
  | some round => (true, (deriveRoundPhase ledgerSequence round).value)

/-- The composite health of the protocol; two issues at once have a code of their own. -/
def Storage.getProtocolHealth (s : Storage A) (ledger : Ledger) : ProtocolHealthStatus :=
  let paused := s.control.settings.isPaused
  let oracle := s.control.settings.oracleHealth ledger.timestamp
  let round := s.rounds.roundHealth ledger.sequence
  let isClaimsOnly := decide (s.control.settings.currentMode = .claimsOnly)
  let stale := round.1 && decide (round.2 = 3)
  let issues := paused.toNat + (!oracle.1).toNat + stale.toNat
  let statusCode :=
    if paused then 1
    else if issues > 1 then 5
    else if isClaimsOnly then 6
    else if !oracle.1 then 2
    else if stale then 3
    else if !round.1 then 4
    else 0
  { paused
    oracleLive := oracle.1
    oracleStatus := oracle.2
    hasActiveRound := round.1
    activeRoundPhase := round.2
    schemaVersion := s.control.settings.schemaVersion.getD 1
    ledgerSequence := ledger.sequence
    ledgerTimestamp := ledger.timestamp
    statusCode }

/-! ## The view -/

/-- What the monitors see: the runtime mode and the phase of the open round. -/
structure MarketView where
  mode : RuntimeMode
  phase : Option RoundPhase
  deriving DecidableEq, Repr

/-- The phase of the active round at a ledger. -/
def Rounds.phaseAt (rounds : Rounds A) (ledgerSequence : ℕ) : Option RoundPhase :=
  rounds.activeRound.map (deriveRoundPhase ledgerSequence)

/-- The view of a chain. -/
def Chain.view (chain : Chain A) : MarketView where
  mode := chain.storage.control.settings.currentMode
  phase := chain.storage.rounds.phaseAt chain.ledger.sequence

/-- The global status of a view. -/
def MarketView.status (view : MarketView) : ProtocolStatus :=
  if view.mode = .fullyPaused then .paused
  else if view.phase = none then .claimsOnly
  else .active

/-- The health code of a view, for an oracle that is live or not. -/
def MarketView.healthCode (view : MarketView) (oracleLive : Bool) : ℕ :=
  if view.mode = .fullyPaused then 1
  else if oracleLive = false ∧ view.phase = some .resolvable then 5
  else if view.mode = .claimsOnly then 6
  else if oracleLive = false then 2
  else if view.phase = some .resolvable then 3
  else if view.phase = none then 4
  else 0

/-- The status query shows the status of the view. -/
theorem getProtocolStatus_eq (chain : Chain A) :
    chain.storage.getProtocolStatus = chain.view.status := by
  unfold Storage.getProtocolStatus MarketView.status Settings.isPaused Chain.view Rounds.phaseAt
  cases chain.storage.rounds.activeRound <;> simp

/-- The phase query shows the phase of the view, and fails where it shows none. -/
theorem getRoundPhase_eq (chain : Chain A) :
    chain.storage.getRoundPhase chain.ledger.sequence =
      chain.view.phase.elim (throw (.err .noActiveRound)) pure := by
  unfold Storage.getRoundPhase Chain.view Rounds.phaseAt
  cases chain.storage.rounds.activeRound <;> rfl

/-- The health query repeats what the other queries answer, and its code is that of the view. -/
theorem getProtocolHealth_eq (chain : Chain A) :
    let health := chain.storage.getProtocolHealth chain.ledger
    health.oracleLive = chain.storage.control.settings.isOracleLive chain.ledger.timestamp ∧
      health.activeRoundPhase = chain.view.phase.elim 0 RoundPhase.value ∧
      health.statusCode = chain.view.healthCode health.oracleLive := by
  unfold Storage.getProtocolHealth
  refine ⟨?_, ?_, ?_⟩
  · show (chain.storage.control.settings.oracleHealth chain.ledger.timestamp).1 = _
    unfold Settings.oracleHealth Settings.isOracleLive
    cases chain.storage.control.settings.oracleHeartbeat with
    | none => rfl
    | some record => by_cases hoffline : record.status = 2 <;> simp [hoffline]
  · show (chain.storage.rounds.roundHealth chain.ledger.sequence).2 = _
    unfold Rounds.roundHealth Chain.view Rounds.phaseAt
    cases chain.storage.rounds.activeRound <;> rfl
  · -- the code depends on the liveness, the mode and the phase only
    generalize chain.storage.control.settings.oracleHealth chain.ledger.timestamp = oracle
    obtain ⟨oracleLive, oracleStatus⟩ := oracle
    unfold Settings.isPaused Rounds.roundHealth MarketView.healthCode Chain.view Rounds.phaseAt
    cases chain.storage.control.settings.currentMode <;> cases oracleLive <;>
      cases chain.storage.rounds.activeRound with
      | none => simp
      | some round =>
          cases hphase : deriveRoundPhase chain.ledger.sequence round <;>
            simp [hphase, RoundPhase.value]

/-! ## The machine -/

/-- What an action means for the view. -/
inductive Activity where
  | opening
  | betting
  | playing
  | settling
  | cancelling
  | finalizing
  | voiding
  | switching (mode : RuntimeMode)
  | other (policy : Option PolicyAction)
  | waiting
  deriving DecidableEq, Repr

/-- The action class the policy gate checks an activity under. A cancellation and a switch of the
mode are let through in every mode. -/
def Activity.policyAction : Activity → Option PolicyAction
  | .opening => some .adminConfig
  | .betting | .playing => some .roundMutation
  | .settling | .finalizing | .voiding => some .settlement
  | .other policy => policy
  | .cancelling | .switching _ | .waiting => none

/-- The mode an activity switches to. -/
def Activity.target : Activity → Option RuntimeMode
  | .switching mode => some mode
  | _ => none

/-- Whether an activity is one of a round's. -/
def Activity.isRoundActivity : Activity → Bool
  | .switching _ | .other _ | .waiting => false
  | _ => true

/-- Whether an activity takes the open round away. -/
def Activity.closes : Activity → Bool
  | .settling | .cancelling | .finalizing => true
  | _ => false

/-- The phases an activity is let through in, and the phase it leads to. -/
inductive Activity.Moves : Activity → Option RoundPhase → Option RoundPhase → Prop where
  | opening : Moves .opening none (some .betting)
  | betting : Moves .betting (some .betting) (some .betting)
  | playing : Moves .playing (some .running) (some .running)
  | settling : Moves .settling (some .resolvable) none
  | cancelling (phase : RoundPhase) : Moves .cancelling (some phase) none
  | finalizing (phase : Option RoundPhase) : Moves .finalizing phase none
  | voiding (phase : Option RoundPhase) : Moves .voiding phase phase
  | switching (mode : RuntimeMode) (phase : Option RoundPhase) :
      Moves (.switching mode) phase phase
  | other (policy : Option PolicyAction) (phase : Option RoundPhase) :
      Moves (.other policy) phase phase
  | idling : Moves .waiting none none
  | waiting (phase later : RoundPhase) (hlater : phase.value ≤ later.value) :
      Moves .waiting (some phase) (some later)

/-- A step of the machine. -/
structure MarketView.Step (view : MarketView) (activity : Activity) (view' : MarketView) :
    Prop where
  gate : ∀ action, activity.policyAction = some action → ¬ view.mode.blocks action
  mode : view'.mode = activity.target.getD view.mode
  phase : activity.Moves view.phase view'.phase

/-- How an activity may change the global status: opening a round activates the protocol, taking it
away leaves only claims, and a switch of the mode pauses or resumes it. -/
inductive StatusChange : ProtocolStatus → Activity → ProtocolStatus → Prop where
  | kept (status : ProtocolStatus) (activity : Activity) : StatusChange status activity status
  | opened : StatusChange .claimsOnly .opening .active
  | closed (activity : Activity) (hcloses : activity.closes = true) :
      StatusChange .active activity .claimsOnly
  | paused (status : ProtocolStatus) :
      StatusChange status (.switching .fullyPaused) .paused
  | resumed (mode : RuntimeMode) (status : ProtocolStatus) (hmode : mode ≠ .fullyPaused) :
      StatusChange .paused (.switching mode) status

section Machine

variable {start finish view view' : MarketView} {activity : Activity}
  {trace : List (Transition MarketView Activity)}

/-- A phase appears when a round is opened only. -/
theorem Activity.Moves.opens {phase phase' : Option RoundPhase}
    (hmoves : activity.Moves phase phase') (hnone : phase = none) (hsome : phase' ≠ none) :
    activity = .opening := by
  cases hmoves with
  | opening => rfl
  | betting | playing | settling | cancelling | waiting => cases hnone
  | finalizing | idling => exact absurd rfl hsome
  | voiding | switching | other => exact absurd hnone hsome

/-- A phase that stays was not taken away. -/
theorem Activity.Moves.stays_open {phase phase' : Option RoundPhase}
    (hmoves : activity.Moves phase phase') (hsome : phase' ≠ none) : activity.closes = false := by
  cases hmoves with
  | settling | cancelling | finalizing => exact absurd rfl hsome
  | _ => rfl

/-- Where a round is open and was not at the start, it was opened, and nothing took it away since. -/
theorem open_since (hrun : Run MarketView.Step start trace finish) (hstart : start.phase = none)
    (hfinish : finish.phase ≠ none) :
    Since (fun transition => transition.label = .opening)
      (fun transition => transition.label.closes = false) trace :=
  hrun.since (p := fun view => view.phase ≠ none) (fun h => h hstart) hfinish
    (fun _ hstep hbefore hafter => hstep.phase.opens (not_not.mp hbefore) hafter)
    fun _ hstep _ hafter => hstep.phase.stays_open hafter

/-- The machine changes the status in the documented ways only. -/
theorem MarketView.Step.statusChange (hstep : view.Step activity view') :
    StatusChange view.status activity view'.status := by
  obtain ⟨mode, phase⟩ := view
  obtain ⟨mode', phase'⟩ := view'
  obtain ⟨-, hmode, hmoves⟩ := hstep
  obtain rfl : mode' = activity.target.getD mode := hmode
  -- a paused protocol shows nothing but the switch that resumes it
  by_cases hpaused : mode = .fullyPaused
  · subst hpaused
    show StatusChange .paused _ _
    cases activity with
    | switching mode =>
        by_cases hstill : mode = .fullyPaused
        · subst hstill
          exact .paused _
        · exact .resumed mode _ hstill
    | _ => exact .kept _ _
  · have hshown : ∀ phase, MarketView.status ⟨mode, phase⟩ =
        if phase = none then .claimsOnly else .active := fun _ => if_neg hpaused
    cases hmoves with
    | opening =>
        show StatusChange (MarketView.status ⟨mode, none⟩) _ (MarketView.status ⟨mode, _⟩)
        rw [hshown, hshown]
        exact .opened
    | settling | cancelling =>
        show StatusChange (MarketView.status ⟨mode, some _⟩) _ (MarketView.status ⟨mode, none⟩)
        rw [hshown, hshown]
        exact .closed _ rfl
    | finalizing =>
        show StatusChange (MarketView.status ⟨mode, phase⟩) _ (MarketView.status ⟨mode, none⟩)
        rw [hshown, hshown]
        cases phase with
        | none => exact .kept _ _
        | some phase => exact .closed _ rfl
    | switching mode' =>
        by_cases hpauses : mode' = .fullyPaused
        · subst hpauses
          exact .paused _
        · show StatusChange (MarketView.status ⟨mode, phase⟩) _ (MarketView.status ⟨mode', phase⟩)
          rw [hshown, MarketView.status, if_neg hpauses]
          exact .kept _ _
    | betting | playing | voiding | other | idling => exact .kept _ _
    | waiting phase later =>
        show StatusChange (MarketView.status ⟨mode, some phase⟩) _
          (MarketView.status ⟨mode, some later⟩)
        rw [hshown, hshown]
        exact .kept _ _

end Machine

/-! ## The activity of a call -/

/-- The mode the action of a proposal switches to. -/
def GovAction.switchesTo : GovAction A → Option RuntimeMode
  | .pauseProtocol => some .fullyPaused
  | .unpauseProtocol => some .normal
  | _ => none

/-- The mode an administrative call switches to. -/
def ControlCall.switchesTo : ControlCall A → Option RuntimeMode
  | .initializeContract .. | .unpauseContract => some .normal
  | .pauseContract => some .fullyPaused
  | .setRuntimeMode mode => runtimeModeOf mode
  | _ => none

/-- The mode a call switches to. -/
def Call.switchesTo (control : Control A) : Call A → Option RuntimeMode
  | .control call => call.switchesTo
  | .executeGovProposal _ proposalId =>
      (control.governance.govProposal.get proposalId).bind (·.action.switchesTo)
  | _ => none

/-- What a call means for the view. -/
def Call.activity (control : Control A) (call : Call A) : Activity :=
  match call with
  | .createRound .. | .createNextFromTemplate => .opening
  | .placeBet .. | .placePrecisionPrediction .. | .predictPrice .. | .commitPrediction .. =>
      .betting
  | .revealPrediction .. | .cashOutEarly _ => .playing
  | .resolveRound _ | .resolveRoundMulti _ => .settling
  | .cancelRound _ => .cancelling
  | .finalizeRound _ => .finalizing
  | .voidRound _ => .voiding
  | call => (call.switchesTo control).elim (.other call.policyAction) .switching

/-- What a transition means for the view. -/
def activityOf (transition : Transition (Chain A) (Action A)) : Activity :=
  match transition.label with
  | .invoke _ call => call.activity transition.before.storage.control
  | .closeLedger _ | .expire _ => .waiting

section Modes

variable {env : Env A} {control control' : Control A}

/-- An activity switches to the mode its call switches to. -/
theorem Call.activity_target (call : Call A) :
    (call.activity control).target = call.switchesTo control := by
  have hdefault : ∀ (switch : Option RuntimeMode) policy,
      (switch.elim (.other policy) Activity.switching).target = switch := by
    intro switch policy
    cases switch <;> rfl
  cases call with
  | control | executeGovProposal => exact hdefault _ _
  | _ => rfl

/-- The action of a proposal switches the mode as it says. -/
theorem Control.enact_currentMode (control : Control A) (action : GovAction A) :
    (control.enact action).settings.currentMode =
      action.switchesTo.getD control.settings.currentMode := by
  cases action with
  | pauseProtocol | unpauseProtocol => exact control.withMode_currentMode _
  | _ => rfl

/-- An administrative call switches the mode as it says, or leaves it alone. -/
theorem ControlEffect.currentMode [DecidableEq A] {call : ControlCall A}
    (heffect : ControlEffect env control call control') :
    control'.settings.currentMode = call.switchesTo.getD control.settings.currentMode := by
  have hplain : call.hasOwnEffect = false → call.switchesTo = none := by
    intro hown
    cases call with
    | initializeContract | pauseContract | unpauseContract | setRuntimeMode => cases hown
    | _ => rfl
  cases heffect with
  | initialized => rfl
  | switched call mode hswitches =>
      rw [Control.withMode_currentMode]
      cases hswitches with
      | pause | unpause => rfl
      | set number _ hnumber =>
          show mode = (runtimeModeOf number).getD _
          rw [hnumber]
          rfl
  | configured call payload hown =>
      rw [hplain hown]
      cases payload <;> rfl
  | heartbeat call change hrewrites => cases hrewrites <;> rfl
  | deviation | attestation | approver | proposed | approved | cancelled => rfl
  | other call _ hown hsame =>
      rw [hplain hown]
      show control'.settings.paused.getD .normal = control.settings.paused.getD .normal
      rw [hsame.mode]

/-- A successful call switches the mode as it says, or leaves it alone. -/
theorem ControlChange.currentMode [LinearOrder A] {s s' : Storage A} {call : Call A}
    (hchange : ControlChange env s call s') :
    s'.control.settings.currentMode =
      (call.switchesTo s.control).getD s.control.settings.currentMode := by
  cases hchange with
  | administered call _ heffect => exact heffect.currentMode
  | executed executor proposalId proposal _ hexecutes =>
      have hswitch : (Call.executeGovProposal executor proposalId).switchesTo s.control =
          proposal.action.switchesTo := by
        show (s.control.governance.govProposal.get proposalId).bind _ = _
        rw [hexecutes.stored]
        rfl
      rw [hswitch, hexecutes.control]
      exact s.control.enact_currentMode proposal.action
  | submitted call startLedger config armed _ hbound _ hcontrol =>
      rw [hcontrol]
      cases call with
      | resolveRound | resolveRoundMulti => rfl
      | _ => cases hbound
  | kept call _ hplain hsame =>
      show s'.control.settings.paused.getD .normal = _
      rw [hsame.mode]
      cases call with
      | control | executeGovProposal | resolveRound | resolveRoundMulti => cases hplain
      | _ => rfl

end Modes

/-! ## The gate -/

section Gate

variable [LinearOrder A] {env : Env A} {s : Storage A}

/-- Outside the normal mode no round mutation returns. -/
theorem Call.ensures_mutation_blocked (hmode : s.control.settings.currentMode ≠ .normal)
    {call : Call A} (hlisted : call.policyAction = some .roundMutation) :
    Ensures call.exec env s fun _ _ => False := by
  have hgate : ∀ post : PUnit → Control A → Prop,
      Ensures (policyGate .roundMutation) env s.control post ↔ True := by
    simp [RuntimeMode.blocks, hmode]
  cases call with
  | control call =>
      cases call with
      | applyScheduledChanges kind =>
          simp [Call.exec, ControlCall.exec, XelmaMarket.applyScheduledChanges, ensureNormalMode,
            ↓ensures_onControl, ↓ensures_bind, ↓ensures_requireSupportedSchema, ↓hgate]
      | _ => cases hlisted
  | placeBet | placePrecisionPrediction | predictPrice | commitPrediction | revealPrediction
  | mintInitial | cashOutEarly =>
      simp [Call.exec, discardResult, XelmaMarket.placeBet, XelmaMarket.placePrecisionPrediction,
        XelmaMarket.predictPrice, XelmaMarket.commitPrediction, XelmaMarket.revealPrediction,
        XelmaMarket.mintInitial, XelmaMarket.cashOutEarly, ensureNormalMode, ↓ensures_bind,
        ↓ensures_onControl, ↓ensures_requireSupportedSchema, ↓ensures_requireAuth, ↓hgate]
  | _ => cases hlisted

/-- A call that returns was let through by the gate of its class. -/
theorem Call.ensures_gated {call : Call A} {action : PolicyAction}
    (hlisted : call.policyAction = some action) (hother : ∀ reason, call ≠ .cancelRound reason) :
    Ensures call.exec env s fun _ _ => ¬ s.control.settings.currentMode.blocks action := by
  by_cases hpaused : s.control.settings.currentMode = .fullyPaused
  · refine (Call.ensures_blocked hpaused ?_ hother).mono fun _ _ hnever => hnever.elim
    rw [hlisted]
    rfl
  · cases action with
    | roundMutation =>
        by_cases hmode : s.control.settings.currentMode = .normal
        · exact fun _ _ _ hblocks => hblocks hmode
        · exact (Call.ensures_mutation_blocked hmode hlisted).mono
            fun _ _ hnever => hnever.elim
    | claim | adminConfig | settlement => exact fun _ _ _ => hpaused

omit [LinearOrder A] in
/-- The class of an activity is the class of its call. -/
theorem Call.activity_policyAction {control : Control A} {call : Call A} {action : PolicyAction}
    (hactivity : (call.activity control).policyAction = some action) :
    call.policyAction = some action ∧ ∀ reason, call ≠ .cancelRound reason := by
  have hdefault : ∀ switch : Option RuntimeMode,
      (switch.elim (.other call.policyAction) Activity.switching).policyAction = some action →
      call.policyAction = some action := by
    intro switch h
    cases switch with
    | none => exact h
    | some mode => cases h
  cases call with
  | cancelRound => cases hactivity
  | control | executeGovProposal => exact ⟨hdefault _ hactivity, fun _ h => by cases h⟩
  | _ => exact ⟨hactivity, fun _ h => by cases h⟩

end Gate

/-! ## The phases -/

section Phases

variable [LinearOrder A] {env : Env A} {s s' : Storage A} {call : Call A}

omit [LinearOrder A] in
theorem Rounds.phaseAt_eq {rounds : Rounds A} {round : Round} {ledger : ℕ}
    (hactive : rounds.activeRound = some round) :
    rounds.phaseAt ledger = some (deriveRoundPhase ledger round) := by
  unfold Rounds.phaseAt
  rw [hactive]
  rfl

/-- A round on the same terms is in the same phase. -/
theorem deriveRoundPhase_of_sameTerms {round round' : Round} (hterms : round.SameTerms round')
    (ledger : ℕ) : deriveRoundPhase ledger round' = deriveRoundPhase ledger round := by
  rw [hterms]
  rfl

omit [LinearOrder A] in
/-- A submitted price settles. -/
theorem Call.activity_of_price {control : Control A} {finalPrice : ℕ}
    (hprice : call.price = some finalPrice) : call.activity control = .settling := by
  cases call with
  | resolveRound | resolveRoundMulti => rfl
  | _ => cases hprice

/-- A call that is none of a round's leaves the rounds alone. -/
theorem Effect.same_rounds (heffect : Effect env s call s')
    (hother : (call.activity s.control).isRoundActivity = false) : s'.rounds = s.rounds := by
  cases heffect with
  | quiet _ _ hsame => exact hsame.rounds
  | mint _ _ _ _ _ hsame | treasuryAddress _ _ _ _ _ _ _ _ hsame | payFee _ _ _ _ _ _ _ hsame
  | payFund _ _ _ _ _ _ _ hsame | topUp _ _ _ _ _ _ _ hsame
  | reclaim _ _ _ _ _ _ _ _ _ _ _ hsame | claim _ _ _ _ _ _ hsame => exact hsame.rounds
  | openRound _ _ _ hcall => rcases hcall with ⟨_, _, rfl⟩ | rfl <;> cases hother
  | stake _ _ _ _ _ _ _ _ _ _ hplaced =>
      generalize s'.rounds = rounds at hplaced
      cases hplaced with
      | bet | commit => cases hother
      | predict _ _ hcall => rcases hcall with rfl | rfl <;> cases hother
  | reveal | cashOut => cases hother
  | stage _ _ _ _ hprice =>
      rw [Call.activity_of_price hprice] at hother
      cases hother
  | ending _ _ _ hending =>
      cases Call.endsBy hending with
      | resolved _ _ _ hprice | fallbackRefund _ _ _ hprice =>
          rw [Call.activity_of_price hprice] at hother
          cases hother
      | cancelled | voided | finalized => cases hother

/-- A call that opens a round finds none and leaves one that takes bets. -/
theorem Call.ensures_opening (hwindows : s.control.settings.WindowsOrdered)
    (hcall : (∃ startPrice mode, call = .createRound startPrice mode) ∨
      call = .createNextFromTemplate) :
    Ensures call.exec env s fun _ s' => s.rounds.phaseAt env.ledger.sequence = none ∧
      s'.rounds.phaseAt env.ledger.sequence = some .betting := by
  refine (Call.ensures_opens hcall).mono ?_
  rintro _ s' ⟨round, hopens⟩
  have hactive : s'.rounds.activeRound = some round := by
    rw [hopens.rounds]
    rfl
  have hopen : env.ledger.sequence < round.betEndLedger := by
    have hwindow := hwindows.1
    rw [hopens.windows.1, hopens.start.1]
    omega
  refine ⟨?_, ?_⟩
  · unfold Rounds.phaseAt
    rw [hopens.active]
    rfl
  · rw [Rounds.phaseAt_eq hactive, deriveRoundPhase, if_pos hopen]

/-- A stake is placed while betting is open, and leaves it open. -/
theorem StakeAllowed.phases {round : Round} {user : A} {amount : ℤ} {rounds' : Rounds A}
    (hallowed : StakeAllowed env s round user amount)
    (hplaced : Placement s.rounds round user amount call rounds') :
    s.rounds.phaseAt env.ledger.sequence = some .betting ∧
      rounds'.phaseAt env.ledger.sequence = some .betting := by
  obtain ⟨round', hactive, hterms⟩ := hplaced.sameTerms hallowed.active
  have hphase : deriveRoundPhase env.ledger.sequence round = .betting := if_pos hallowed.early
  rw [Rounds.phaseAt_eq hallowed.active, Rounds.phaseAt_eq hactive,
    deriveRoundPhase_of_sameTerms hterms, hphase]
  exact ⟨rfl, rfl⟩

/-- A round that runs is in the phase that runs. -/
theorem deriveRoundPhase_of_running {round : Round} {ledger : ℕ} (hrunning : round.Running ledger) :
    deriveRoundPhase ledger round = .running := by
  unfold deriveRoundPhase
  rw [if_neg (not_lt.mpr hrunning.1), if_pos hrunning.2]

/-- Every end of a round but a void takes the active round away. -/
theorem phaseAt_roundsAfter {ending : Ending} (hkind : ending.kind ≠ .voided) (rounds : Rounds A)
    (ledger : ℕ) : (ending.roundsAfter rounds).phaseAt ledger = none := by
  obtain ⟨round, kind⟩ := ending
  cases kind with
  | voided => exact absurd rfl hkind
  | _ => rfl

omit [LinearOrder A] in
/-- A settlement of the active round is no void. -/
theorem resolution_not_voided {finalPrice : ℕ} {ending : Ending}
    (hresolution : s.resolution finalPrice = some ending) : ending.kind ≠ .voided := by
  unfold Storage.resolution at hresolution
  cases hactive : s.rounds.activeRound with
  | none =>
      rw [hactive] at hresolution
      cases hresolution
  | some round =>
      rw [hactive] at hresolution
      simp only at hresolution
      split_ifs at hresolution <;> obtain rfl := Option.some.inj hresolution <;> simp

/-- A submission finds a round past its end and takes it away. -/
theorem Settled.phases {round : Round} {finalPrice : ℕ}
    (hended : round.endLedger ≤ env.ledger.sequence) (hwindows : round.WindowsOrdered)
    (hsettled : Settled env s round finalPrice s') :
    s.rounds.phaseAt env.ledger.sequence = some .resolvable ∧
      s'.rounds.phaseAt env.ledger.sequence = none := by
  have hbetEnd : ¬ env.ledger.sequence < round.betEndLedger := by
    unfold Round.WindowsOrdered at hwindows
    omega
  have hphase : deriveRoundPhase env.ledger.sequence round = .resolvable := by
    unfold deriveRoundPhase
    rw [if_neg hbetEnd, if_neg (by omega)]
  rw [Rounds.phaseAt_eq hsettled.active, hphase]
  refine ⟨rfl, ?_⟩
  cases hresolution : s.resolution finalPrice with
  | none =>
      obtain ⟨pending, -, -, -, -, hrounds, -⟩ := hsettled.staged hresolution
      rw [hrounds]
      rfl
  | some ending =>
      rw [(hsettled.ends ending hresolution).rounds]
      exact phaseAt_roundsAfter (resolution_not_voided hresolution) _ _

/-- A cash-out happens while the round runs, and leaves it on its terms. -/
theorem Effect.cashOut_rounds {user : A} (heffect : Effect env s (.cashOutEarly user) s') :
    ∃ round round', s.rounds.activeRound = some round ∧ s'.rounds.activeRound = some round' ∧
      round.SameTerms round' ∧ round.Running env.ledger.sequence := by
  generalize hcall : Call.cashOutEarly user = call at heffect
  cases heffect with
  | cashOut round _ position _ _ hround _ _ _ _ _ _ hrounds _ hrunning =>
      refine ⟨round, round.withPool position.side (-position.amount), hround, ?_,
        withPool_sameTerms _ _ _, hrunning⟩
      rw [hrounds]
      rfl
  | quiet _ _ _ _ _ hstays => exact absurd hcall.symm (hstays user)
  | payFee _ _ _ _ hother | payFund _ _ _ _ hother =>
      rcases hother with rfl | ⟨_, _, rfl⟩ <;> cases hcall
  | claim _ _ _ hother => rcases hother with ⟨_, rfl, -⟩ | rfl <;> cases hcall
  | openRound _ _ _ hother => rcases hother with ⟨_, _, rfl⟩ | rfl <;> cases hcall
  | stake _ _ _ _ _ _ _ _ _ _ hplaced => exact absurd hcall.symm (hplaced.not_cashOut user)
  | stage _ _ _ _ hprice | ending _ _ _ hending => subst hcall; contradiction
  | _ => cases hcall

omit [LinearOrder A] in
/-- The other calls have one of the other activities. -/
theorem Call.activity_other {control : Control A} (switch : Option RuntimeMode)
    (policy : Option PolicyAction) (phase : Option RoundPhase)
    (hactivity : call.activity control = switch.elim (.other policy) .switching) :
    (call.activity control).isRoundActivity = false ∧
      (call.activity control).Moves phase phase := by
  rw [hactivity]
  cases switch with
  | none => exact ⟨rfl, .other policy phase⟩
  | some mode => exact ⟨rfl, .switching mode phase⟩

/-- What a successful call does to the phase is what its activity does. -/
theorem Call.ensures_moves (hinorder : InOrder s) (hwindows : s.control.settings.WindowsOrdered)
    (htimed : s.rounds.Timed env.ledger.sequence) (call : Call A) :
    Ensures call.exec env s fun _ s' => (call.activity s.control).Moves
      (s.rounds.phaseAt env.ledger.sequence) (s'.rounds.phaseAt env.ledger.sequence) := by
  have hopening : ∀ call : Call A, (∃ startPrice mode, call = .createRound startPrice mode) ∨
      call = .createNextFromTemplate → Ensures call.exec env s fun _ s' =>
        Activity.opening.Moves (s.rounds.phaseAt env.ledger.sequence)
          (s'.rounds.phaseAt env.ledger.sequence) := by
    intro call hcall
    refine (Call.ensures_opening hwindows hcall).mono ?_
    rintro _ s' ⟨hbefore, hafter⟩
    rw [hbefore, hafter]
    exact .opening
  have hbetting : ∀ {round user amount} {call : Call A} {rounds' : Rounds A},
      StakeAllowed env s round user amount → Placement s.rounds round user amount call rounds' →
      Activity.betting.Moves (s.rounds.phaseAt env.ledger.sequence)
        (rounds'.phaseAt env.ledger.sequence) := by
    intro round user amount call rounds' hallowed hplaced
    obtain ⟨hbefore, hafter⟩ := hallowed.phases hplaced
    rw [hbefore, hafter]
    exact .betting
  have hactive : ∀ round, s.rounds.activeRound = some round → round.WindowsOrdered :=
    fun round hround => htimed.windows round.roundId round (.inl ⟨hround, rfl⟩)
  have hsettling : ∀ (call : Call A) startLedger, call.boundTo = some startLedger →
      Ensures call.exec env s fun _ s' =>
        Activity.settling.Moves (s.rounds.phaseAt env.ledger.sequence)
          (s'.rounds.phaseAt env.ledger.sequence) := by
    intro call startLedger hbound
    refine (Call.ensures_settled hinorder hbound).mono ?_
    rintro _ s' ⟨round, finalPrice, -, hended, -, hsettled⟩
    obtain ⟨hbefore, hafter⟩ := hsettled.phases hended (hactive round hsettled.active)
    rw [hbefore, hafter]
    exact .settling
  have hothers : ∀ (call : Call A) switch policy,
      call.activity s.control = Option.elim switch (.other policy) Activity.switching →
      Ensures call.exec env s fun _ s' => (call.activity s.control).Moves
        (s.rounds.phaseAt env.ledger.sequence) (s'.rounds.phaseAt env.ledger.sequence) := by
    intro call switch policy hactivity
    obtain ⟨hother, hmoves⟩ := Call.activity_other switch policy
      (s.rounds.phaseAt env.ledger.sequence) hactivity
    refine (Call.ensures_effect hinorder call).mono fun _ s' heffect => ?_
    rw [heffect.same_rounds hother]
    exact hmoves
  cases call with
  | createRound startPrice mode => exact hopening _ (.inl ⟨startPrice, mode, rfl⟩)
  | createNextFromTemplate => exact hopening _ (.inr rfl)
  | placeBet user amount side =>
      refine (placeBet_spec user amount side).mono ?_
      rintro _ _ ⟨round, hallowed, hmode, hnew, rfl⟩
      exact hbetting hallowed (.bet side hmode hnew)
  | placePrecisionPrediction user amount predictedPrice =>
      refine (placePrecisionPrediction_spec user amount predictedPrice).mono ?_
      rintro _ _ ⟨round, hallowed, hmode, hnew, -, rfl⟩
      exact hbetting hallowed (.predict _ predictedPrice (.inl rfl) hmode hnew)
  | predictPrice user guessedPrice amount =>
      refine (placePrecisionPrediction_spec user amount guessedPrice).mono ?_
      rintro _ _ ⟨round, hallowed, hmode, hnew, -, rfl⟩
      exact hbetting hallowed (.predict _ guessedPrice (.inr rfl) hmode hnew)
  | commitPrediction user hash amount =>
      refine (commitPrediction_spec user hash amount).mono ?_
      rintro _ _ ⟨round, hallowed, hmode, hnew, rfl⟩
      exact hbetting hallowed (.commit hash hmode hnew)
  | revealPrediction user predictedPrice salt =>
      refine (revealPrediction_spec user predictedPrice salt).mono ?_
      rintro _ _ ⟨round, commitment, hallowed, rfl⟩
      have hphase := deriveRoundPhase_of_running hallowed.running
      show Activity.playing.Moves (s.rounds.phaseAt _) (s.rounds.phaseAt _)
      rw [Rounds.phaseAt_eq hallowed.active, hphase]
      exact .playing
  | cashOutEarly user =>
      refine (cashOutEarly_effect user).mono fun _ s' heffect => ?_
      obtain ⟨round, round', hbefore, hafter, hterms, hrunning⟩ := heffect.cashOut_rounds
      rw [Rounds.phaseAt_eq hbefore, Rounds.phaseAt_eq hafter,
        deriveRoundPhase_of_sameTerms hterms, deriveRoundPhase_of_running hrunning]
      exact .playing
  | resolveRound payload => exact hsettling _ _ rfl
  | resolveRoundMulti payload => exact hsettling _ _ rfl
  | cancelRound reason =>
      cases hround : s.rounds.activeRound with
      | none => simp [Call.exec, XelmaMarket.cancelRound, readActiveRound, hround]
      | some round =>
          refine (cancelRound_spec hround
            (hinorder.represents round.roundId round (.inl ⟨hround, rfl⟩))
            (hinorder.stakes_fit round hround) reason).mono fun _ s' hends => ?_
          rw [hends.rounds, phaseAt_roundsAfter (by simp), Rounds.phaseAt_eq hround]
          exact .cancelling _
  | voidRound roundId =>
      cases hpending : s.rounds.pendingDisputes.get roundId with
      | none => simp [Call.exec, XelmaMarket.voidRound, readPendingDispute, hpending,
          ensureNotPaused]
      | some pending =>
          refine (voidRound_spec hpending (hinorder.pending_id roundId pending hpending)
            (hinorder.represents roundId pending.round
              (.inr ⟨pending, hpending, rfl⟩))).mono fun _ s' hends => ?_
          rw [hends.2.rounds]
          exact .voiding _
  | finalizeRound roundId =>
      cases hpending : s.rounds.pendingDisputes.get roundId with
      | none => simp [Call.exec, XelmaMarket.finalizeRound, readPendingDispute, hpending,
          ensureNotPaused]
      | some pending =>
          refine (finalizeRound_spec hpending (hinorder.pending_id roundId pending hpending)
            (hinorder.represents roundId pending.round (.inr ⟨pending, hpending, rfl⟩))
            hinorder.fee_capped).mono fun _ s' hends => ?_
          rw [hends.2.2.rounds, phaseAt_roundsAfter (by simp)]
          exact .finalizing _
  | control call => exact hothers _ call.switchesTo _ rfl
  | executeGovProposal executor proposalId => exact hothers _ _ _ rfl
  | _ => exact hothers _ none _ rfl

end Phases

/-! ## Runs -/

section Runs

variable [LinearOrder A] {host : Host A} {chain chain' start finish : Chain A} {action : Action A}
  {trace : List (Transition (Chain A) (Action A))}

/-- Phases only go forward with the ledger. -/
theorem deriveRoundPhase_mono {ledger ledger' : ℕ} (hledger : ledger ≤ ledger') (round : Round) :
    (deriveRoundPhase ledger round).value ≤ (deriveRoundPhase ledger' round).value := by
  unfold deriveRoundPhase
  split_ifs <;> first | omega | simp [RoundPhase.value]

/-- Every step of the contract is a step of the machine. -/
theorem Step.view (hstep : Step host chain action chain') (hhealthy : chain.Healthy)
    (htimed : chain.Timed) :
    chain.view.Step (activityOf ⟨chain, action, chain'⟩) chain'.view := by
  obtain ⟨signers, call, rfl⟩ | ⟨hidle, meter, hsame⟩ := hstep.invokes_or_idles
  · have hinorder : InOrder chain.storage :=
      Storage.Healthy.inOrder hhealthy chain.ledger.sequence_lt
    have hmoves := hstep.ensured (Call.ensures_moves hinorder htimed.windows htimed.rounds call)
    constructor
    · intro policy hpolicy
      obtain ⟨hlisted, hother⟩ := Call.activity_policyAction hpolicy
      exact hstep.ensured (Call.ensures_gated hlisted hother)
    · show _ = (call.activity chain.storage.control).target.getD _
      rw [Call.activity_target]
      exact hstep.controlChange.currentMode
    · show (call.activity chain.storage.control).Moves _
        (chain'.storage.rounds.phaseAt chain'.ledger.sequence)
      rw [hstep.ledger_eq]
      exact hmoves
  · have hwaiting : activityOf ⟨chain, action, chain'⟩ = .waiting := by
      cases action with
      | invoke signers call => exact absurd rfl (hidle signers call)
      | closeLedger | expire => rfl
    have hrounds : chain'.storage.rounds = chain.storage.rounds := by rw [hsame]
    rw [hwaiting]
    constructor
    · intro policy hpolicy
      cases hpolicy
    · show chain'.storage.control.settings.currentMode = _
      rw [hsame]
      rfl
    · -- no round is touched, and the ledger only takes its phase forward
      show Activity.waiting.Moves (chain.storage.rounds.phaseAt _)
        (chain'.storage.rounds.phaseAt _)
      rw [hrounds]
      unfold Rounds.phaseAt
      cases chain.storage.rounds.activeRound with
      | none => exact .idling
      | some round => exact .waiting _ _ (deriveRoundPhase_mono hstep.ledger_le round)

/-- Every run of the contract is a run of the machine of the monitors. No call gets past the gate
query, the global status changes in the documented ways only, and where a round is open that was
not, its opening is in the run and nothing took it away since. -/
theorem market_view_simulated (hreachable : Reachable host start)
    (hrun : Run (Step host) start trace finish) :
    Run MarketView.Step start.view (trace.map (Transition.observed Chain.view activityOf))
        finish.view ∧
      (∀ transition ∈ trace,
        (∀ policy, (activityOf transition).policyAction = some policy →
          transition.before.storage.control.settings.isActionAllowed policy = true) ∧
        StatusChange transition.before.storage.getProtocolStatus (activityOf transition)
          transition.after.storage.getProtocolStatus) ∧
      (start.storage.getRoundPhase start.ledger.sequence = .error (.err .noActiveRound) →
        ∀ phase, finish.storage.getRoundPhase finish.ledger.sequence = .ok phase →
          Since (fun transition => activityOf transition = .opening)
            (fun transition => (activityOf transition).closes = false) trace) := by
  have hviews : ∀ transition ∈ trace, transition.before.view.Step (activityOf transition)
      transition.after.view := by
    intro transition hmem
    obtain ⟨earlier, later, -, hearlier, hstep, -⟩ := hrun.around hmem
    obtain ⟨past, hhistory⟩ := reachable_of_run hreachable hearlier
    exact hstep.view hhistory.healthy hhistory.timed
  have hsimulated := hrun.simulate hviews
  refine ⟨hsimulated, fun transition hmem => ⟨fun policy hpolicy => ?_, ?_⟩, ?_⟩
  · exact decide_eq_true ((hviews transition hmem).gate policy hpolicy)
  · rw [getProtocolStatus_eq, getProtocolStatus_eq]
    exact (hviews transition hmem).statusChange
  · intro hstart phase hfinish
    rw [getRoundPhase_eq] at hstart hfinish
    refine (open_since hsimulated ?_ ?_).of_map
    · cases hphase : start.view.phase with
      | none => rfl
      | some phase =>
          rw [hphase] at hstart
          cases hstart
    · intro hnone
      rw [hnone] at hfinish
      cases hfinish

end Runs

/-- The pause of the trial contract hides the round a user bet in; the round was opened, and nothing
took it away since. -/
theorem paused_round_viewed : ∃ trace, ∃ chain : Chain ℕ, trace.map (·.label) = pausedRound ∧
    Run MarketView.Step ⟨.normal, none⟩ (trace.map (Transition.observed Chain.view activityOf))
      ⟨.fullyPaused, some .betting⟩ ∧
    chain.storage.getProtocolStatus = .paused ∧
    Since (fun transition => activityOf transition = .opening)
      (fun transition => (activityOf transition).closes = false) trace := by
  obtain ⟨trace, chain, ⟨ledger, hrun⟩, hlabels, hfits⟩ := exists_trial_history pausedRound
    (fun chain => decide (chain.view = ⟨.fullyPaused, some .betting⟩)) (by decide +kernel)
  have hview := of_decide_eq_true hfits
  obtain ⟨hviewed, -, hsince⟩ := market_view_simulated ⟨[], ledger, .nil _⟩ hrun
  have hphase : chain.storage.getRoundPhase chain.ledger.sequence = .ok .betting := by
    rw [getRoundPhase_eq, hview]
    rfl
  refine ⟨trace, chain, hlabels, ?_, ?_, hsince rfl .betting hphase⟩
  · rw [hview] at hviewed
    exact hviewed
  · rw [getProtocolStatus_eq, hview]
    rfl

end XelmaMarket
