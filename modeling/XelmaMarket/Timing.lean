import XelmaMarket.Isolation
import XelmaMarket.Timelock

/-!
# The timing of rounds

A round takes stakes before its bet end ledger, reveals and cash-outs from there to its end ledger,
and a price from then on, whatever is configured meanwhile. So its book is frozen from the end
ledger to its terminal operation. The record with its pools is not: finalizing another round drops
the active one.
-/

namespace XelmaMarket

open Transaction

variable {A : Type} [LinearOrder A] {host : Host A} {chain chain' : Chain A} {action : Action A}
  {trace : List (Transition (Chain A) (Action A))}

/-! ## Windows -/

/-- The configured windows: betting takes some time and ends before the round does. -/
def Settings.WindowsOrdered (settings : Settings) : Prop :=
  0 < settings.betWindowLedgers.getD defaultBetWindowLedgers ∧
    settings.betWindowLedgers.getD defaultBetWindowLedgers <
      settings.runWindowLedgers.getD defaultRunWindowLedgers

/-- The windows of a round: betting takes some time and ends before the round does. -/
def Round.WindowsOrdered (round : Round) : Prop :=
  0 < round.betEndLedger - round.startLedger ∧
    round.betEndLedger - round.startLedger < round.endLedger - round.startLedger

omit [LinearOrder A] in
/-- Validated windows are in order. -/
theorem passes_windows {bet run : ℕ} (hpasses : (ConfigChangePayload.windows bet run).Passes A)
    (env : Env A) (control : Control A) : 0 < bet ∧ bet < run := by
  obtain ⟨_, _, hrun, -⟩ := hpasses env control
  have hvalid : Ensures (validateWindows (A := A) bet run) env control fun _ _ =>
      0 < bet ∧ bet < run := by
    simp only [validateWindows, ensures_bind, ensures_reject]
    omega
  exact hvalid.elim hrun

omit [LinearOrder A] in
/-- A written payload keeps the windows in order: it is another setting, or validated windows. -/
theorem windowsOrdered_write {settings : Settings} {payload : ConfigChangePayload}
    (hordered : settings.WindowsOrdered)
    (hvalid : ∀ bet run, payload = .windows bet run → 0 < bet ∧ bet < run) :
    (settings.write payload).WindowsOrdered := by
  cases payload with
  | windows bet run => exact hvalid bet run rfl
  | _ => exact hordered

theorem SameTimelock.windowsOrdered {settings settings' : Settings}
    (hsame : SameTimelock settings settings') (hordered : settings.WindowsOrdered) :
    settings'.WindowsOrdered := by
  unfold Settings.WindowsOrdered
  rw [hsame.betWindow, hsame.runWindow]
  exact hordered

/-- Every step keeps the configured windows in order. -/
theorem Step.windowsOrdered (hkept : TimelockKept trace chain)
    (hstep : Step host chain action chain') (hordered : chain.settings.WindowsOrdered) :
    chain'.settings.WindowsOrdered := by
  cases hstep.timelockChange with
  | administered signers call _ heffect =>
      generalize chain'.settings = settings' at heffect ⊢
      cases heffect with
      | initialized admin oracle _ hsame => exact hsame.windowsOrdered (show 0 < 6 ∧ 6 < 12 by decide)
      | scheduled _ payload => exact hordered
      | applied kind pending hpending =>
          refine windowsOrdered_write hordered fun bet run hpayload => ?_
          have hpasses := hkept.passes kind pending hpending
          rw [hpayload] at hpasses
          exact passes_windows hpasses ⟨host, chain.ledger, signers⟩ chain.storage.control
      | cancelled => exact hordered
      | setNow _ payload _ hfree =>
          refine windowsOrdered_write hordered fun bet run hpayload => ?_
          rw [hpayload] at hfree
          cases hfree
      | other _ _ _ hsame => exact hsame.windowsOrdered hordered
  | executed signers executor proposalId proposal _ _ hsame =>
      exact hsame.windowsOrdered ((chain.storage.control.enact_timelock _).1.windowsOrdered hordered)
  | other _ _ schemaVersion _ _ hsame => exact hsame.windowsOrdered hordered

/-- The live rounds have their windows in order, and a staged round is past its end ledger. -/
structure Rounds.Timed (ledger : ℕ) (rounds : Rounds A) : Prop where
  windows : ∀ roundId round, rounds.IsLive roundId round → round.WindowsOrdered
  ended : ∀ roundId pending, rounds.pendingDisputes.get roundId = some pending →
    pending.round.endLedger ≤ ledger

section Timed

variable {env : Env A} {s s' : Storage A} {call : Call A} {ledger ledger' : ℕ}
  {rounds rounds' : Rounds A}

omit [LinearOrder A] in
theorem Rounds.Timed.later (htimed : rounds.Timed ledger) (hledger : ledger ≤ ledger') :
    rounds.Timed ledger' :=
  ⟨htimed.windows, fun roundId pending hpending =>
    (htimed.ended roundId pending hpending).trans hledger⟩

omit [LinearOrder A] in
/-- A change of the active round within its windows keeps the rounds timed. -/
theorem Rounds.Timed.touch (htimed : rounds.Timed ledger)
    (hactive : ∀ round', rounds'.activeRound = some round' → round'.WindowsOrdered)
    (hstaged : rounds'.pendingDisputes = rounds.pendingDisputes) : rounds'.Timed ledger := by
  refine ⟨fun roundId round hlive => ?_, fun roundId pending hpending => ?_⟩
  · rcases hlive with ⟨hround, -⟩ | ⟨pending, hpending, hround⟩
    · exact hactive round hround
    · rw [hstaged] at hpending
      exact htimed.windows roundId round (.inr ⟨pending, hpending, hround⟩)
  · rw [hstaged] at hpending
    exact htimed.ended roundId pending hpending

omit [LinearOrder A] in
theorem withPool_windowsOrdered {round : Round} {side : BetSide} {amount : ℤ} :
    (round.withPool side amount).WindowsOrdered ↔ round.WindowsOrdered := by
  cases side <;> rfl

/-- Every successful call keeps the rounds timed. -/
theorem Effect.timed (heffect : Effect env s call s')
    (hwindows : s.control.settings.WindowsOrdered)
    (htimed : s.rounds.Timed env.ledger.sequence) : s'.rounds.Timed env.ledger.sequence := by
  have hactive : ∀ round, s.rounds.activeRound = some round → round.WindowsOrdered :=
    fun round hround => htimed.windows round.roundId round (.inl ⟨hround, rfl⟩)
  cases heffect with
  | quiet _ _ hsame =>
      rw [hsame.rounds]
      exact htimed
  | mint _ _ _ _ _ hsame | treasuryAddress _ _ _ _ _ _ _ _ hsame | payFee _ _ _ _ _ _ _ hsame
  | payFund _ _ _ _ _ _ _ hsame | topUp _ _ _ _ _ _ _ hsame
  | reclaim _ _ _ _ _ _ _ _ _ _ _ hsame | claim _ _ _ _ _ _ hsame =>
      rw [hsame.rounds]
      exact htimed
  | openRound _ round _ _ _ _ _ _ _ hrounds _ hopens =>
      rw [hrounds]
      refine htimed.touch (fun opened hopened => ?_) rfl
      obtain rfl := Option.some.inj hopened
      obtain ⟨hbet, hrun⟩ := hwindows
      unfold Round.WindowsOrdered
      rw [hopens.1, hopens.2]
      omega
  | stake _ round user amount _ hround _ _ hamount _ hplaced =>
      generalize s'.rounds = rounds' at hplaced ⊢
      cases hplaced with
      | bet side =>
          refine htimed.touch (fun opened hopened => ?_) rfl
          obtain rfl := Option.some.inj hopened
          exact withPool_windowsOrdered.mpr (hactive round hround)
      | predict => exact htimed.touch hactive rfl
      | commit => exact htimed.touch hactive rfl
  | reveal round user price salt commitment _ _ _ _ _ _ hrounds =>
      rw [hrounds]
      exact htimed.touch hactive rfl
  | cashOut round user position penaltyBps _ hround _ _ _ _ _ _ hrounds =>
      rw [hrounds]
      refine htimed.touch (fun opened hopened => ?_) rfl
      obtain rfl := Option.some.inj hopened
      exact withPool_windowsOrdered.mpr (hactive round hround)
  | stage _ round pending _ _ hround hpending _ _ _ hrounds _ hended =>
      rw [hrounds]
      have hstaged : ∀ roundId other, (s.rounds.stage pending).pendingDisputes.get roundId =
          some other → other = pending ∨ s.rounds.pendingDisputes.get roundId = some other := by
        intro roundId other hget
        by_cases hid : roundId = pending.round.roundId
        · left
          rw [hid] at hget
          exact Option.some.inj (hget.symm.trans (Store.get_set_self _ _ _))
        · exact .inr ((Store.get_set_of_ne _ _ hid).symm.trans hget)
      refine ⟨fun roundId live hlive => ?_, fun roundId other hother => ?_⟩
      · rcases hlive with ⟨hnone, -⟩ | ⟨other, hother, rfl⟩
        · cases hnone
        · rcases hstaged roundId other hother with rfl | hbefore
          · exact hpending ▸ hactive round hround
          · exact htimed.windows roundId _ (.inr ⟨other, hbefore, rfl⟩)
      · rcases hstaged roundId other hother with rfl | hbefore
        · exact hpending ▸ hended
        · exact htimed.ended roundId other hbefore
  | ending _ ending _ _ hends =>
      rw [hends.rounds]
      have hstaged : ∀ roundId pending,
          (ending.roundsAfter s.rounds).pendingDisputes.get roundId = some pending →
          s.rounds.pendingDisputes.get roundId = some pending := fun _ _ => staged_of_roundsAfter
      refine ⟨fun roundId live hlive => ?_, fun roundId pending hpending => ?_⟩
      · rcases hlive with ⟨hround, -⟩ | ⟨pending, hpending, hround⟩
        · exact hactive live (active_of_roundsAfter hround)
        · exact htimed.windows roundId live (.inr ⟨pending, hstaged _ _ hpending, hround⟩)
      · exact htimed.ended roundId pending (hstaged _ _ hpending)

end Timed

/-- The configured windows are in order, and the rounds are timed. -/
structure Chain.Timed (chain : Chain A) : Prop where
  windows : chain.settings.WindowsOrdered
  rounds : chain.storage.rounds.Timed chain.ledger.sequence

theorem Step.timed (hstep : Step host chain action chain') (hhealthy : chain.Healthy)
    (hkept : TimelockKept trace chain) (htimed : chain.Timed) : chain'.Timed := by
  refine ⟨hstep.windowsOrdered hkept htimed.windows, ?_⟩
  obtain ⟨signers, call, rfl⟩ | ⟨-, meter, hsame⟩ := hstep.invokes_or_idles
  · rw [hstep.ledger_eq]
    exact (hhealthy.effect hstep).timed htimed.windows htimed.rounds
  · rw [hsame]
    exact htimed.rounds.later hstep.ledger_le

/-- Throughout every history the windows are in order and the rounds are timed. -/
theorem History.timed (hhistory : History host trace chain) : chain.Timed := by
  obtain ⟨ledger, hrun⟩ := hhistory
  have hstart : (Chain.genesis (A := A) ledger).Timed := by
    refine ⟨show 0 < 6 ∧ 6 < 12 by decide, ?_, fun _ _ hpending => by cases hpending⟩
    rintro _ _ (⟨hactive, -⟩ | ⟨_, hpending, -⟩)
    · cases hactive
    · cases hpending
  refine hrun.invariant_of_trace (fun _ chain => chain.Timed) hstart
    fun earlier transition hearlier hstep htimed => ?_
  have hbefore : History host earlier transition.before := ⟨ledger, hearlier⟩
  exact hstep.timed hbefore.healthy hbefore.timelockKept htimed

/-! ## The lines of a book -/

section Lines

variable {rounds rounds' : Rounds A} {round : Round} {user other : A} {amount : ℤ}

/-- A participant's line in the book of a round: the user, the side of a bet, and the stake. -/
def Rounds.lineOf (rounds : Rounds A) (round : Round) (user : A) : A × Option BetSide × ℤ :=
  (user, (rounds.position.get (round.roundId, user)).map (·.side),
    rounds.stakeOf round.mode round.roundId user)

/-- The lines of all participants. -/
def Rounds.lines (rounds : Rounds A) (round : Round) : Multiset (A × Option BetSide × ℤ) :=
  ((rounds.participants round.roundId).map (rounds.lineOf round) : List _)

omit [LinearOrder A] in
theorem SameBook.lineOf (hsame : SameBook rounds rounds' round.roundId) (user : A) :
    rounds'.lineOf round user = rounds.lineOf round user := by
  simp [Rounds.lineOf, hsame.position, hsame.stakeOf]

omit [LinearOrder A] in
theorem SameBook.lines (hsame : SameBook rounds rounds' round.roundId) :
    rounds'.lines round = rounds.lines round := by
  unfold Rounds.lines
  rw [hsame.participants]
  exact congrArg _ (List.map_congr_left fun user _ => hsame.lineOf user)

/-- A stake leaves the lines of the other users. -/
theorem Placement.lineOf {call : Call A} (hplaced : Placement rounds round user amount call rounds')
    (hother : other ≠ user) : rounds'.lineOf round other = rounds.lineOf round other := by
  cases hplaced with
  | bet side hmode =>
      simp [Rounds.lineOf, Rounds.stakeOf, hmode, bet_position_of_ne hother]
  | predict _ price _ hmode =>
      simp only [Rounds.lineOf, Rounds.stakeOf, precisionStake, hmode,
        predict_prediction_of_ne hother]
      rfl
  | commit hash hmode =>
      simp only [Rounds.lineOf, Rounds.stakeOf, precisionStake, hmode,
        commit_commitment_of_ne hother]
      rfl

/-- A stake adds the line of its user. -/
theorem Placement.lines {call : Call A} (hbook : Represents rounds round)
    (hactive : rounds.activeRound = some round) (hamount : 0 < amount)
    (hplaced : Placement rounds round user amount call rounds') :
    rounds'.lines round = rounds'.lineOf round user ::ₘ rounds.lines round := by
  have hjoined := hplaced.joined hbook hactive hamount
  have hkept : (rounds.participants round.roundId).map (rounds'.lineOf round) =
      (rounds.participants round.roundId).map (rounds.lineOf round) := by
    refine List.map_congr_left fun other hmem => hplaced.lineOf ?_
    rintro rfl
    exact hjoined.fresh hmem
  unfold Rounds.lines
  rw [hjoined.participants, List.map_append, hkept, Multiset.cons_coe, Multiset.coe_eq_coe]
  exact List.perm_append_singleton _ _

/-- A reveal leaves the lines. -/
theorem reveal_lines {commitment : PrecisionCommitment} {price : ℕ}
    (hbook : PrecisionBook rounds round) (hmode : round.mode = .precision)
    (hcommitment : rounds.precisionCommitment.get (round.roundId, user) = some commitment)
    (hhidden : commitment.revealed = false) :
    (rounds.reveal round user commitment price).lines round = rounds.lines round := by
  have hline : ∀ other, (rounds.reveal round user commitment price).lineOf round other =
      rounds.lineOf round other := by
    intro other
    unfold Rounds.lineOf
    rw [hmode, reveal_stakeOf hbook hcommitment hhidden]
    rfl
  exact congrArg _ (List.map_congr_left fun other _ => hline other)

/-- An early cash-out takes the line of its user. -/
theorem leave_lines {position : UserPosition} (hbook : Represents rounds round)
    (hmode : round.mode = .upDown)
    (hposition : rounds.position.get (round.roundId, user) = some position) :
    rounds.lineOf round user ::ₘ (rounds.leave round user position).lines round =
      rounds.lines round := by
  have hmem := ((hbook.upDown hmode).position_iff user).mp ⟨position, hposition⟩
  have hkept : ((rounds.participants round.roundId).filter (· ≠ user)).map
      ((rounds.leave round user position).lineOf round) =
      ((rounds.participants round.roundId).filter (· ≠ user)).map (rounds.lineOf round) := by
    refine List.map_congr_left fun other hother => ?_
    have hne : other ≠ user := by simpa using (List.mem_filter.mp hother).2
    simp [Rounds.lineOf, Rounds.stakeOf, hmode, leave_position_of_ne hne]
  have herase : (rounds.participants round.roundId).filter (· ≠ user) =
      (rounds.participants round.roundId).erase user := by
    rw [hbook.nodup.erase_eq_filter]
    exact List.filter_congr fun other _ => by simp [bne, Bool.beq_eq_decide_eq]
  unfold Rounds.lines
  rw [leave_participants, hkept, herase, Multiset.cons_coe, Multiset.coe_eq_coe, ← List.map_cons]
  exact (List.perm_cons_erase hmem).symm.map _

end Lines

/-! ## What a step does to a live round -/

/-- The record of a round is the same up to its pools. -/
def Round.SameTerms (round round' : Round) : Prop :=
  round' = { round with poolUp := round'.poolUp, poolDown := round'.poolDown }

theorem withPool_sameTerms (round : Round) (side : BetSide) (amount : ℤ) :
    round.SameTerms (round.withPool side amount) := by
  cases side <;> rfl

/-- Who cashes out of a round in a transition. -/
def leaver (transition : Transition (Chain A) (Action A)) (roundId : ℕ) : Option A :=
  match transition.label with
  | .invoke _ (.cashOutEarly user) =>
      if transition.before.storage.rounds.activeRound.map (·.roundId) = some roundId then
        some user
      else
        none
  | _ => none

/-- A transition finalizes a staged round while this one is active. -/
def DropsActive (transition : Transition (Chain A) (Action A)) (roundId : ℕ) : Prop :=
  ∃ signers stagedId round, transition.label = .invoke signers (.finalizeRound stagedId) ∧
    transition.before.storage.rounds.activeRound = some round ∧ round.roundId = roundId

/-- What a transition does to a live round, in which ledgers, and who leaves it by a cash-out. -/
inductive RoundStep (transition : Transition (Chain A) (Action A)) (round : Round) :
    Option A → Prop where
  | kept
      (hbook : SameBook transition.before.storage.rounds transition.after.storage.rounds
        round.roundId)
      (hlive : transition.after.storage.rounds.IsLive round.roundId round)
      (hstaged : transition.before.storage.rounds.activeRound = some round →
        transition.after.storage.rounds.activeRound ≠ some round →
        round.endLedger ≤ transition.before.ledger.sequence) : RoundStep transition round none
  | staked (user : A) (round' : Round)
      (hopen : transition.before.ledger.sequence < round.betEndLedger)
      (hbuffer : 0 < transition.before.settings.closeBufferLedgers.getD 0 →
        transition.before.ledger.sequence <
          round.betEndLedger - transition.before.settings.closeBufferLedgers.getD 0)
      (hterms : round.SameTerms round')
      (hlive : transition.after.storage.rounds.IsLive round.roundId round')
      (hlines : transition.after.storage.rounds.lines round =
        transition.after.storage.rounds.lineOf round user ::ₘ
          transition.before.storage.rounds.lines round) : RoundStep transition round none
  | revealed (hrunning : round.Running transition.before.ledger.sequence)
      (hlive : transition.after.storage.rounds.IsLive round.roundId round)
      (hlines : transition.after.storage.rounds.lines round =
        transition.before.storage.rounds.lines round) : RoundStep transition round none
  | cashedOut (user : A) (round' : Round)
      (hrunning : round.Running transition.before.ledger.sequence)
      (hterms : round.SameTerms round')
      (hlive : transition.after.storage.rounds.IsLive round.roundId round')
      (hlines : transition.before.storage.rounds.lineOf round user ::ₘ
          transition.after.storage.rounds.lines round =
        transition.before.storage.rounds.lines round) : RoundStep transition round (some user)
  | ended (signers : List A) (call : Call A) (ending : Ending)
      (hlabel : transition.label = .invoke signers call)
      (hending : call.ending transition.before.storage = some ending)
      (hround : ending.round = round)
      (hprice : (∀ reason, ending.kind ≠ .cancelled reason) →
        round.endLedger ≤ transition.before.ledger.sequence) : RoundStep transition round none
  | dropped (hdrops : DropsActive transition round.roundId)
      (hbook : SameBook transition.before.storage.rounds transition.after.storage.rounds
        round.roundId)
      (hgone : ∀ live, ¬ transition.after.storage.rounds.IsLive round.roundId live) :
      RoundStep transition round none

section RoundStep

variable {round : Round}

omit [LinearOrder A] in
theorem leaver_eq_none {signers : List A} {call : Call A} {roundId : ℕ}
    (hcall : ∀ user, call = .cashOutEarly user →
      chain.storage.rounds.activeRound.map (·.roundId) ≠ some roundId) :
    leaver ⟨chain, .invoke signers call, chain'⟩ roundId = none := by
  cases call with
  | cashOutEarly user => exact if_neg (hcall user rfl)
  | _ => rfl

theorem Placement.sameTerms {rounds rounds' : Rounds A} {user : A} {amount : ℤ} {call : Call A}
    (hactive : rounds.activeRound = some round)
    (hplaced : Placement rounds round user amount call rounds') :
    ∃ round', rounds'.activeRound = some round' ∧ round.SameTerms round' := by
  cases hplaced with
  | bet side => exact ⟨_, rfl, withPool_sameTerms _ _ _⟩
  | predict | commit => exact ⟨round, hactive, rfl⟩

theorem Placement.not_cashOut {rounds rounds' : Rounds A} {user : A} {amount : ℤ} {call : Call A}
    (hplaced : Placement rounds round user amount call rounds') (other : A) :
    call ≠ .cashOutEarly other := by
  rintro rfl
  cases hplaced with
  | predict _ _ hcall => rcases hcall with hcall | hcall <;> cases hcall

/-- A staged round that a step does not end is kept. -/
theorem Step.roundStep_staged {signers : List A} {call : Call A} (hhealthy : chain.Healthy)
    (hstep : Step host chain (.invoke signers call) chain')
    {pending : PendingDisputeSettlement}
    (hpending : chain.storage.rounds.pendingDisputes.get round.roundId = some pending)
    (hround : pending.round = round)
    (hkept : ∀ ending, call.ending chain.storage = some ending →
      ending.round.roundId ≠ round.roundId) :
    RoundStep ⟨chain, .invoke signers call, chain'⟩ round
      (leaver ⟨chain, .invoke signers call, chain'⟩ round.roundId) := by
  have hordered := Storage.Healthy.ordered hhealthy
  have hinactive : ∀ active, chain.storage.rounds.activeRound = some active →
      active.roundId ≠ round.roundId := by
    intro active hactive hid
    have hnone := hordered.active_not_staged active hactive
    rw [hid, hpending] at hnone
    cases hnone
  obtain ⟨hbook, hstaged, -⟩ := (hhealthy.effect hstep).frame hordered
    (hordered.staged_known _ _ hpending) hinactive hkept
  rw [leaver_eq_none fun user _ hactive => ?_]
  · refine .kept hbook (.inr ⟨pending, hstaged.trans hpending, hround⟩) fun hactive => ?_
    exact absurd rfl (hinactive round hactive)
  · obtain ⟨active, hactive, hid⟩ := Option.map_eq_some_iff.mp hactive
    exact hinactive active hactive hid

/-- The active round, if a step does not end it. -/
theorem Step.roundStep_active {signers : List A} {call : Call A} (hhealthy : chain.Healthy)
    (hstep : Step host chain (.invoke signers call) chain')
    (hactive : chain.storage.rounds.activeRound = some round)
    (hkept : ∀ ending, call.ending chain.storage = some ending →
      ending.round.roundId ≠ round.roundId) :
    RoundStep ⟨chain, .invoke signers call, chain'⟩ round
      (leaver ⟨chain, .invoke signers call, chain'⟩ round.roundId) := by
  have hordered := Storage.Healthy.ordered hhealthy
  have hbook := hordered.active_represented hactive
  have hsame : ∀ {call : Call A}, chain'.storage.rounds = chain.storage.rounds →
      RoundStep ⟨chain, .invoke signers call, chain'⟩ round none := by
    intro call hrounds
    have hround' : chain'.storage.rounds.activeRound = some round := hrounds ▸ hactive
    exact .kept (hrounds ▸ .refl _ _) (.inl ⟨hround', rfl⟩)
      fun _ hdropped => absurd hround' hdropped
  have heffect := hhealthy.effect hstep
  generalize hafter : chain'.storage = s' at heffect
  cases heffect with
  | quiet _ _ hquiet _ _ hstays =>
      rw [leaver_eq_none fun user hcall => absurd hcall (hstays user)]
      exact hsame (hafter ▸ hquiet.rounds)
  | mint _ _ _ _ _ hquiet | treasuryAddress _ _ _ _ _ _ _ _ hquiet
  | topUp _ _ _ _ _ _ _ hquiet
  | reclaim _ _ _ _ _ _ _ _ _ _ _ hquiet =>
      exact hsame (hafter ▸ hquiet.rounds)
  | payFee _ _ _ _ hcall _ _ hquiet | payFund _ _ _ _ hcall _ _ hquiet =>
      rcases hcall with rfl | ⟨_, _, rfl⟩ <;> exact hsame (hafter ▸ hquiet.rounds)
  | claim _ _ _ hcall _ _ hquiet =>
      rcases hcall with ⟨_, rfl, -⟩ | rfl <;> exact hsame (hafter ▸ hquiet.rounds)
  | openRound _ opened _ _ hnone =>
      rw [hactive] at hnone
      cases hnone
  | stake _ active user amount _ hround _ hopen hamount _ hplaced _ _ hbuffer =>
      obtain rfl := Option.some.inj (hround.symm.trans hactive)
      rw [leaver_eq_none fun other hcall => absurd hcall (hplaced.not_cashOut other)]
      obtain ⟨round', hround', hterms⟩ := hplaced.sameTerms hactive
      have hid : round'.roundId = active.roundId := by rw [hterms]
      rw [← hafter] at hplaced hround'
      exact .staked user round' hopen hbuffer hterms (.inl ⟨hround', hid⟩)
        (hplaced.lines hbook hactive hamount.1)
  | reveal active user price salt commitment _ hround hmode hcommitment hhidden _ hrounds _
      hrunning =>
      obtain rfl := Option.some.inj (hround.symm.trans hactive)
      rw [← hafter] at hrounds
      refine .revealed hrunning (.inl ⟨hrounds ▸ hactive, rfl⟩) ?_
      show chain'.storage.rounds.lines active = chain.storage.rounds.lines active
      rw [hrounds, reveal_lines (hbook.precision hmode) hmode hcommitment hhidden]
  | cashOut active user position penaltyBps _ hround hmode _ hposition _ _ _ hrounds _ hrunning =>
      obtain rfl := Option.some.inj (hround.symm.trans hactive)
      have hleaver : leaver ⟨chain, .invoke signers (.cashOutEarly user), chain'⟩ active.roundId =
          some user := if_pos (by simp [hactive])
      rw [← hafter] at hrounds
      rw [hleaver]
      refine .cashedOut user _ hrunning (withPool_sameTerms _ position.side (-position.amount))
        (.inl ⟨by rw [hrounds]; rfl, withPool_roundId _ _⟩) ?_
      show chain.storage.rounds.lineOf active user ::ₘ chain'.storage.rounds.lines active =
        chain.storage.rounds.lines active
      rw [hrounds, leave_lines hbook hmode hposition]
  | stage _ active pending _ hprice hround hpending _ _ _ hrounds _ hended =>
      obtain rfl := Option.some.inj (hround.symm.trans hactive)
      rw [← hafter] at hrounds
      rw [leaver_eq_none fun other hcall => by rw [hcall] at hprice; cases hprice]
      have hstaged : chain'.storage.rounds.pendingDisputes.get active.roundId = some pending := by
        rw [hrounds, ← hpending]
        exact Store.get_set_self _ _ _
      refine .kept ?_ (.inr ⟨pending, hstaged, hpending⟩) fun _ _ => hended
      show SameBook chain.storage.rounds chain'.storage.rounds active.roundId
      rw [hrounds]
      exact ⟨rfl, fun _ => rfl, fun _ => rfl, fun _ => rfl⟩
  | ending _ ending _ hending hends =>
      have hrounds := hends.rounds
      have hother := hkept ending hending
      have hstaged := roundsAfter_staged chain.storage.rounds hother.symm
      have hsameBook : SameBook chain.storage.rounds (ending.roundsAfter chain.storage.rounds)
          round.roundId := roundsAfter_other ending hother.symm
      rw [← hafter] at hrounds
      rw [← hrounds] at hstaged hsameBook
      cases Call.endsBy hending with
      | resolved _ ended _ _ hended | fallbackRefund _ ended _ _ hended
      | cancelled _ ended hended =>
          obtain rfl := Option.some.inj (hended.symm.trans hactive)
          exact absurd rfl hother
      | voided stagedId pending hpending =>
          have hround' : chain'.storage.rounds.activeRound = some round := by
            rw [hrounds]
            exact hactive
          exact .kept hsameBook (.inl ⟨hround', rfl⟩) fun _ hdropped => absurd hround' hdropped
      | finalized stagedId pending hpending =>
          refine .dropped ⟨signers, stagedId, round, rfl, hactive, rfl⟩ hsameBook ?_
          rintro live (⟨hround', -⟩ | ⟨other, hother, -⟩)
          · rw [hrounds] at hround'
            cases hround'
          · rw [hstaged, hordered.active_not_staged round hactive] at hother
            cases hother

omit [LinearOrder A] in
/-- A round that ends otherwise than by a cancellation is past its end ledger. -/
theorem EndsBy.ended {s : Storage A} {call : Call A} {ending : Ending} {ledger : ℕ}
    (hends : EndsBy s call ending) (htimed : s.rounds.Timed ledger)
    (hpriced : call.price ≠ none → ending.round.endLedger ≤ ledger)
    (huncancelled : ∀ reason, ending.kind ≠ .cancelled reason) :
    ending.round.endLedger ≤ ledger := by
  cases hends with
  | resolved _ _ _ hprice | fallbackRefund _ _ _ hprice => exact hpriced (by simp [hprice])
  | cancelled reason => exact absurd rfl (huncancelled reason)
  | voided _ _ hpending | finalized _ _ hpending => exact htimed.ended _ _ hpending

/-- What a step does to a live round. -/
theorem Step.roundStep (hstep : Step host chain action chain') (hhealthy : chain.Healthy)
    (htimed : chain.Timed) (hlive : chain.storage.rounds.IsLive round.roundId round) :
    RoundStep ⟨chain, action, chain'⟩ round (leaver ⟨chain, action, chain'⟩ round.roundId) := by
  obtain ⟨signers, call, rfl⟩ | ⟨hidle, meter, hsame⟩ := hstep.invokes_or_idles
  · have hordered := Storage.Healthy.ordered hhealthy
    by_cases hends : ∃ ending, call.ending chain.storage = some ending ∧
        ending.round.roundId = round.roundId
    · obtain ⟨ending, hending, hid⟩ := hends
      have hnone : leaver ⟨chain, .invoke signers call, chain'⟩ round.roundId = none :=
        leaver_eq_none fun user hcall => by rw [hcall] at hending; cases hending
      have hround : ending.round = round :=
        hordered.live_unique (hid ▸ (Call.endsBy hending).live hordered) hlive
      rw [hnone]
      refine .ended signers call ending rfl hending hround fun hprice => ?_
      rw [← hround]
      exact (Call.endsBy hending).ended htimed.rounds
        ((hhealthy.effect hstep).ends_timely hending).2 hprice
    · have hkept : ∀ ending, call.ending chain.storage = some ending →
          ending.round.roundId ≠ round.roundId :=
        fun ending hending hid => hends ⟨ending, hending, hid⟩
      rcases hlive with ⟨hactive, -⟩ | ⟨pending, hpending, hround⟩
      · exact hstep.roundStep_active hhealthy hactive hkept
      · exact hstep.roundStep_staged hhealthy hpending hround hkept
  · have hrounds : chain'.storage.rounds = chain.storage.rounds := by rw [hsame]
    have hnone : leaver ⟨chain, action, chain'⟩ round.roundId = none := by
      cases action with
      | closeLedger | expire => rfl
      | invoke signers call => exact absurd rfl (hidle signers call)
    rw [hnone]
    refine .kept ?_ ?_ fun hactive hdropped => absurd ?_ hdropped
    · show SameBook chain.storage.rounds chain'.storage.rounds round.roundId
      rw [hrounds]
      exact .refl _ _
    · show chain'.storage.rounds.IsLive round.roundId round
      rwa [hrounds]
    · show chain'.storage.rounds.activeRound = some round
      rwa [hrounds]

/-- What is finalized was staged. -/
theorem finalizeRound_staged {env : Env A} {s : Storage A} (roundId : ℕ) :
    Ensures (Call.finalizeRound roundId).exec env s fun _ _ =>
      ∃ pending, s.rounds.pendingDisputes.get roundId = some pending := by
  cases hpending : s.rounds.pendingDisputes.get roundId with
  | none =>
      simp [Call.exec, XelmaMarket.finalizeRound, readPendingDispute, hpending, ensureNotPaused]
  | some pending => exact fun _ _ _ => ⟨pending, rfl⟩

/-- A round that is dropped is neither active nor staged afterwards. -/
theorem Step.not_live_of_drops (hstep : Step host chain action chain') (hhealthy : chain.Healthy)
    {roundId : ℕ} (hdrops : DropsActive ⟨chain, action, chain'⟩ roundId) :
    ∀ live, ¬ chain'.storage.rounds.IsLive roundId live := by
  obtain ⟨signers, stagedId, active, hlabel, hactive, rfl⟩ := hdrops
  obtain rfl : action = .invoke signers (.finalizeRound stagedId) := hlabel
  have hordered := Storage.Healthy.ordered hhealthy
  have hunstaged := hordered.active_not_staged active hactive
  obtain ⟨pending, hpending⟩ := hstep.ensured (finalizeRound_staged stagedId)
  have hid := (hordered.staged_represented hpending).1
  have hother : active.roundId ≠ pending.round.roundId := by
    intro hsame
    rw [hsame, hid, hpending] at hunstaged
    cases hunstaged
  have hending : (Call.finalizeRound stagedId).ending chain.storage =
      some ⟨pending.round, .finalized pending.finalPrice⟩ := by simp [Call.ending, hpending]
  have hends := hhealthy.ends hstep hending
  rintro live (⟨hround, -⟩ | ⟨other, hget, -⟩)
  · rw [hends.rounds] at hround
    cases hround
  · rw [hends.rounds, roundsAfter_staged _ hother, hunstaged] at hget
    cases hget

/-- A round that is neither active nor staged keeps its book, and nobody leaves it. -/
theorem Step.round_gone (hstep : Step host chain action chain') (hhealthy : chain.Healthy)
    {roundId : ℕ} (hknown : roundId ≤ chain.storage.rounds.lastRoundId.getD 0)
    (hgone : ∀ live, ¬ chain.storage.rounds.IsLive roundId live) :
    SameBook chain.storage.rounds chain'.storage.rounds roundId ∧
      (∀ live, ¬ chain'.storage.rounds.IsLive roundId live) ∧
      leaver ⟨chain, action, chain'⟩ roundId = none := by
  have hordered := Storage.Healthy.ordered hhealthy
  have hinactive : ∀ active, chain.storage.rounds.activeRound = some active →
      active.roundId ≠ roundId := fun active hactive hid => hgone active (.inl ⟨hactive, hid⟩)
  have hleaver : leaver ⟨chain, action, chain'⟩ roundId = none := by
    cases action with
    | closeLedger | expire => rfl
    | invoke signers call =>
        refine leaver_eq_none fun _ _ hactive => ?_
        obtain ⟨active, hactive, hid⟩ := Option.map_eq_some_iff.mp hactive
        exact hinactive active hactive hid
  obtain ⟨signers, call, rfl⟩ | ⟨-, meter, hsame⟩ := hstep.invokes_or_idles
  · obtain ⟨hbook, hstaged, hinactive'⟩ := (hhealthy.effect hstep).frame hordered hknown hinactive
      fun ending hending hid => hgone _ (hid ▸ (Call.endsBy hending).live hordered)
    refine ⟨hbook, ?_, hleaver⟩
    rintro live (⟨hactive, hid⟩ | ⟨pending, hpending, hround⟩)
    · exact hinactive' live hactive hid
    · exact hgone live (.inr ⟨pending, hstaged ▸ hpending, hround⟩)
  · have hrounds : chain'.storage.rounds = chain.storage.rounds := by rw [hsame]
    rw [hrounds]
    exact ⟨.refl _ _, hgone, hleaver⟩

end RoundStep

/-! ## Over whole runs -/

/-- The lines of the positions cashed out of a round in a run. -/
def cashedOutLines (trace : List (Transition (Chain A) (Action A))) (round : Round) :
    Multiset (A × Option BetSide × ℤ) :=
  (trace.map fun transition => (leaver transition round.roundId).elim 0
    fun user => {transition.before.storage.rounds.lineOf round user}).sum

/-- A live round followed through a run: the lines only lose the positions cashed out, past the end
ledger the book and the record do not change, and the round is live unless it was dropped. -/
structure Followed (start : Chain A) (round : Round) (trace : List (Transition (Chain A) (Action A)))
    (chain : Chain A) : Prop where
  later : start.ledger.sequence ≤ chain.ledger.sequence
  known : round.roundId ≤ chain.storage.rounds.lastRoundId.getD 0
  lines : chain.storage.rounds.lines round + cashedOutLines trace round =
    start.storage.rounds.lines round
  book : round.endLedger ≤ start.ledger.sequence →
    SameBook start.storage.rounds chain.storage.rounds round.roundId
  state : ((∃ round', chain.storage.rounds.IsLive round.roundId round' ∧ round.SameTerms round' ∧
        (round.endLedger ≤ start.ledger.sequence → round' = round)) ∧
      ∀ transition ∈ trace, ¬ DropsActive transition round.roundId) ∨
    (∀ live, ¬ chain.storage.rounds.IsLive round.roundId live) ∧
      ∃ transition ∈ trace, DropsActive transition round.roundId

section Followed

variable {start : Chain A} {round : Round}

omit [LinearOrder A] in
theorem cashedOutLines_append (trace : List (Transition (Chain A) (Action A)))
    (transition : Transition (Chain A) (Action A)) (round : Round) :
    cashedOutLines (trace ++ [transition]) round = cashedOutLines trace round +
      (leaver transition round.roundId).elim 0
        fun user => {transition.before.storage.rounds.lineOf round user} := by
  simp [cashedOutLines]

/-- The number of the last round never goes down. -/
theorem Step.last_le (hstep : Step host chain action chain') (hhealthy : chain.Healthy) :
    chain.storage.rounds.lastRoundId.getD 0 ≤ chain'.storage.rounds.lastRoundId.getD 0 := by
  obtain ⟨signers, call, rfl⟩ | ⟨-, meter, hsame⟩ := hstep.invokes_or_idles
  · exact (hhealthy.effect hstep).last_le (Storage.Healthy.ordered hhealthy)
  · rw [hsame]

/-- A round that was dropped stays as it is. -/
theorem Followed.gone (hfollowed : Followed start round trace chain)
    (hstep : Step host chain action chain') (hhealthy : chain.Healthy)
    (hgone : ∀ live, ¬ chain.storage.rounds.IsLive round.roundId live)
    (hdropped : ∃ transition ∈ trace, DropsActive transition round.roundId) :
    Followed start round (trace ++ [⟨chain, action, chain'⟩]) chain' := by
  obtain ⟨hbook, hgone', hnone⟩ := hstep.round_gone hhealthy hfollowed.known hgone
  obtain ⟨transition, hmem, hdrops⟩ := hdropped
  refine ⟨hfollowed.later.trans hstep.ledger_le, hfollowed.known.trans (hstep.last_le hhealthy), ?_,
    fun hended => (hfollowed.book hended).trans hbook,
    .inr ⟨hgone', transition, List.mem_append_left _ hmem, hdrops⟩⟩
  rw [cashedOutLines_append, hnone, hbook.lines]
  simpa using hfollowed.lines

/-- A step that does not end a live round whose betting is over is followed. -/
theorem Followed.live (hfollowed : Followed start round trace chain)
    (hstep : Step host chain action chain') (hhealthy : chain.Healthy) (htimed : chain.Timed)
    (hclosed : round.betEndLedger ≤ start.ledger.sequence)
    (hopen : ¬ EndsRound ⟨chain, action, chain'⟩ round.roundId) {round' : Round}
    (hlive : chain.storage.rounds.IsLive round.roundId round') (hterms : round.SameTerms round')
    (hrecord : round.endLedger ≤ start.ledger.sequence → round' = round)
    (hnone : ∀ transition ∈ trace, ¬ DropsActive transition round.roundId) :
    Followed start round (trace ++ [⟨chain, action, chain'⟩]) chain' := by
  have hlater := hfollowed.later
  have hknown := hfollowed.known.trans (hstep.last_le hhealthy)
  have hnone' : (∃ live, chain'.storage.rounds.IsLive round.roundId live) →
      ∀ transition ∈ trace ++ [⟨chain, action, chain'⟩],
        ¬ DropsActive transition round.roundId := by
    rintro ⟨live, hlive⟩ transition hmem hdrops
    rcases List.mem_append.mp hmem with hmem | hmem
    · exact hnone transition hmem hdrops
    · obtain rfl := List.mem_singleton.mp hmem
      exact hstep.not_live_of_drops hhealthy hdrops live hlive
  unfold Round.SameTerms at hterms
  generalize round'.poolUp = poolUp, round'.poolDown = poolDown at hterms
  subst hterms
  have hwhat := hstep.roundStep hhealthy htimed hlive
  generalize hleaver : leaver ⟨chain, action, chain'⟩ _ = who at hwhat
  have hledger := hlater.trans hstep.ledger_le
  have hsplit : cashedOutLines (trace ++ [⟨chain, action, chain'⟩]) round =
      cashedOutLines trace round +
        who.elim 0 fun user => {chain.storage.rounds.lineOf round user} := by
    rw [cashedOutLines_append]
    exact congrArg _ (congrArg (fun who => Option.elim who _ _) hleaver)
  cases hwhat with
  | kept hbook hlive' =>
      replace hbook : SameBook chain.storage.rounds chain'.storage.rounds round.roundId := hbook
      refine ⟨hledger, hknown, ?_, fun hended => (hfollowed.book hended).trans hbook,
        .inl ⟨⟨_, hlive', rfl, hrecord⟩, hnone' ⟨_, hlive'⟩⟩⟩
      rw [hsplit, hbook.lines]
      simpa using hfollowed.lines
  | staked user round'' hbefore =>
      have : chain.ledger.sequence < round.betEndLedger := hbefore
      omega
  | revealed hrunning hlive' hlines =>
      have hrunning' : chain.ledger.sequence < round.endLedger := hrunning.2
      replace hlines : chain'.storage.rounds.lines round = chain.storage.rounds.lines round := hlines
      refine ⟨hledger, hknown, ?_, fun hended => by omega,
        .inl ⟨⟨_, hlive', rfl, hrecord⟩, hnone' ⟨_, hlive'⟩⟩⟩
      rw [hsplit, hlines]
      simpa using hfollowed.lines
  | cashedOut user round'' hrunning hterms hlive' hlines =>
      have hrunning' : chain.ledger.sequence < round.endLedger := hrunning.2
      replace hlines : chain.storage.rounds.lineOf round user ::ₘ chain'.storage.rounds.lines round =
        chain.storage.rounds.lines round := hlines
      refine ⟨hledger, hknown, ?_, fun hended => by omega,
        .inl ⟨⟨_, hlive', hterms, fun hended => by omega⟩, hnone' ⟨_, hlive'⟩⟩⟩
      rw [hsplit, ← hfollowed.lines, ← hlines, Option.elim_some, ← Multiset.singleton_add]
      rw [add_comm (cashedOutLines trace round), ← add_assoc,
        add_comm (chain'.storage.rounds.lines round)]
  | ended signers call ending hlabel hending hround =>
      exact absurd ⟨signers, call, ending, hlabel, hending, by rw [hround]⟩ hopen
  | dropped hdrops hbook hgone =>
      replace hbook : SameBook chain.storage.rounds chain'.storage.rounds round.roundId := hbook
      refine ⟨hledger, hknown, ?_, fun hended => (hfollowed.book hended).trans hbook,
        .inr ⟨hgone, _, List.mem_concat_self .., hdrops⟩⟩
      rw [hsplit, hbook.lines]
      simpa using hfollowed.lines

/-- Every run from a live round whose betting is over follows it up to its end. -/
theorem followed_of_run {earlier : List (Transition (Chain A) (Action A))}
    (hstart : History host earlier start) (hrun : Run (Step host) start trace chain)
    (hlive : start.storage.rounds.IsLive round.roundId round)
    (hclosed : round.betEndLedger ≤ start.ledger.sequence)
    (hopen : ∀ transition ∈ trace, ¬ EndsRound transition round.roundId) :
    Followed start round trace chain := by
  induction hrun with
  | nil =>
      have hknown : round.roundId ≤ start.storage.rounds.lastRoundId.getD 0 :=
        (Storage.Healthy.ordered hstart.healthy).live_known hlive
      refine ⟨le_rfl, hknown, by simp [cashedOutLines], fun _ => .refl _ _,
        .inl ⟨⟨round, hlive, rfl, fun _ => rfl⟩, by simp⟩⟩
  | @snoc middle finish trace action run last ih =>
      have hfollowed := ih fun transition hmem => hopen transition (List.mem_append_left _ hmem)
      have hmiddle := hstart.append run
      rcases hfollowed.state with ⟨⟨round', hlive', hterms, hrecord⟩, hnone⟩ | ⟨hgone, hdropped⟩
      · exact hfollowed.live last hmiddle.healthy hmiddle.timed hclosed
          (hopen _ (List.mem_concat_self ..)) hlive' hterms hrecord hnone
      · exact hfollowed.gone last hmiddle.healthy hgone hdropped

end Followed

/-- In every history the windows of live rounds are in order, and each step treats a live round as
its ledger allows. From the bet end ledger to the end of a round its lines only lose the positions
cashed out, and from the end ledger its book does not change. Its record with the pools stays
exactly when no staged round is finalized while this one is active. -/
theorem stakes_frozen_iff (hhistory : History host trace chain) :
    (∀ roundId round, chain.storage.rounds.IsLive roundId round → round.WindowsOrdered) ∧
    (∀ transition ∈ trace, ∀ round,
      transition.before.storage.rounds.IsLive round.roundId round →
      RoundStep transition round (leaver transition round.roundId)) ∧
    ∀ earlier later start round, trace = earlier ++ later → History host earlier start →
      Run (Step host) start later chain →
      start.storage.rounds.IsLive round.roundId round →
      (∀ transition ∈ later, ¬ EndsRound transition round.roundId) →
      (round.betEndLedger ≤ start.ledger.sequence →
        chain.storage.rounds.lines round + cashedOutLines later round =
          start.storage.rounds.lines round) ∧
      (round.endLedger ≤ start.ledger.sequence →
        SameBook start.storage.rounds chain.storage.rounds round.roundId ∧
          (chain.storage.rounds.IsLive round.roundId round ↔
            ∀ transition ∈ later, ¬ DropsActive transition round.roundId)) := by
  refine ⟨hhistory.timed.rounds.windows, fun transition hmem round hlive => ?_, ?_⟩
  · obtain ⟨earlier, later, rfl⟩ := List.append_of_mem hmem
    obtain ⟨hbefore, hstep, -⟩ := hhistory.cut
    exact hstep.roundStep hbefore.healthy hbefore.timed hlive
  · rintro earlier later start round - hstart hrun hlive hopen
    have hfollow := fun hclosed => followed_of_run hstart hrun hlive hclosed hopen
    refine ⟨fun hclosed => (hfollow hclosed).lines, fun hended => ?_⟩
    have hwindows := hstart.timed.rounds.windows _ round hlive
    unfold Round.WindowsOrdered at hwindows
    have hfollowed := hfollow (by omega)
    refine ⟨hfollowed.book hended, ?_⟩
    rcases hfollowed.state with ⟨⟨round', hlive', -, hrecord⟩, hnone⟩ | ⟨hgone, hdropped⟩
    · exact iff_of_true (hrecord hended ▸ hlive') hnone
    · obtain ⟨transition, hmem, hdrops⟩ := hdropped
      exact iff_of_false (hgone round) fun hnone => hnone transition hmem hdrops

/-- A round past its end ledger keeps its book and its record while a ledger closes. -/
theorem ended_round_kept : ∃ trace, ∃ start chain : Chain ℕ, ∃ round,
    History trialHost trace start ∧ start.storage.rounds.IsLive 2 round ∧
      round.endLedger ≤ start.ledger.sequence ∧
      SameBook start.storage.rounds chain.storage.rounds 2 ∧
      chain.storage.rounds.IsLive 2 round := by
  obtain ⟨trace, start, chain, hhistory, hfits⟩ := exists_trial
    (overlappingRounds ++ [.closeLedger (ledgerAt 33)]) (.closeLedger (ledgerAt 34))
    (fun start _ => start.storage.rounds.activeRound.any fun (round : Round) => decide
      (round.roundId = 2 ∧ round.endLedger ≤ start.ledger.sequence)) (by decide +kernel)
  obtain ⟨round, hactive, hround⟩ := (Option.any_eq_true _ _).mp hfits
  obtain ⟨hid, hended⟩ := decide_eq_true_eq.mp hround
  have hlive : start.storage.rounds.IsLive round.roundId round := .inl ⟨hactive, rfl⟩
  obtain ⟨hbefore, hstep, -⟩ := hhistory.cut
  have hfrozen := (stakes_frozen_iff hhistory).2.2 trace _ start round rfl hbefore
    (.snoc (.nil start) hstep) hlive ?_
  · obtain ⟨hbook, hkept⟩ := hfrozen.2 hended
    refine ⟨trace, start, chain, round, hbefore, hid ▸ hlive, hended, hid ▸ hbook,
      hid ▸ hkept.mpr fun transition hmem hdrops => ?_⟩
    obtain rfl := List.mem_singleton.mp hmem
    obtain ⟨_, _, _, hlabel, -⟩ := hdrops
    cases hlabel
  · intro transition hmem hends
    obtain rfl := List.mem_singleton.mp hmem
    obtain ⟨_, _, _, hlabel, -⟩ := hends
    cases hlabel

/-- Finalizing the staged round takes the pools of the newer round, which is past its end ledger and
has not had its terminal operation. -/
theorem ended_round_dropped : ∃ trace, ∃ start chain : Chain ℕ, ∃ round transition,
    History trialHost trace start ∧ Run (Step trialHost) start [transition] chain ∧
      start.storage.rounds.IsLive 2 round ∧ round.endLedger ≤ start.ledger.sequence ∧
      round.poolUp = 50 ∧ start.storage.rounds.participants 2 = [5] ∧
      ¬ EndsRound transition 2 ∧ ∀ live, ¬ chain.storage.rounds.IsLive 2 live := by
  obtain ⟨trace, start, chain, hhistory, hfits⟩ := exists_trial
    (overlappingRounds ++ [.closeLedger (ledgerAt 33)]) (.invoke [9] (.finalizeRound 1))
    (fun start _ => (start.storage.rounds.activeRound.any fun (round : Round) => decide
        (round.roundId = 2 ∧ round.endLedger ≤ start.ledger.sequence ∧ round.poolUp = 50)) &&
      decide (start.storage.rounds.participants 2 = [5] ∧
        ((Call.finalizeRound 1).ending start.storage).map (·.round.roundId) = some 1))
    (by decide +kernel)
  simp only [Bool.and_eq_true, decide_eq_true_eq, Option.any_eq_true,
    Option.map_eq_some_iff] at hfits
  obtain ⟨⟨round, hactive, hid, hended, hpool⟩, hstaked, ending, hending, hendingId⟩ := hfits
  obtain ⟨hbefore, hstep, -⟩ := hhistory.cut
  refine ⟨trace, start, chain, round, _, hbefore, .snoc (.nil start) hstep,
    .inl ⟨hactive, hid⟩, hended, hpool, hstaked, ?_,
    hstep.not_live_of_drops hbefore.healthy ⟨[9], 1, round, rfl, hactive, hid⟩⟩
  rintro ⟨_, _, ending', hlabel, hending', hid'⟩
  cases hlabel
  rw [Option.some.inj (hending'.symm.trans hending), hendingId] at hid'
  cases hid'

end XelmaMarket
