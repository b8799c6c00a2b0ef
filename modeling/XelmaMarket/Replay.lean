import XelmaMarket.RoundLife
import XelmaMarket.Script

/-!
# Oracle payloads

Rounds are numbered in the order they are created and start in different ledgers. A payload names
the start ledger of the round it is for, so it handles that round and no other, and handles it
once: after that the round is not active again.
-/

namespace XelmaMarket

open Transaction

variable {A : Type} [LinearOrder A] {env : Env A} {s s' : Storage A} {call : Call A}

/-! ## Created rounds -/

omit [LinearOrder A] in
/-- The calls that create a round. -/
def Call.creates : Call A → Bool
  | .createRound _ _ | .createNextFromTemplate => true
  | _ => false

omit [LinearOrder A] in
/-- The round a transition created. -/
def createdBy (transition : Transition (Chain A) (Action A)) : Option Round :=
  match transition.label with
  | .invoke _ call => if call.creates then transition.after.storage.rounds.activeRound else none
  | _ => none

omit [LinearOrder A] in
/-- The rounds a trace created, in order. -/
def createdRounds (trace : List (Transition (Chain A) (Action A))) : List Round :=
  trace.filterMap createdBy

omit [LinearOrder A] in
/-- A stake in a round keeps its number and its start ledger. -/
theorem Placement.round_kept [DecidableEq A] {rounds rounds' : Rounds A} {round round' : Round}
    {user : A} {amount : ℤ} (hplaced : Placement rounds round user amount call rounds')
    (hactive : rounds.activeRound = some round) (hafter : rounds'.activeRound = some round') :
    round'.roundId = round.roundId ∧ round'.startLedger = round.startLedger := by
  cases hplaced with
  | bet side hmode hnew =>
      obtain rfl := Option.some.inj hafter
      cases side <;> exact ⟨rfl, rfl⟩
  | predict _ price hcall hmode hnew =>
      obtain rfl := Option.some.inj (hactive.symm.trans hafter)
      exact ⟨rfl, rfl⟩
  | commit hash hmode hnew =>
      obtain rfl := Option.some.inj (hactive.symm.trans hafter)
      exact ⟨rfl, rfl⟩

/-- Apart from creating a round, a call keeps the number of rounds and the ledgers they started
in, and an active round was active before, under the same number and start ledger. -/
theorem Effect.started (hordered : s.rounds.Ordered) (heffect : Effect env s call s')
    (hcreates : call.creates = false) :
    s'.rounds.lastRoundId = s.rounds.lastRoundId ∧
      s'.rounds.roundStartLedger = s.rounds.roundStartLedger ∧
      ∀ round', s'.rounds.activeRound = some round' →
        ∃ round, s.rounds.activeRound = some round ∧ round'.roundId = round.roundId ∧
          round'.startLedger = round.startLedger := by
  cases heffect with
  | quiet _ _ hsame =>
      rw [hsame.rounds]
      exact ⟨rfl, rfl, fun round hround => ⟨round, hround, rfl, rfl⟩⟩
  | mint _ _ _ _ _ hsame | treasuryAddress _ _ _ _ _ _ _ _ hsame | payFee _ _ _ _ _ _ _ hsame
  | payFund _ _ _ _ _ _ _ hsame | topUp _ _ _ _ _ _ _ hsame
  | reclaim _ _ _ _ _ _ _ _ _ _ _ hsame | claim _ _ _ _ _ _ hsame =>
      rw [hsame.rounds]
      exact ⟨rfl, rfl, fun round hround => ⟨round, hround, rfl, rfl⟩⟩
  | openRound _ _ _ hcall =>
      rcases hcall with ⟨_, _, rfl⟩ | rfl <;> cases hcreates
  | stake _ round user amount _ hround _ _ hamount _ hplaced =>
      have hjoined := hplaced.joined (hordered.active_represented hround) hround hamount.1
      exact ⟨hjoined.last, hjoined.started, fun round' hround' =>
        ⟨round, hround, hplaced.round_kept hround hround'⟩⟩
  | reveal round _ _ _ _ _ hround _ _ _ _ hrounds =>
      rw [hrounds]
      exact ⟨rfl, rfl, fun round' hround' => ⟨round', hround', rfl, rfl⟩⟩
  | cashOut round user position _ _ hround _ _ _ _ _ _ hrounds =>
      rw [hrounds]
      refine ⟨rfl, rfl, fun round' hround' => ⟨round, hround, ?_⟩⟩
      obtain rfl := Option.some.inj hround'
      cases position.side <;> exact ⟨rfl, rfl⟩
  | stage _ _ _ _ _ _ _ _ _ _ hrounds =>
      rw [hrounds]
      exact ⟨rfl, rfl, fun _ hround => (nomatch hround)⟩
  | ending _ ending _ _ hends =>
      rw [hends.rounds]
      exact ⟨roundsAfter_last ending, roundsAfter_started ending,
        fun round hround => ⟨round, active_of_roundsAfter hround, rfl, rfl⟩⟩

/-- The rounds created so far, against the rounds stored: they are numbered from 1 in order, their
start ledgers are taken and distinct, and the active round is one of them. -/
structure Chronicled (created : List Round) (rounds : Rounds A) : Prop where
  ids : created.map (·.roundId) = List.range' 1 created.length
  last : rounds.lastRoundId.getD 0 = created.length
  taken : ∀ round ∈ created, rounds.roundStartLedger.get round.startLedger ≠ none
  distinct : (created.map (·.startLedger)).Nodup
  active : ∀ round, rounds.activeRound = some round → ∃ created' ∈ created,
    round.roundId = created'.roundId ∧ round.startLedger = created'.startLedger

omit [LinearOrder A] in
/-- A created round joins the chronicle. -/
theorem Chronicled.opened {created : List Round} {round : Round}
    (hchronicled : Chronicled created s.rounds) (hopens : Opens env s round s') :
    Chronicled (created ++ [round]) s'.rounds := by
  have hid := hopens.id
  rw [hchronicled.last] at hid
  rw [hopens.rounds]
  constructor
  · rw [List.map_append, hchronicled.ids, List.length_append, List.length_singleton,
      List.range'_concat]
    simp [hid, Nat.add_comm]
  · simpa [Rounds.openRound] using hid
  · intro other hother
    simp only [Rounds.openRound, Store.get_set]
    split
    · exact Option.some_ne_none _
    · next hne =>
        rcases List.mem_append.mp hother with hother | hother
        · exact hchronicled.taken other hother
        · exact absurd (by rw [List.mem_singleton.mp hother]) hne
  · rw [List.map_append, List.nodup_append]
    refine ⟨hchronicled.distinct, by simp, fun start hstart other hother => ?_⟩
    obtain ⟨earlier, hearlier, rfl⟩ := List.mem_map.mp hstart
    rintro rfl
    -- the start ledger of the new round was free, those of the earlier rounds are taken
    refine hchronicled.taken earlier hearlier ?_
    rw [show earlier.startLedger = round.startLedger by simpa using hother]
    exact hopens.start.2
  · intro active hactive
    obtain rfl := Option.some.inj hactive
    exact ⟨_, by simp, rfl, rfl⟩

omit [LinearOrder A] in
/-- The chronicle stays right while no round is created. -/
theorem Chronicled.kept {created : List Round} {rounds rounds' : Rounds A}
    (hchronicled : Chronicled created rounds) (hlast : rounds'.lastRoundId = rounds.lastRoundId)
    (hstarted : rounds'.roundStartLedger = rounds.roundStartLedger)
    (hactive : ∀ round', rounds'.activeRound = some round' →
      ∃ round, rounds.activeRound = some round ∧ round'.roundId = round.roundId ∧
        round'.startLedger = round.startLedger) : Chronicled created rounds' := by
  refine ⟨hchronicled.ids, by rw [hlast, hchronicled.last], fun round hround => ?_,
    hchronicled.distinct, fun round' hround' => ?_⟩
  · rw [hstarted]
    exact hchronicled.taken round hround
  · obtain ⟨round, hround, hid, hstart⟩ := hactive round' hround'
    obtain ⟨created', hmem, hid', hstart'⟩ := hchronicled.active round hround
    exact ⟨created', hmem, hid.trans hid', hstart.trans hstart'⟩

/-! ## The chronicle of a history -/

variable {host : Host A} {chain chain' : Chain A} {action : Action A}
  {trace : List (Transition (Chain A) (Action A))}

omit [LinearOrder A] in
@[simp] theorem createdRounds_snoc (transition : Transition (Chain A) (Action A)) :
    createdRounds (trace ++ [transition]) =
      createdRounds trace ++ (createdBy transition).toList := by
  cases h : createdBy transition <;> simp [createdRounds, List.filterMap_append, h]

/-- A step creates a round when there is no active one, or keeps the rounds that were started. -/
theorem Chain.Healthy.creation (hhealthy : chain.Healthy)
    (hstep : Step host chain action chain') :
    (∃ signers round, createdBy ⟨chain, action, chain'⟩ = some round ∧
      Opens ⟨host, chain.ledger, signers⟩ chain.storage round chain'.storage) ∨
    (createdBy ⟨chain, action, chain'⟩ = none ∧
      chain'.storage.rounds.lastRoundId = chain.storage.rounds.lastRoundId ∧
      chain'.storage.rounds.roundStartLedger = chain.storage.rounds.roundStartLedger ∧
      ∀ round', chain'.storage.rounds.activeRound = some round' →
        ∃ round, chain.storage.rounds.activeRound = some round ∧
          round'.roundId = round.roundId ∧ round'.startLedger = round.startLedger) := by
  cases hstep with
  | closeLedger ledger _ _ =>
      exact .inr ⟨rfl, rfl, rfl, fun round hround => ⟨round, hround, rfl, rfl⟩⟩
  | expire key => exact .inr ⟨rfl, rfl, rfl, fun round hround => ⟨round, hround, rfl, rfl⟩⟩
  | invoke signers call storage hrun =>
      cases hcreates : call.creates with
      | true =>
          have hcall : (∃ startPrice mode, call = .createRound startPrice mode) ∨
              call = .createNextFromTemplate := by
            cases call with
            | createRound startPrice mode => exact .inl ⟨startPrice, mode, rfl⟩
            | createNextFromTemplate => exact .inr rfl
            | _ => cases hcreates
          obtain ⟨round, hopens⟩ := (Call.ensures_opens hcall).elim hrun
          refine .inl ⟨signers, round, ?_, hopens⟩
          show (if call.creates then storage.rounds.activeRound else none) = some round
          rw [if_pos hcreates, hopens.rounds]
          rfl
      | false =>
          have heffect := @Storage.Healthy.effect _ _ ⟨host, chain.ledger, signers⟩ _ _ _
            hhealthy hrun
          refine .inr ⟨?_, heffect.started (Storage.Healthy.ordered hhealthy) hcreates⟩
          show (if call.creates then storage.rounds.activeRound else none) = none
          rw [if_neg (by simp [hcreates])]

/-- Every history chronicles the rounds it created. -/
theorem History.chronicled (hhistory : History host trace chain) :
    Chronicled (createdRounds trace) chain.storage.rounds := by
  obtain ⟨ledger, hrun⟩ := hhistory
  refine hrun.invariant_of_trace (fun trace chain =>
    Chronicled (createdRounds trace) chain.storage.rounds) ?_ ?_
  · exact ⟨rfl, rfl, fun _ hround => (nomatch hround), List.nodup_nil,
      fun _ hactive => (nomatch hactive)⟩
  · intro earlier transition hearlier hstep hbefore
    have hhealthy := healthy_of_run hearlier (healthy_empty ledger.sequence)
    rcases hhealthy.creation hstep with ⟨signers, round, hcreated, hopens⟩ | ⟨hnone, hkept⟩
    · rw [createdRounds_snoc, hcreated]
      exact hbefore.opened hopens
    · rw [createdRounds_snoc, hnone]
      simpa using hbefore.kept hkept.1 hkept.2.1 hkept.2.2

/-! ## Submissions -/

/-- A transition submits a payload bound to a start ledger. -/
def Submits (transition : Transition (Chain A) (Action A)) (startLedger : ℕ) : Prop :=
  ∃ signers call, transition.label = .invoke signers call ∧ call.boundTo = some startLedger

/-- A transition stages a round into its dispute window. -/
def Stages (transition : Transition (Chain A) (Action A)) (roundId : ℕ) : Prop :=
  transition.before.storage.rounds.pendingDisputes.get roundId = none ∧
    transition.after.storage.rounds.pendingDisputes.get roundId ≠ none

/-- A transition resolves, refunds or stages a round. -/
def Handles (transition : Transition (Chain A) (Action A)) (roundId : ℕ) : Prop :=
  EndsRound transition roundId ∨ Stages transition roundId

/-- A successful submission is for the active round of its start ledger, handles that round and no
other, and leaves none active. -/
theorem Chain.Healthy.submission (hhealthy : chain.Healthy)
    (hstep : Step host chain action chain') {startLedger : ℕ}
    (hsubmits : Submits ⟨chain, action, chain'⟩ startLedger) :
    ∃ round, chain.storage.rounds.activeRound = some round ∧ round.startLedger = startLedger ∧
      chain'.storage.rounds.activeRound = none ∧
      ∀ roundId, Handles ⟨chain, action, chain'⟩ roundId ↔ roundId = round.roundId := by
  obtain ⟨signers, call, hlabel, hbound⟩ := hsubmits
  obtain rfl : action = .invoke signers call := hlabel
  cases hstep with
  | invoke _ _ storage hrun =>
      obtain ⟨round, finalPrice, hstart, -, hprice, hsettled⟩ :=
        (Call.ensures_settled (Storage.Healthy.inOrder hhealthy chain.ledger.sequence_lt)
          hbound).elim hrun
      have hending : call.ending chain.storage = chain.storage.resolution finalPrice := by
        cases call with
        | resolveRound payload => rw [← Option.some.inj hprice]; rfl
        | resolveRoundMulti payload =>
            have hmedian : (medianPrice payload.prices).toOption = some finalPrice := hprice
            simp [Call.ending, hmedian]
        | _ => cases hbound
      refine ⟨round, hsettled.active, hstart, ?_⟩
      cases hresolution : chain.storage.resolution finalPrice with
      | some ending =>
          have hends := hsettled.ends ending hresolution
          obtain ⟨hactive, hnone, hstaged⟩ := resolution_active hresolution
          obtain rfl := Option.some.inj (hactive.symm.trans hsettled.active)
          rw [hends.rounds]
          refine ⟨hnone, fun roundId => ⟨?_, ?_⟩⟩
          · rintro (⟨signers', call', ending', hlabel', hending', rfl⟩ | ⟨hbefore, hafter⟩)
            · cases hlabel'
              rw [hending, hresolution] at hending'
              rw [Option.some.inj hending']
            · exact absurd (by rw [hends.rounds, hstaged]; exact hbefore) hafter
          · rintro rfl
            exact .inl ⟨signers, call, ending, rfl, hending.trans hresolution, rfl⟩
      | none =>
          obtain ⟨pending, -, rfl, -, -, hrounds, -⟩ := hsettled.staged hresolution
          have hordered := Storage.Healthy.ordered hhealthy
          refine ⟨by rw [hrounds]; rfl, fun roundId => ⟨?_, ?_⟩⟩
          · rintro (⟨signers', call', ending', hlabel', hending', rfl⟩ | ⟨hbefore, hafter⟩)
            · cases hlabel'
              rw [hending, hresolution] at hending'
              cases hending'
            · by_contra hother
              refine hafter ?_
              show storage.rounds.pendingDisputes.get roundId = none
              rw [hrounds]
              exact (Store.get_set_of_ne _ _ hother).trans hbefore
          · rintro rfl
            refine .inr ⟨hordered.active_not_staged _ hsettled.active, ?_⟩
            show storage.rounds.pendingDisputes.get pending.round.roundId ≠ none
            rw [hrounds]
            simp [Rounds.stage]

/-! ## A payload is used once -/

/-- A round that was created and is not active. -/
structure Rounds.Retired (rounds : Rounds A) (roundId : ℕ) : Prop where
  known : roundId ≤ rounds.lastRoundId.getD 0
  inactive : ∀ round, rounds.activeRound = some round → round.roundId ≠ roundId

/-- A round that was active once is not active again. -/
theorem Chain.Healthy.retired (hhealthy : chain.Healthy) (hstep : Step host chain action chain')
    {roundId : ℕ} (hretired : chain.storage.rounds.Retired roundId) :
    chain'.storage.rounds.Retired roundId := by
  rcases hhealthy.creation hstep with ⟨signers, round, -, hopens⟩ | ⟨-, hlast, -, hactive⟩
  · have hid := hopens.id
    have hknown := hretired.known
    rw [hopens.rounds]
    constructor
    · simp only [Rounds.openRound, Option.getD_some]
      omega
    · intro active hactive
      obtain rfl := Option.some.inj hactive
      omega
  · refine ⟨by rw [hlast]; exact hretired.known, fun round' hround' => ?_⟩
    obtain ⟨round, hround, hid, -⟩ := hactive round' hround'
    rw [hid]
    exact hretired.inactive round hround

/-- A round that was active once is not active anywhere later. -/
theorem Chain.Healthy.retired_of_run (hhealthy : chain.Healthy)
    (hrun : Run (Step host) chain trace chain') {roundId : ℕ}
    (hretired : chain.storage.rounds.Retired roundId) :
    chain'.storage.rounds.Retired roundId := by
  refine (hrun.invariant (fun chain => chain.Healthy ∧ chain.storage.rounds.Retired roundId)
    ⟨hhealthy, hretired⟩ ?_).2
  rintro transition _ hstep ⟨hbefore, hstill⟩
  exact ⟨hstep.healthy hbefore, hbefore.retired hstep hstill⟩

omit [LinearOrder A] in
/-- The rounds a part of a history created are among those the history created. -/
theorem createdRounds_subset {earlier later : List (Transition (Chain A) (Action A))} :
    createdRounds earlier ⊆ createdRounds (earlier ++ later) := by
  rw [createdRounds, createdRounds, List.filterMap_append]
  exact List.subset_append_left _ _

/-- The round a submission handles is the created round of its start ledger. -/
theorem History.submitted (hhistory : History host trace chain)
    {transition : Transition (Chain A) (Action A)} (hmem : transition ∈ trace) {startLedger : ℕ}
    (hsubmits : Submits transition startLedger) :
    ∃ round ∈ createdRounds trace, round.startLedger = startLedger ∧
      (∀ roundId, Handles transition roundId ↔ roundId = round.roundId) ∧
      ¬ transition.before.storage.rounds.Retired round.roundId ∧
      transition.after.storage.rounds.Retired round.roundId := by
  obtain ⟨ledger, hrun⟩ := hhistory
  obtain ⟨earlier, later, rfl, hearlier, hstep, -⟩ := hrun.around hmem
  have hbefore : History host earlier transition.before := ⟨ledger, hearlier⟩
  have hhealthy := hbefore.healthy
  obtain ⟨active, hactive, rfl, hnone, hhandles⟩ := hhealthy.submission hstep hsubmits
  obtain ⟨round, hround, hid, hstart⟩ := hbefore.chronicled.active active hactive
  refine ⟨round, createdRounds_subset hround, hstart.symm, hid ▸ hhandles,
    fun hretired => hretired.inactive active hactive hid, ?_, ?_⟩
  · rcases hhealthy.creation hstep with ⟨_, _, _, hopens⟩ | ⟨-, hlast, -⟩
    · exact absurd (hactive.symm.trans hopens.active) (Option.some_ne_none _)
    · rw [hlast, Storage.Healthy.ordered hhealthy |>.active_last active hactive, ← hid]
      exact le_rfl
  · intro other hother
    rw [hnone] at hother
    cases hother

/-- In every history the created rounds are numbered by one, start in different ledgers, and are
created while no round is active. The submissions bound to one start ledger handle at most one
round, the created one that started in that ledger, and at most one of them succeeds. -/
theorem payload_handles_one_round (hhistory : History host trace chain) :
    (createdRounds trace).map (·.roundId) = List.range' 1 (createdRounds trace).length ∧
    ((createdRounds trace).map (·.startLedger)).Nodup ∧
    (∀ transition ∈ trace, createdBy transition ≠ none →
      transition.before.storage.rounds.activeRound = none) ∧
    (∀ startLedger, ∀ first ∈ trace, ∀ second ∈ trace,
      Submits first startLedger → Submits second startLedger →
      ∀ roundId roundId', Handles first roundId → Handles second roundId' →
        roundId = roundId' ∧ ∃ round ∈ createdRounds trace,
          round.roundId = roundId ∧ round.startLedger = startLedger) ∧
    ∀ startLedger earlier transition later, trace = earlier ++ transition :: later →
      Submits transition startLedger → ∀ other ∈ later, ¬ Submits other startLedger := by
  have hchronicled := hhistory.chronicled
  have hunique := List.inj_on_of_nodup_map hchronicled.distinct
  refine ⟨hchronicled.ids, hchronicled.distinct, ?_, ?_, ?_⟩
  · intro transition hmem hcreated
    obtain ⟨hreachable, hstep⟩ := hhistory.of_mem hmem
    rcases hreachable.healthy.creation hstep with ⟨_, _, _, hopens⟩ | ⟨hnone, -⟩
    · exact hopens.active
    · exact absurd hnone hcreated
  · intro startLedger first hfirst second hsecond hsubmits hsubmits' roundId roundId' hhandles
      hhandles'
    obtain ⟨round, hround, hstart, hiff, -⟩ := hhistory.submitted hfirst hsubmits
    obtain ⟨round', hround', hstart', hiff', -⟩ := hhistory.submitted hsecond hsubmits'
    obtain rfl := hunique hround hround' (hstart.trans hstart'.symm)
    exact ⟨((hiff roundId).mp hhandles).trans ((hiff' roundId').mp hhandles').symm,
      round, hround, ((hiff roundId).mp hhandles).symm, hstart⟩
  · rintro startLedger earlier transition later rfl hsubmits other hother hsubmits'
    obtain ⟨round, hround, hstart, -, -, hretired⟩ := hhistory.submitted (by simp) hsubmits
    obtain ⟨round', hround', hstart', -, hnot, -⟩ :=
      hhistory.submitted (by simp [hother]) hsubmits'
    obtain rfl := hunique hround hround' (hstart.trans hstart'.symm)
    -- the round stays retired up to the later submission, which needs it active
    obtain ⟨hbefore, hstep, hlater⟩ := hhistory.cut
    obtain ⟨first, rest, -, hfirst, -⟩ := hlater.around hother
    exact hnot (Chain.Healthy.retired_of_run (hstep.healthy hbefore.healthy) hfirst hretired)

/-- The payload that settles the Precision round of the trial run handles that round only. -/
theorem payload_handles_precision_round : ∃ chain chain' : Chain ℕ,
    Step trialHost chain (.invoke [2] (.resolveRound (trialPayload 1 1000 100))) chain' ∧
      ∀ roundId, Handles ⟨chain, .invoke [2] (.resolveRound (trialPayload 1 1000 100)), chain'⟩
        roundId → ∃ round : Round, round.roundId = roundId ∧ round.startLedger = 1 := by
  obtain ⟨trace, chain, chain', hhistory, -⟩ := exists_trial precisionRound
    (.invoke [2] (.resolveRound (trialPayload 1 1000 100))) (fun _ _ => true) (by decide +kernel)
  refine ⟨chain, chain', hhistory.last.2, fun roundId hhandles => ?_⟩
  have hsubmits : Submits (⟨chain, .invoke [2] (.resolveRound (trialPayload 1 1000 100)), chain'⟩ :
      Transition (Chain ℕ) (Action ℕ)) 1 := ⟨_, _, rfl, rfl⟩
  obtain ⟨-, -, -, hone, -⟩ := payload_handles_one_round hhistory
  obtain ⟨-, round, -, hid, hstart⟩ := hone 1 _ (List.mem_concat_self ..) _
    (List.mem_concat_self ..) hsubmits hsubmits roundId roundId hhandles hhandles
  exact ⟨round, hid, hstart⟩

end XelmaMarket
