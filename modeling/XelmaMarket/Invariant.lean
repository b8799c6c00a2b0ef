import XelmaMarket.RoundChanges

/-!
# Invariants of the storage

What every successful call keeps, read off its effect: the rounds stay in order, an outcome is
recorded only for who has left the round or seen its end, and no account goes negative.
-/

namespace XelmaMarket

variable {A : Type} [LinearOrder A] {env : Env A} {s s' : Storage A} {call : Call A}

/-! ## Which call ends which round -/

/-- The calls that end a round, with the round they end and how. -/
inductive EndsBy (s : Storage A) : Call A → Ending → Prop where
  | resolved (call : Call A) (round : Round) (finalPrice : ℕ)
      (hprice : call.price = some finalPrice) (hactive : s.rounds.activeRound = some round)
      (habove : s.control.settings.belowMinimum
        (s.rounds.participants round.roundId).length = false)
      (hwindow : s.control.settings.getDisputeLedgers = 0) :
      EndsBy s call ⟨round, .resolved finalPrice⟩
  | fallbackRefund (call : Call A) (round : Round) (finalPrice : ℕ)
      (hprice : call.price = some finalPrice) (hactive : s.rounds.activeRound = some round)
      (hbelow : s.control.settings.belowMinimum
        (s.rounds.participants round.roundId).length = true) :
      EndsBy s call ⟨round, .fallbackRefund⟩
  | cancelled (reason : ℕ) (round : Round) (hactive : s.rounds.activeRound = some round) :
      EndsBy s (.cancelRound reason) ⟨round, .cancelled reason⟩
  | voided (roundId : ℕ) (pending : PendingDisputeSettlement)
      (hpending : s.rounds.pendingDisputes.get roundId = some pending) :
      EndsBy s (.voidRound roundId) ⟨pending.round, .voided⟩
  | finalized (roundId : ℕ) (pending : PendingDisputeSettlement)
      (hpending : s.rounds.pendingDisputes.get roundId = some pending) :
      EndsBy s (.finalizeRound roundId) ⟨pending.round, .finalized pending.finalPrice⟩

omit [LinearOrder A] in
/-- A settlement of the active round resolves it or refunds it. -/
theorem endsBy_of_resolution {ending : Ending} {finalPrice : ℕ}
    (hprice : call.price = some finalPrice)
    (hending : s.resolution finalPrice = some ending) : EndsBy s call ending := by
  unfold Storage.resolution at hending
  cases hactive : s.rounds.activeRound with
  | none => simp [hactive] at hending
  | some round =>
      simp only [hactive] at hending
      split at hending
      · next hbelow =>
          obtain rfl := Option.some.inj hending
          exact .fallbackRefund call round finalPrice hprice hactive hbelow
      · next habove =>
          split at hending
          · cases hending
          · next hwindow =>
              obtain rfl := Option.some.inj hending
              exact .resolved call round finalPrice hprice hactive (by simpa using habove)
                (by omega)

omit [LinearOrder A] in
theorem Call.endsBy {ending : Ending} (hending : call.ending s = some ending) :
    EndsBy s call ending := by
  cases call with
  | resolveRound payload => exact endsBy_of_resolution rfl hending
  | resolveRoundMulti payload =>
      simp only [Call.ending, Option.bind_eq_some_iff] at hending
      obtain ⟨median, hmedian, hending⟩ := hending
      exact endsBy_of_resolution hmedian hending
  | cancelRound reason =>
      simp only [Call.ending, Option.map_eq_some_iff] at hending
      obtain ⟨round, hactive, rfl⟩ := hending
      exact .cancelled reason round hactive
  | voidRound roundId =>
      simp only [Call.ending, Option.map_eq_some_iff] at hending
      obtain ⟨pending, hpending, rfl⟩ := hending
      exact .voided roundId pending hpending
  | finalizeRound roundId =>
      simp only [Call.ending, Option.map_eq_some_iff] at hending
      obtain ⟨pending, hpending, rfl⟩ := hending
      exact .finalized roundId pending hpending
  | _ => cases hending

omit [LinearOrder A] in
/-- The round a call ends is live before. -/
theorem EndsBy.live {ending : Ending} (hordered : s.rounds.Ordered) (hends : EndsBy s call ending) :
    s.rounds.IsLive ending.round.roundId ending.round := by
  cases hends with
  | resolved _ round finalPrice _ hactive | fallbackRefund _ round finalPrice _ hactive
  | cancelled _ round hactive => exact .inl ⟨hactive, rfl⟩
  | voided roundId pending hpending | finalized roundId pending hpending =>
      refine .inr ⟨pending, ?_, rfl⟩
      simpa [(hordered.staged_represented hpending).1] using hpending

/-- The round a call ends is not live afterwards. -/
theorem EndsBy.gone {ending : Ending} (hordered : s.rounds.Ordered)
    (hends : EndsBy s call ending) :
    (∀ round, (ending.roundsAfter s.rounds).activeRound = some round →
      round.roundId ≠ ending.round.roundId) ∧
    (ending.roundsAfter s.rounds).pendingDisputes.get ending.round.roundId = none := by
  cases hends with
  | resolved _ round finalPrice _ hactive | fallbackRefund _ round finalPrice _ hactive
  | cancelled _ round hactive =>
      simpa [Ending.roundsAfter, Rounds.close] using hordered.active_not_staged round hactive
  | voided roundId pending hpending =>
      obtain ⟨rfl, -⟩ := hordered.staged_represented hpending
      refine ⟨fun round hround hid => ?_, Store.get_remove_self _ _⟩
      have hnot := hordered.active_not_staged round hround
      simp [hid, hpending] at hnot
  | finalized roundId pending hpending =>
      refine ⟨fun round hround => ?_, Store.get_remove_self _ _⟩
      cases hround

/-! ## The rounds stay in order -/

/-- Every successful call keeps the rounds in order. -/
theorem Effect.ordered (hordered : s.rounds.Ordered) (heffect : Effect env s call s') :
    s'.rounds.Ordered := by
  cases heffect with
  | quiet _ _ hsame => rwa [hsame.rounds]
  | mint _ _ _ _ _ hsame | treasuryAddress _ _ _ _ _ _ _ _ hsame | payFee _ _ _ _ _ _ _ hsame
  | payFund _ _ _ _ _ _ _ hsame | topUp _ _ _ _ _ _ _ hsame
  | reclaim _ _ _ _ _ _ _ _ _ _ _ hsame | claim _ _ _ _ _ _ hsame => rwa [hsame.rounds]
  | openRound _ round _ _ _ hid hpools _ _ hrounds =>
      rw [hrounds]
      exact openRound_ordered hordered hid hpools
  | stake _ round user amount _ hround _ _ hamount hroom hplaced =>
      exact (hplaced.joined (hordered.active_represented hround) hround hamount.1).ordered hordered
        hround hroom
  | reveal round user price salt commitment _ hround hmode hcommitment _ _ hrounds =>
      rw [hrounds]
      exact reveal_ordered hordered hround hmode hcommitment
  | cashOut round user position penaltyBps _ hround hmode _ hposition _ _ _ hrounds =>
      rw [hrounds]
      exact leave_ordered hordered hround hmode hposition
  | stage _ round pending _ _ hround hpending _ _ _ hrounds =>
      rw [hrounds]
      exact stage_ordered hordered (hpending ▸ hround)
  | ending _ ending _ hending hends =>
      rw [hends.rounds]
      have hends := Call.endsBy hending
      exact roundsAfter_ordered hordered (hends.live hordered) (hends.gone hordered).1
        (hends.gone hordered).2

/-! ## Recorded outcomes -/

/-- Outcomes are recorded under known rounds; no participant of a live round has one yet, and the
active round has one only once its betting is closed. -/
structure Recorded (ledger : ℕ) (s : Storage A) : Prop where
  known : ∀ key record, s.userRoundOutcome.get key = some record →
    key.1 ≤ s.rounds.lastRoundId.getD 0
  unrecorded : ∀ roundId round, s.rounds.IsLive roundId round →
    ∀ user ∈ s.rounds.participants roundId, s.userRoundOutcome.get (roundId, user) = none
  closed : ∀ round, s.rounds.activeRound = some round → ∀ user record,
    s.userRoundOutcome.get (round.roundId, user) = some record → round.betEndLedger ≤ ledger

omit [LinearOrder A] in
theorem Recorded.of_same {ledger : ℕ} (hrecorded : Recorded ledger s)
    (hrounds : s'.rounds = s.rounds) (houtcomes : s'.userRoundOutcome = s.userRoundOutcome) :
    Recorded ledger s' := by
  constructor
  · rw [hrounds, houtcomes]
    exact hrecorded.known
  · rw [hrounds, houtcomes]
    exact hrecorded.unrecorded
  · rw [hrounds, houtcomes]
    exact hrecorded.closed

omit [LinearOrder A] in
/-- A round whose id is later than the last one has no recorded outcome. -/
theorem Recorded.none_of_later {ledger roundId : ℕ} (hrecorded : Recorded ledger s)
    (hlater : s.rounds.lastRoundId.getD 0 < roundId) (user : A) :
    s.userRoundOutcome.get (roundId, user) = none := by
  refine Option.eq_none_iff_forall_ne_some.mpr fun record hget => ?_
  have := hrecorded.known _ record hget
  omega

omit [LinearOrder A] in
/-- The live rounds after a change of the active round's book. -/
theorem live_of_active {rounds rounds' : Rounds A} {round' : Round} {id : ℕ} {live : Round}
    (hround' : rounds'.activeRound = some round')
    (hstaged : rounds'.pendingDisputes = rounds.pendingDisputes)
    (hlive : rounds'.IsLive id live) :
    id = round'.roundId ∨ ∃ pending, rounds.pendingDisputes.get id = some pending := by
  rcases hlive with ⟨hactive, rfl⟩ | ⟨pending, hget, -⟩
  · exact .inl (congrArg Round.roundId (Option.some.inj (hactive.symm.trans hround')))
  · exact .inr ⟨pending, hstaged ▸ hget⟩

omit [LinearOrder A] in
/-- A stake in a round whose betting is open finds no outcome of the user. -/
theorem Recorded.stake {round : Round} {user : A} {amount : ℤ}
    (hrecorded : Recorded env.ledger.sequence s)
    (hround : s.rounds.activeRound = some round) (hopen : env.ledger.sequence < round.betEndLedger)
    (hjoined : Joined s.rounds round user amount s'.rounds)
    (houtcomes : s'.userRoundOutcome = s.userRoundOutcome) :
    Recorded env.ledger.sequence s' := by
  obtain ⟨round', hround', hid, -, hend, -⟩ := hjoined.active
  have hnone : ∀ other, s.userRoundOutcome.get (round.roundId, other) = none := by
    intro other
    refine Option.eq_none_iff_forall_ne_some.mpr fun record hget => ?_
    have := hrecorded.closed round hround other record hget
    omega
  constructor
  · rw [houtcomes, hjoined.last]
    exact hrecorded.known
  · intro id live hlive other hother
    rw [houtcomes]
    by_cases hsame : id = round.roundId
    · rw [hsame]
      exact hnone other
    · rw [(hjoined.other id hsame).participants] at hother
      rcases live_of_active hround' hjoined.staged hlive with h | ⟨pending, hget⟩
      · exact absurd (h.trans hid) hsame
      · exact hrecorded.unrecorded id pending.round (.inr ⟨pending, hget, rfl⟩) other hother
  · intro active hactive other record hget
    obtain rfl := Option.some.inj (hround'.symm.trans hactive)
    rw [houtcomes, hid, hnone other] at hget
    cases hget

/-- A cash-out records an outcome for the user who leaves. -/
theorem Recorded.cashOut {round : Round} {user : A} {position : UserPosition}
    {record : UserRoundOutcome A} (hordered : s.rounds.Ordered)
    (hrecorded : Recorded env.ledger.sequence s) (hround : s.rounds.activeRound = some round)
    (hclosed : round.betEndLedger ≤ env.ledger.sequence) (huser : record.user = user)
    (hrounds : s'.rounds = s.rounds.leave round user position)
    (houtcomes : s'.userRoundOutcome =
      recordAll s.userRoundOutcome round.roundId [record]) :
    Recorded env.ledger.sequence s' := by
  have hlast := hordered.active_last round hround
  have hkept : ∀ key, key ≠ (round.roundId, user) →
      s'.userRoundOutcome.get key = s.userRoundOutcome.get key := by
    intro key hkey
    rw [houtcomes]
    refine recordAll_get_of_not_mem fun other hother => ?_
    rw [List.mem_singleton.mp hother, huser]
    exact hkey
  constructor
  · intro key stored hget
    rw [hrounds]
    show key.1 ≤ s.rounds.lastRoundId.getD 0
    by_cases hkey : key = (round.roundId, user)
    · simp [hkey, hlast]
    · exact hrecorded.known key stored (hkept key hkey ▸ hget)
  · intro id live hlive other hother
    rw [hrounds] at hlive hother
    by_cases hid : id = round.roundId
    · subst hid
      rw [leave_participants, List.mem_filter] at hother
      rw [hkept _ (by simpa using hother.2)]
      exact hrecorded.unrecorded _ round (.inl ⟨hround, rfl⟩) other hother.1
    · rw [(leave_sameBook hid).participants] at hother
      rw [hkept _ (key_ne hid other user)]
      rcases live_of_active rfl rfl hlive with h | ⟨pending, hget⟩
      · exact absurd (h.trans (by simp)) hid
      · exact hrecorded.unrecorded id pending.round (.inr ⟨pending, hget, rfl⟩) other hother
  · intro active hactive _ _ _
    rw [hrounds] at hactive
    obtain rfl := Option.some.inj hactive
    cases hside : position.side <;> simpa [Round.withPool, hside] using hclosed

/-- An ending records outcomes under the round that ends, which is live no more. -/
theorem Recorded.ending {ending : Ending} {records : List (UserRoundOutcome A)} {ledger : ℕ}
    (hordered : s.rounds.Ordered) (hrecorded : Recorded ledger s) (hends : EndsBy s call ending)
    (hrounds : s'.rounds = ending.roundsAfter s.rounds)
    (houtcomes : s'.userRoundOutcome =
      recordAll s.userRoundOutcome ending.round.roundId records) : Recorded ledger s' := by
  obtain ⟨hactiveGone, hstagedGone⟩ := hends.gone hordered
  have hlive := hends.live hordered
  have hkept : ∀ key : ℕ × A, key.1 ≠ ending.round.roundId →
      s'.userRoundOutcome.get key = s.userRoundOutcome.get key := by
    intro key hkey
    rw [houtcomes]
    refine recordAll_get_of_not_mem fun other _ heq => hkey ?_
    rw [heq]
  constructor
  · intro key record hget
    rw [hrounds, roundsAfter_last]
    by_cases hkey : key.1 = ending.round.roundId
    · rw [hkey]
      rcases hlive with ⟨hround, -⟩ | ⟨pending, hpending, -⟩
      · simp [hordered.active_last _ hround]
      · exact hordered.staged_known _ pending hpending
    · exact hrecorded.known key record (hkept key hkey ▸ hget)
  · intro id round hlive' user huser
    have hid : id ≠ ending.round.roundId := by
      rintro rfl
      rcases hlive' with ⟨hround, hid⟩ | ⟨pending, hget, -⟩
      · exact hactiveGone round (hrounds ▸ hround) hid
      · rw [hrounds, hstagedGone] at hget
        cases hget
    rw [hrounds, (roundsAfter_other ending hid).participants] at huser
    rw [hkept (id, user) hid]
    refine hrecorded.unrecorded id round ?_ user huser
    rcases hlive' with ⟨hround, hid⟩ | ⟨pending, hget, hround⟩
    · exact .inl ⟨active_of_roundsAfter (hrounds ▸ hround), hid⟩
    · exact .inr ⟨pending, staged_of_roundsAfter (hrounds ▸ hget), hround⟩
  · intro round hround user record hget
    have hid := hactiveGone round (hrounds ▸ hround)
    rw [hkept (round.roundId, user) hid] at hget
    exact hrecorded.closed round (active_of_roundsAfter (hrounds ▸ hround)) user record hget

/-- Every successful call keeps the recorded outcomes in step with the rounds. -/
theorem Effect.recorded (hordered : s.rounds.Ordered)
    (hrecorded : Recorded env.ledger.sequence s) (heffect : Effect env s call s') :
    Recorded env.ledger.sequence s' := by
  cases heffect with
  | quiet _ _ hsame => exact hrecorded.of_same hsame.rounds hsame.outcomes
  | mint _ _ _ _ _ hsame | treasuryAddress _ _ _ _ _ _ _ _ hsame | payFee _ _ _ _ _ _ _ hsame
  | payFund _ _ _ _ _ _ _ hsame | topUp _ _ _ _ _ _ _ hsame
  | reclaim _ _ _ _ _ _ _ _ _ _ _ hsame | claim _ _ _ _ _ _ hsame =>
      exact hrecorded.of_same hsame.rounds hsame.outcomes
  | openRound _ round _ _ _ hid hpools _ _ hrounds houtcomes =>
      have hnew : ∀ user, s.userRoundOutcome.get (round.roundId, user) = none :=
        hrecorded.none_of_later (by omega)
      constructor
      · intro key record hget
        rw [houtcomes] at hget
        have := hrecorded.known key record hget
        rw [hrounds]
        simp only [Rounds.openRound, Option.getD_some]
        omega
      · intro id live hlive user huser
        rw [hrounds] at hlive huser
        rw [houtcomes]
        rcases hlive with ⟨hactive, rfl⟩ | ⟨pending, hget, hlive⟩
        · obtain rfl := Option.some.inj hactive
          exact hnew user
        · exact hrecorded.unrecorded id live (.inr ⟨pending, hget, hlive⟩) user huser
      · intro active hactive user record hget
        rw [hrounds] at hactive
        obtain rfl := Option.some.inj hactive
        rw [houtcomes, hnew user] at hget
        cases hget
  | stake _ round user amount _ hround _ hopen hamount _ hplaced _ houtcomes =>
      exact hrecorded.stake hround hopen
        (hplaced.joined (hordered.active_represented hround) hround hamount.1) houtcomes
  | reveal round user price salt commitment _ hround hmode _ _ _ hrounds houtcomes =>
      constructor
      · rw [hrounds, houtcomes]
        exact hrecorded.known
      · rw [hrounds, houtcomes]
        exact hrecorded.unrecorded
      · rw [hrounds, houtcomes]
        exact hrecorded.closed
  | cashOut round user position penaltyBps _ hround _ hclosed _ _ _ _ hrounds houtcomes =>
      exact hrecorded.cashOut hordered hround hclosed rfl hrounds houtcomes
  | stage _ round pending _ _ hround hpending _ _ _ hrounds houtcomes =>
      constructor
      · rw [hrounds, houtcomes]
        exact hrecorded.known
      · intro id live hlive user huser
        rw [hrounds] at hlive huser
        rw [houtcomes]
        rcases hlive with ⟨hactive, -⟩ | ⟨other, hget, hlive⟩
        · cases hactive
        · simp only [Rounds.stage, Store.get_set] at hget
          split at hget
          · next hid =>
              subst hid
              exact hrecorded.unrecorded _ round (.inl ⟨hround, by rw [hpending]⟩) user huser
          · exact hrecorded.unrecorded id live (.inr ⟨other, hget, hlive⟩) user huser
      · intro active hactive
        rw [hrounds] at hactive
        cases hactive
  | ending _ ending _ hending hends =>
      exact hrecorded.ending hordered (Call.endsBy hending) hends.rounds hends.outcomes

/-! ## One round a ledger -/

/-- Rounds are numbered from 1 and opened at most once a ledger. -/
structure Paced (ledger : ℕ) (rounds : Rounds A) : Prop where
  last_le : rounds.lastRoundId.getD 0 ≤ ledger + 1
  last_le_of_unused : rounds.roundStartLedger.get ledger = none →
    rounds.lastRoundId.getD 0 ≤ ledger

omit [LinearOrder A] in
/-- Ledgers go by. -/
theorem Paced.later {rounds : Rounds A} {ledger ledger' : ℕ} (hpaced : Paced ledger rounds)
    (hledger : ledger ≤ ledger') : Paced ledger' rounds := by
  have hlast := hpaced.last_le
  rcases hledger.eq_or_lt with rfl | hlt
  · exact hpaced
  · exact ⟨by omega, fun _ => by omega⟩

theorem Effect.paced (hordered : s.rounds.Ordered) (hpaced : Paced env.ledger.sequence s.rounds)
    (heffect : Effect env s call s') : Paced env.ledger.sequence s'.rounds := by
  have hsame : ∀ rounds' : Rounds A, rounds'.lastRoundId = s.rounds.lastRoundId →
      rounds'.roundStartLedger = s.rounds.roundStartLedger →
      Paced env.ledger.sequence rounds' := by
    intro rounds' hlast hstarted
    constructor
    · rw [hlast]
      exact hpaced.last_le
    · rw [hlast, hstarted]
      exact hpaced.last_le_of_unused
  cases heffect with
  | quiet _ _ hsame => rwa [hsame.rounds]
  | mint _ _ _ _ _ hsame | treasuryAddress _ _ _ _ _ _ _ _ hsame | payFee _ _ _ _ _ _ _ hsame
  | payFund _ _ _ _ _ _ _ hsame | topUp _ _ _ _ _ _ _ hsame
  | reclaim _ _ _ _ _ _ _ _ _ _ _ hsame | claim _ _ _ _ _ _ hsame => rwa [hsame.rounds]
  | openRound _ round _ _ _ hid _ hstart _ hrounds =>
      rw [hrounds]
      have hlast := hpaced.last_le_of_unused (hstart.1 ▸ hstart.2)
      constructor
      · simp only [Rounds.openRound, Option.getD_some]
        omega
      · intro hunused
        simp [Rounds.openRound, hstart.1] at hunused
  | stake _ round user amount _ hround _ _ hamount _ hplaced =>
      have hjoined := hplaced.joined (hordered.active_represented hround) hround hamount.1
      exact hsame _ hjoined.last hjoined.started
  | reveal round user price salt commitment _ _ _ _ _ _ hrounds =>
      rw [hrounds]
      exact hsame _ rfl rfl
  | cashOut round user position penaltyBps _ _ _ _ _ _ _ _ hrounds =>
      rw [hrounds]
      exact hsame _ rfl rfl
  | stage _ round pending _ _ _ _ _ _ _ hrounds =>
      rw [hrounds]
      exact hsame _ rfl rfl
  | ending _ ending _ hending hends =>
      rw [hends.rounds]
      exact hsame _ (roundsAfter_last ending) (roundsAfter_started ending)

/-! ## No account goes negative -/

/-- No account holds a negative amount. -/
structure Vault.Solvent (vault : Vault A) : Prop where
  balance : ∀ user amount, vault.balance.get user = some amount → 0 ≤ amount
  pending : ∀ user amount, vault.pendingWinnings.get user = some amount → 0 ≤ amount
  treasury : 0 ≤ vault.treasury
  fund : 0 ≤ vault.insuranceFund

namespace Vault.Solvent

variable {vault : Vault A} {user : A} {amount : ℤ}

omit [LinearOrder A] in
theorem balanceOf_nonneg (hsolvent : vault.Solvent) (user : A) : 0 ≤ vault.balanceOf user := by
  unfold Vault.balanceOf Store.getD
  cases h : vault.balance.get user with
  | none => exact le_rfl
  | some amount => exact hsolvent.balance user amount h

omit [LinearOrder A] in
theorem pendingOf_nonneg (hsolvent : vault.Solvent) (user : A) : 0 ≤ vault.pendingOf user := by
  unfold Vault.pendingOf Store.getD
  cases h : vault.pendingWinnings.get user with
  | none => exact le_rfl
  | some amount => exact hsolvent.pending user amount h

/-- Writing an amount that is not negative keeps all of them so. -/
theorem nonneg_of_set {entries : Store A ℤ} (hentries : ∀ user amount,
    entries.get user = some amount → 0 ≤ amount) (hamount : 0 ≤ amount) :
    ∀ other stored, (entries.set user amount).get other = some stored → 0 ≤ stored := by
  intro other stored hget
  rw [Store.get_set] at hget
  split at hget
  · cases hget
    exact hamount
  · exact hentries other stored hget

theorem nonneg_of_remove {entries : Store A ℤ} (hentries : ∀ user amount,
    entries.get user = some amount → 0 ≤ amount) :
    ∀ other stored, (entries.remove user).get other = some stored → 0 ≤ stored := by
  intro other stored hget
  rw [Store.get_remove] at hget
  split at hget
  · cases hget
  · exact hentries other stored hget

theorem debit (hsolvent : vault.Solvent) (hamount : amount ≤ vault.balanceOf user) :
    (vault.debit user amount).Solvent :=
  ⟨nonneg_of_set hsolvent.balance (by omega), hsolvent.pending, hsolvent.treasury, hsolvent.fund⟩

theorem deposit (hsolvent : vault.Solvent) (hamount : 0 ≤ amount) :
    (vault.deposit user amount).Solvent := by
  have := hsolvent.balanceOf_nonneg user
  exact ⟨nonneg_of_set hsolvent.balance (by omega), hsolvent.pending, hsolvent.treasury,
    hsolvent.fund⟩

theorem clearPending (hsolvent : vault.Solvent) : (vault.clearPending user).Solvent :=
  ⟨hsolvent.balance, nonneg_of_remove hsolvent.pending, hsolvent.treasury, hsolvent.fund⟩

theorem claim (hsolvent : vault.Solvent) : (vault.claim user).Solvent := by
  unfold Vault.claim
  split
  · exact hsolvent
  · have hbalance := hsolvent.balanceOf_nonneg user
    have hpending := hsolvent.pendingOf_nonneg user
    exact ⟨nonneg_of_set hsolvent.balance (by omega), nonneg_of_remove hsolvent.pending,
      hsolvent.treasury, hsolvent.fund⟩

theorem claimAll (hsolvent : vault.Solvent) (users : List A) :
    (users.foldl Vault.claim vault).Solvent := by
  induction users generalizing vault with
  | nil => exact hsolvent
  | cons user rest ih => exact ih hsolvent.claim

omit [LinearOrder A] in
theorem collectFee (hsolvent : vault.Solvent) (splitBps : ℕ) (hfee : 0 ≤ amount) :
    (vault.collectFee splitBps amount).Solvent := by
  have hshare := @insuranceShare_nonneg splitBps _ hfee
  have hrest := (@insuranceShare_le splitBps amount)
  have htreasury := hsolvent.treasury
  have hfund := hsolvent.fund
  constructor
  · rw [Vault.collectFee_balance]
    exact hsolvent.balance
  · rw [Vault.collectFee_pendingWinnings]
    exact hsolvent.pending
  · rw [Vault.collectFee_treasury _ _ hfee]
    omega
  · rw [Vault.collectFee_insuranceFund _ _ hfee]
    omega

omit [LinearOrder A] in
theorem payFromFund (hsolvent : vault.Solvent) (hamount : 0 ≤ amount)
    (hcovered : amount ≤ vault.insuranceFund) : (vault.payFromFund amount).Solvent := by
  constructor
  · rw [Vault.payFromFund_balance]
    exact hsolvent.balance
  · rw [Vault.payFromFund_pendingWinnings]
    exact hsolvent.pending
  · rw [Vault.payFromFund_treasury]
    exact hsolvent.treasury
  · rw [Vault.payFromFund_insuranceFund _ hamount]
    omega

theorem creditAll (hsolvent : vault.Solvent) (ledger : ℕ) {credits : List (A × ℤ)}
    (hcredits : ∀ credit ∈ credits, 0 ≤ credit.2) :
    (vault.creditAll ledger credits).Solvent := by
  induction credits generalizing vault with
  | nil => exact hsolvent
  | cons credit rest ih =>
      have hpending := hsolvent.pendingOf_nonneg credit.1
      have hcredit := hcredits credit (by simp)
      refine ih ⟨hsolvent.balance, nonneg_of_set hsolvent.pending (by omega), hsolvent.treasury,
        hsolvent.fund⟩ fun other hother => hcredits other (List.mem_cons_of_mem _ hother)

end Vault.Solvent

/-- What an early cash-out forfeits is a part of the stake. -/
theorem forfeitOf_bounds {stake : ℤ} {penaltyBps : ℕ} (hstake : 0 < stake)
    (hpenalty : penaltyBps ≤ 10000) :
    0 ≤ forfeitOf stake penaltyBps ∧ forfeitOf stake penaltyBps ≤ stake := by
  have hmul : stake * (penaltyBps : ℤ) ≤ stake * 10000 :=
    mul_le_mul_of_nonneg_left (by omega) hstake.le
  constructor
  · exact Int.ediv_nonneg (mul_nonneg hstake.le (by omega)) (by decide)
  · exact Int.ediv_le_of_le_mul (by decide) hmul

omit [LinearOrder A] in
theorem coveragePaid_nonneg (ending : Ending) : 0 ≤ s.coveragePaid ending := by
  unfold Storage.coveragePaid
  split
  · exact le_max_left _ _
  · exact le_rfl

omit [LinearOrder A] in
/-- The fund pays no more than it holds. -/
theorem coveragePaid_le (hfund : 0 ≤ s.vault.insuranceFund) (ending : Ending) :
    s.coveragePaid ending ≤ s.vault.insuranceFund := by
  unfold Storage.coveragePaid
  split
  · exact max_le hfund (min_le_right _ _)
  · exact hfund

omit [LinearOrder A] in
/-- What the end of a round credits is not negative. -/
theorem creditsOf_nonneg {plan : Plan A} {rounds : Rounds A} {round : Round}
    (hsound : plan.Sound rounds round) :
    ∀ credit ∈ creditsOf plan.records, 0 ≤ credit.2 := by
  intro credit hcredit
  obtain ⟨record, hrecord, rfl⟩ := exists_record_of_credit hcredit
  exact hsound.payout_nonneg record hrecord

omit [LinearOrder A] in
theorem coverageCredits_pos {ending : Ending} :
    ∀ credit ∈ s.coverageCredits ending, 0 < credit.2 := fun _ hcredit => by
  simpa using (List.mem_filter.mp hcredit).2

/-- Every successful call keeps the accounts from going negative. -/
theorem Effect.solvent (hordered : s.rounds.Ordered)
    (hcap : FeeCapped s.control.settings.protocolFeeBps) (hsolvent : s.vault.Solvent)
    (heffect : Effect env s call s') : s'.vault.Solvent := by
  cases heffect with
  | quiet _ _ hsame => rwa [hsame.vault]
  | mint user _ _ _ hvault =>
      rw [hvault]
      exact hsolvent.deposit (by decide)
  | treasuryAddress _ _ _ _ _ _ _ hvault =>
      rw [hvault]
      exact ⟨hsolvent.balance, hsolvent.pending, le_rfl, hsolvent.fund⟩
  | payFee _ recipient amount _ _ hamount hvault =>
      rw [hvault]
      have hpaid := @Vault.Solvent.deposit _ _ _ recipient _ hsolvent hamount.1.le
      refine ⟨hpaid.balance, hpaid.pending, ?_, hpaid.fund⟩
      show 0 ≤ s.vault.treasury - amount
      omega
  | payFund _ recipient amount _ _ hamount hvault =>
      rw [hvault]
      have hpaid := @Vault.Solvent.deposit _ _ _ recipient _ hsolvent hamount.1.le
      refine ⟨hpaid.balance, hpaid.pending, hpaid.treasury, ?_⟩
      show 0 ≤ s.vault.insuranceFund - amount
      omega
  | topUp admin amount _ _ _ hamount hvault =>
      rw [hvault]
      have hpaid := hsolvent.debit hamount.2
      have hfund := hsolvent.fund
      refine ⟨hpaid.balance, hpaid.pending, hpaid.treasury, ?_⟩
      show 0 ≤ s.vault.insuranceFund + amount
      omega
  | reclaim user admin _ _ _ _ _ _ _ _ hvault =>
      rw [hvault]
      exact hsolvent.clearPending.deposit (hsolvent.pendingOf_nonneg user)
  | claim _ users _ _ _ hvault =>
      rw [hvault]
      exact hsolvent.claimAll users
  | openRound _ _ _ _ _ _ _ _ hvault | reveal _ _ _ _ _ _ _ _ _ _ hvault
  | stage _ _ _ _ _ _ _ _ _ hvault => rwa [hvault]
  | stake _ _ user amount _ _ _ _ hamount _ _ hvault =>
      rw [hvault]
      exact hsolvent.debit hamount.2
  | cashOut round user position penaltyBps _ _ _ _ _ hpenalty hstake hvault =>
      rw [hvault]
      refine (hsolvent.creditAll _ fun credit hcredit => ?_).collectFee _
        (forfeitOf_bounds hstake hpenalty).1
      exact (by simpa using (List.mem_filter.mp hcredit).2 : 0 < credit.2).le
  | ending _ ending _ hending hends =>
      have hbook := (hordered.live _ _ ((Call.endsBy hending).live hordered)).2
      have hsound := @Ending.plan_sound _ _ _ s.control.settings.terms _ hbook hcap
      have hcovered := coveragePaid_le hsolvent.fund ending
      rw [hends.vault]
      have hfee := hsolvent.collectFee s.control.settings.insuranceSplitBps hsound.fee_nonneg
      refine ((hfee.creditAll _ (creditsOf_nonneg hsound)).payFromFund (coveragePaid_nonneg ending) ?_).creditAll _
        fun credit hcredit => (coverageCredits_pos credit hcredit).le
      rw [Vault.creditAll_insuranceFund, Vault.collectFee_insuranceFund _ _ hsound.fee_nonneg]
      have := @insuranceShare_nonneg s.control.settings.insuranceSplitBps _
        hsound.fee_nonneg
      omega

end XelmaMarket
