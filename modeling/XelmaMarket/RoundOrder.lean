import XelmaMarket.Proceeds

/-!
# The rounds stay in order

`Rounds.Ordered` is the invariant of the round storage: the book of every round is in order, the
active round is the last one opened, and no round is both active and staged. Each change of the
rounds keeps it, because it touches the book of one round only.
-/

namespace XelmaMarket

variable {A : Type}

/-! ## The book of one round -/

/-- Nothing changed under a round id. -/
structure SameBook (rounds rounds' : Rounds A) (roundId : ℕ) : Prop where
  listed : rounds'.roundParticipants.get roundId = rounds.roundParticipants.get roundId
  position : ∀ user, rounds'.position.get (roundId, user) = rounds.position.get (roundId, user)
  prediction : ∀ user, rounds'.precisionPosition.get (roundId, user) =
    rounds.precisionPosition.get (roundId, user)
  commitment : ∀ user, rounds'.precisionCommitment.get (roundId, user) =
    rounds.precisionCommitment.get (roundId, user)

/-- Nothing is stored under a round id. -/
structure NoBook (rounds : Rounds A) (roundId : ℕ) : Prop where
  listed : rounds.roundParticipants.get roundId = none
  position : ∀ user, rounds.position.get (roundId, user) = none
  prediction : ∀ user, rounds.precisionPosition.get (roundId, user) = none
  commitment : ∀ user, rounds.precisionCommitment.get (roundId, user) = none

section SameBook

variable {rounds rounds' rounds'' : Rounds A} {roundId : ℕ} {round : Round}

theorem SameBook.refl (rounds : Rounds A) (roundId : ℕ) : SameBook rounds rounds roundId :=
  ⟨rfl, fun _ => rfl, fun _ => rfl, fun _ => rfl⟩

theorem SameBook.trans (hfirst : SameBook rounds rounds' roundId)
    (hsecond : SameBook rounds' rounds'' roundId) : SameBook rounds rounds'' roundId where
  listed := hsecond.listed.trans hfirst.listed
  position user := (hsecond.position user).trans (hfirst.position user)
  prediction user := (hsecond.prediction user).trans (hfirst.prediction user)
  commitment user := (hsecond.commitment user).trans (hfirst.commitment user)

theorem SameBook.participants (hsame : SameBook rounds rounds' roundId) :
    rounds'.participants roundId = rounds.participants roundId := by
  simp [Rounds.participants, Store.getD, hsame.listed]

theorem SameBook.stakeOf (hsame : SameBook rounds rounds' roundId) (mode : RoundMode) (user : A) :
    rounds'.stakeOf mode roundId user = rounds.stakeOf mode roundId user := by
  cases mode with
  | upDown => simp [Rounds.stakeOf, hsame.position]
  | precision => simp [Rounds.stakeOf, precisionStake, hsame.prediction, hsame.commitment]

theorem SameBook.totalStake (hsame : SameBook rounds rounds' roundId) (mode : RoundMode) :
    rounds'.totalStake mode roundId = rounds.totalStake mode roundId := by
  unfold Rounds.totalStake
  rw [hsame.participants]
  exact congrArg List.sum (List.map_congr_left fun user _ => hsame.stakeOf mode user)

theorem SameBook.sideTotal (hsame : SameBook rounds rounds' roundId) (side : BetSide) :
    rounds'.sideTotal roundId side = rounds.sideTotal roundId side := by
  unfold Rounds.sideTotal
  rw [hsame.participants]
  refine congrArg List.sum (List.map_congr_left fun user _ => ?_)
  simp [Rounds.sideStake, hsame.position]

/-- A round whose book did not change stays represented. -/
theorem SameBook.represents (hsame : SameBook rounds rounds' round.roundId)
    (hbook : Represents rounds round) : Represents rounds' round where
  nodup := by
    rw [hsame.participants]
    exact hbook.nodup
  upDown hmode := by
    have h := hbook.upDown hmode
    constructor
    · simpa only [hsame.position, hsame.participants] using h.position_iff
    · simpa only [hsame.position] using h.amount_pos
    · rw [hsame.sideTotal]
      exact h.pool_up
    · rw [hsame.sideTotal]
      exact h.pool_down
    · simpa only [hsame.prediction] using h.no_prediction
    · simpa only [hsame.commitment] using h.no_commitment
  precision hmode := by
    have h := hbook.precision hmode
    constructor
    · exact h.pool_up
    · exact h.pool_down
    · simpa only [hsame.position] using h.no_position
    · simpa only [hsame.prediction, hsame.commitment, hsame.participants] using h.staked_iff
    · simpa only [hsame.prediction] using h.prediction_pos
    · simpa only [hsame.commitment] using h.commitment_pos
    · simpa only [hsame.commitment, hsame.prediction] using h.revealed
    · simpa only [hsame.commitment, hsame.prediction] using h.unrevealed

theorem NoBook.participants (hnone : NoBook rounds roundId) :
    rounds.participants roundId = [] := by
  simp [Rounds.participants, Store.getD, hnone.listed]

/-- A round without a book is represented with empty pools. -/
theorem NoBook.represents (hnone : NoBook rounds round.roundId)
    (hpools : round.poolUp = 0 ∧ round.poolDown = 0) : Represents rounds round where
  nodup := by simp [hnone.participants]
  upDown _ := by
    constructor <;> simp [hnone.participants, hnone.position, hnone.prediction, hnone.commitment,
      hpools, Rounds.sideTotal]
  precision _ := by
    constructor <;> simp [hnone.participants, hnone.position, hnone.prediction, hnone.commitment,
      hpools]

/-- The book of a round without a list of participants is empty. -/
theorem Represents.noBook (hbook : Represents rounds round)
    (hlisted : rounds.roundParticipants.get round.roundId = none) :
    NoBook rounds round.roundId := by
  have hempty : rounds.participants round.roundId = [] := by
    simp [Rounds.participants, Store.getD, hlisted]
  cases hmode : round.mode with
  | upDown =>
      have h := hbook.upDown hmode
      refine ⟨hlisted, fun user => ?_, h.no_prediction, h.no_commitment⟩
      refine Option.eq_none_iff_forall_ne_some.mpr fun position hposition => ?_
      have := (h.position_iff user).mp ⟨position, hposition⟩
      simp [hempty] at this
  | precision =>
      have h := hbook.precision hmode
      refine ⟨hlisted, h.no_position, fun user => ?_, fun user => ?_⟩
      · refine Option.eq_none_iff_forall_ne_some.mpr fun prediction hprediction => ?_
        have := (h.staked_iff user).mp (.inl ⟨prediction, hprediction⟩)
        simp [hempty] at this
      · refine Option.eq_none_iff_forall_ne_some.mpr fun commitment hcommitment => ?_
        have := (h.staked_iff user).mp (.inr ⟨commitment, hcommitment⟩)
        simp [hempty] at this

end SameBook

/-! ## The invariant -/

/-- The rounds are in order: every book is, those of live rounds for the live record; the active
round is the last one, no staged or listed round is later, none is active and staged, and no list
outgrows a vector. -/
structure Rounds.Ordered (rounds : Rounds A) : Prop where
  represented : ∀ roundId, ∃ round, round.roundId = roundId ∧ Represents rounds round
  live : ∀ roundId round, rounds.IsLive roundId round →
    round.roundId = roundId ∧ Represents rounds round
  active_last : ∀ round, rounds.activeRound = some round →
    rounds.lastRoundId = some round.roundId
  active_not_staged : ∀ round, rounds.activeRound = some round →
    rounds.pendingDisputes.get round.roundId = none
  staged_known : ∀ roundId pending, rounds.pendingDisputes.get roundId = some pending →
    roundId ≤ rounds.lastRoundId.getD 0
  listed_known : ∀ roundId, rounds.roundParticipants.get roundId ≠ none →
    roundId ≤ rounds.lastRoundId.getD 0
  room : ∀ roundId, (rounds.participants roundId).length ≤ maxVecLength

namespace Rounds.Ordered

variable {rounds rounds' : Rounds A} {roundId : ℕ} {round : Round}

theorem active_represented (hordered : rounds.Ordered) (hactive : rounds.activeRound = some round) :
    Represents rounds round :=
  (hordered.live round.roundId round (.inl ⟨hactive, rfl⟩)).2

theorem staged_represented (hordered : rounds.Ordered) {pending : PendingDisputeSettlement}
    (hpending : rounds.pendingDisputes.get roundId = some pending) :
    pending.round.roundId = roundId ∧ Represents rounds pending.round :=
  hordered.live roundId pending.round (.inr ⟨pending, hpending, rfl⟩)

/-- A live round was opened. -/
theorem live_known (hordered : rounds.Ordered) (hlive : rounds.IsLive roundId round) :
    roundId ≤ rounds.lastRoundId.getD 0 := by
  rcases hlive with ⟨hactive, rfl⟩ | ⟨pending, hpending, -⟩
  · rw [hordered.active_last round hactive, Option.getD_some]
  · exact hordered.staged_known roundId pending hpending

/-- A round id is live with one record. -/
theorem live_unique (hordered : rounds.Ordered) {round' : Round}
    (hlive : rounds.IsLive roundId round) (hlive' : rounds.IsLive roundId round') :
    round = round' := by
  have hapart : ∀ {active : Round} {pending : PendingDisputeSettlement},
      rounds.activeRound = some active → active.roundId = roundId →
      rounds.pendingDisputes.get roundId = some pending → False := by
    intro active pending hactive hid hpending
    have hnone := hordered.active_not_staged active hactive
    rw [hid, hpending] at hnone
    cases hnone
  rcases hlive with ⟨hactive, hid⟩ | ⟨pending, hpending, rfl⟩ <;>
    rcases hlive' with ⟨hactive', hid'⟩ | ⟨pending', hpending', rfl⟩
  · exact Option.some.inj (hactive.symm.trans hactive')
  · exact (hapart hactive hid hpending').elim
  · exact (hapart hactive' hid' hpending).elim
  · rw [Option.some.inj (hpending.symm.trans hpending')]

/-- A round id beyond the last one has no book. -/
theorem noBook_of_later (hordered : rounds.Ordered)
    (hlater : rounds.lastRoundId.getD 0 < roundId) : NoBook rounds roundId := by
  obtain ⟨round, rfl, hbook⟩ := hordered.represented roundId
  refine hbook.noBook ?_
  by_contra hlisted
  have := hordered.listed_known round.roundId hlisted
  omega

/-- A change that touches the book of one known round only keeps the rounds in order, when the
records that are live afterwards are in order too. -/
theorem touch (hordered : rounds.Ordered) (roundId : ℕ)
    (hother : ∀ id, id ≠ roundId → SameBook rounds rounds' id)
    (hround : ∃ round, round.roundId = roundId ∧ Represents rounds' round)
    (hlast : rounds.lastRoundId.getD 0 ≤ rounds'.lastRoundId.getD 0)
    (hknown : roundId ≤ rounds'.lastRoundId.getD 0)
    (hroom : (rounds'.participants roundId).length ≤ maxVecLength)
    (hactive : ∀ round, rounds'.activeRound = some round →
      rounds'.lastRoundId = some round.roundId ∧
      rounds'.pendingDisputes.get round.roundId = none ∧
      ((round.roundId = roundId ∧ Represents rounds' round) ∨
        round.roundId ≠ roundId ∧ rounds.activeRound = some round))
    (hstaged : ∀ id pending, rounds'.pendingDisputes.get id = some pending →
      (id = roundId ∧ pending.round.roundId = roundId ∧ Represents rounds' pending.round) ∨
        id ≠ roundId ∧ rounds.pendingDisputes.get id = some pending) : rounds'.Ordered where
  represented id := by
    by_cases hid : id = roundId
    · rw [hid]
      exact hround
    · obtain ⟨round, rfl, hbook⟩ := hordered.represented id
      exact ⟨round, rfl, (hother _ hid).represents hbook⟩
  live id round hlive := by
    rcases hlive with ⟨hround, rfl⟩ | ⟨pending, hpending, rfl⟩
    · rcases (hactive round hround).2.2 with ⟨-, hbook⟩ | ⟨hid, hround⟩
      · exact ⟨rfl, hbook⟩
      · exact ⟨rfl, (hother _ hid).represents (hordered.active_represented hround)⟩
    · rcases hstaged id pending hpending with ⟨rfl, hid, hbook⟩ | ⟨hid, hpending⟩
      · exact ⟨hid, hbook⟩
      · obtain ⟨rfl, hbook⟩ := hordered.staged_represented hpending
        exact ⟨rfl, (hother _ hid).represents hbook⟩
  active_last round hround := (hactive round hround).1
  active_not_staged round hround := (hactive round hround).2.1
  staged_known id pending hpending := by
    rcases hstaged id pending hpending with ⟨rfl, -, -⟩ | ⟨-, hpending⟩
    · exact hknown
    · exact (hordered.staged_known id pending hpending).trans hlast
  listed_known id hlisted := by
    by_cases hid : id = roundId
    · rw [hid]
      exact hknown
    · rw [(hother id hid).listed] at hlisted
      exact (hordered.listed_known id hlisted).trans hlast
  room id := by
    by_cases hid : id = roundId
    · rw [hid]
      exact hroom
    · rw [(hother id hid).participants]
      exact hordered.room id

/-- A change of the book of the active round, which stays active under its id. -/
theorem touch_active (hordered : rounds.Ordered) (hactive : rounds.activeRound = some round)
    {round' : Round} (hround' : rounds'.activeRound = some round')
    (hid : round'.roundId = round.roundId) (hbook : Represents rounds' round')
    (hother : ∀ id, id ≠ round.roundId → SameBook rounds rounds' id)
    (hlast : rounds'.lastRoundId = rounds.lastRoundId)
    (hpending : rounds'.pendingDisputes = rounds.pendingDisputes)
    (hroom : (rounds'.participants round.roundId).length ≤ maxVecLength) : rounds'.Ordered := by
  have hlastId := hordered.active_last round hactive
  refine hordered.touch round.roundId hother ⟨round', hid, hbook⟩ (by rw [hlast]) ?_ hroom ?_ ?_
  · simp [hlast, hlastId]
  · intro active h
    obtain rfl := Option.some.inj (hround'.symm.trans h)
    refine ⟨?_, ?_, .inl ⟨hid, hbook⟩⟩
    · rw [hlast, hlastId, hid]
    · rw [hpending, hid]
      exact hordered.active_not_staged round hactive
  · intro id pending h
    rw [hpending] at h
    refine .inr ⟨?_, h⟩
    rintro rfl
    rw [hordered.active_not_staged round hactive] at h
    cases h

end Rounds.Ordered

end XelmaMarket
