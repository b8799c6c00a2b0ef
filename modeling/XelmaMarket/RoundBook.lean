import XelmaMarket.Accounts

/-!
# The book of a round

What the storage keeps about a round while it is live: a list of participants, one stake for each
of them under the keys of the round's mode, and the pools. `Represents rounds round` says that
these agree with each other and with the round record.
-/

namespace XelmaMarket

variable {A : Type}

/-! ## Stakes -/

/-- A user's stake in a round of a mode; 0 without one. -/
def Rounds.stakeOf (rounds : Rounds A) (mode : RoundMode) (roundId : ℕ) (user : A) : ℤ :=
  match mode with
  | .upDown => (rounds.position.get (roundId, user)).elim 0 (·.amount)
  | .precision => precisionStake rounds roundId user

/-- A user's stake on one side of an UpDown round. -/
def Rounds.sideStake (rounds : Rounds A) (roundId : ℕ) (side : BetSide) (user : A) : ℤ :=
  (rounds.position.get (roundId, user)).elim 0 fun position =>
    if position.side = side then position.amount else 0

/-- What all participants staked on one side. -/
def Rounds.sideTotal (rounds : Rounds A) (roundId : ℕ) (side : BetSide) : ℤ :=
  ((rounds.participants roundId).map (rounds.sideStake roundId side)).sum

/-- What all participants staked. -/
def Rounds.totalStake (rounds : Rounds A) (mode : RoundMode) (roundId : ℕ) : ℤ :=
  ((rounds.participants roundId).map (rounds.stakeOf mode roundId)).sum

/-- The pool of a side. -/
def Round.pool (round : Round) : BetSide → ℤ
  | .up => round.poolUp
  | .down => round.poolDown

/-- The side bet against. -/
def BetSide.other : BetSide → BetSide
  | .up => .down
  | .down => .up

theorem Round.pool_add_other (round : Round) (side : BetSide) :
    round.pool side + round.pool side.other = round.poolUp + round.poolDown := by
  cases side with
  | up => rfl
  | down => exact add_comm _ _

/-- A stake is on one of the two sides. -/
theorem Rounds.sideStake_add (rounds : Rounds A) (roundId : ℕ) (user : A) :
    rounds.sideStake roundId .up user + rounds.sideStake roundId .down user =
      rounds.stakeOf .upDown roundId user := by
  unfold Rounds.sideStake Rounds.stakeOf
  cases h : rounds.position.get (roundId, user) with
  | none => simp
  | some position => cases hside : position.side <;> simp [hside]

/-! ## Representation -/

/-- The book of an UpDown round: one positive position for each participant, pools that add up
the sides, and nothing under the keys of the other mode. -/
structure UpDownBook (rounds : Rounds A) (round : Round) : Prop where
  position_iff : ∀ user, (∃ position, rounds.position.get (round.roundId, user) = some position) ↔
    user ∈ rounds.participants round.roundId
  amount_pos : ∀ user position, rounds.position.get (round.roundId, user) = some position →
    0 < position.amount
  pool_up : round.poolUp = rounds.sideTotal round.roundId .up
  pool_down : round.poolDown = rounds.sideTotal round.roundId .down
  no_prediction : ∀ user, rounds.precisionPosition.get (round.roundId, user) = none
  no_commitment : ∀ user, rounds.precisionCommitment.get (round.roundId, user) = none

/-- The book of a Precision round: a prediction or a commitment for each participant and nobody
else, and a prediction of the same amount for each revealed commitment. -/
structure PrecisionBook (rounds : Rounds A) (round : Round) : Prop where
  pool_up : round.poolUp = 0
  pool_down : round.poolDown = 0
  no_position : ∀ user, rounds.position.get (round.roundId, user) = none
  staked_iff : ∀ user,
    ((∃ prediction, rounds.precisionPosition.get (round.roundId, user) = some prediction) ∨
      ∃ commitment, rounds.precisionCommitment.get (round.roundId, user) = some commitment) ↔
    user ∈ rounds.participants round.roundId
  prediction_pos : ∀ user prediction,
    rounds.precisionPosition.get (round.roundId, user) = some prediction →
    prediction.user = user ∧ 0 < prediction.amount
  commitment_pos : ∀ user commitment,
    rounds.precisionCommitment.get (round.roundId, user) = some commitment →
    0 < commitment.amount
  revealed : ∀ user commitment,
    rounds.precisionCommitment.get (round.roundId, user) = some commitment →
    commitment.revealed = true →
    ∃ prediction, rounds.precisionPosition.get (round.roundId, user) = some prediction ∧
      prediction.amount = commitment.amount ∧ prediction.user = user
  unrevealed : ∀ user commitment,
    rounds.precisionCommitment.get (round.roundId, user) = some commitment →
    commitment.revealed = false →
    rounds.precisionPosition.get (round.roundId, user) = none

/-- The storage represents a round: no participant is listed twice, and the book of the round's
mode is in order. -/
structure Represents (rounds : Rounds A) (round : Round) : Prop where
  nodup : (rounds.participants round.roundId).Nodup
  upDown : round.mode = .upDown → UpDownBook rounds round
  precision : round.mode = .precision → PrecisionBook rounds round

/-- A round is live while it is active or staged into its dispute window. -/
def Rounds.IsLive (rounds : Rounds A) (roundId : ℕ) (round : Round) : Prop :=
  (rounds.activeRound = some round ∧ round.roundId = roundId) ∨
    ∃ pending, rounds.pendingDisputes.get roundId = some pending ∧ pending.round = round

section Consequences

variable {rounds : Rounds A} {round : Round}

/-- A participant of an UpDown round holds a position. -/
theorem UpDownBook.position (hbook : UpDownBook rounds round) {user : A}
    (hmem : user ∈ rounds.participants round.roundId) :
    ∃ position, rounds.position.get (round.roundId, user) = some position :=
  (hbook.position_iff user).mpr hmem

theorem UpDownBook.pool_eq (hbook : UpDownBook rounds round) (side : BetSide) :
    round.pool side = rounds.sideTotal round.roundId side := by
  cases side with
  | up => exact hbook.pool_up
  | down => exact hbook.pool_down

theorem UpDownBook.sideStake_nonneg (hbook : UpDownBook rounds round) (side : BetSide)
    (user : A) : 0 ≤ rounds.sideStake round.roundId side user := by
  unfold Rounds.sideStake
  cases h : rounds.position.get (round.roundId, user) with
  | none => simp
  | some position =>
      have := hbook.amount_pos user position h
      simp only [Option.elim_some]
      split <;> omega

theorem UpDownBook.pool_nonneg (hbook : UpDownBook rounds round) (side : BetSide) :
    0 ≤ round.pool side := by
  rw [hbook.pool_eq]
  refine List.sum_nonneg ?_
  intro x hx
  obtain ⟨user, -, rfl⟩ := List.mem_map.mp hx
  exact hbook.sideStake_nonneg side user

/-- The pools add up all stakes. -/
theorem UpDownBook.pools_eq (hbook : UpDownBook rounds round) :
    round.poolUp + round.poolDown = rounds.totalStake .upDown round.roundId := by
  rw [hbook.pool_up, hbook.pool_down]
  unfold Rounds.sideTotal Rounds.totalStake
  rw [← List.sum_map_add]
  congr 1
  exact List.map_congr_left fun user _ => rounds.sideStake_add round.roundId user

/-- Every participant of a represented round has a positive stake. -/
theorem Represents.stake_pos (hbook : Represents rounds round) {user : A}
    (hmem : user ∈ rounds.participants round.roundId) :
    0 < rounds.stakeOf round.mode round.roundId user := by
  cases hmode : round.mode with
  | upDown =>
      obtain ⟨position, hposition⟩ := (hbook.upDown hmode).position hmem
      simpa [Rounds.stakeOf, hposition] using
        (hbook.upDown hmode).amount_pos user position hposition
  | precision =>
      have hprecision := hbook.precision hmode
      simp only [Rounds.stakeOf, precisionStake]
      cases hprediction : rounds.precisionPosition.get (round.roundId, user) with
      | some prediction => exact (hprecision.prediction_pos user prediction hprediction).2
      | none =>
          rcases (hprecision.staked_iff user).mpr hmem with ⟨prediction, h⟩ | ⟨commitment, h⟩
          · simp [hprediction] at h
          · simpa [h] using hprecision.commitment_pos user commitment h

theorem Represents.totalStake_nonneg (hbook : Represents rounds round) :
    0 ≤ rounds.totalStake round.mode round.roundId := by
  refine List.sum_nonneg ?_
  intro x hx
  obtain ⟨user, hmem, rfl⟩ := List.mem_map.mp hx
  exact (hbook.stake_pos hmem).le

/-- Stakes are positive, so a total of 0 means that nobody takes part. -/
theorem Represents.totalStake_pos (hbook : Represents rounds round)
    (hne : rounds.participants round.roundId ≠ []) :
    0 < rounds.totalStake round.mode round.roundId := by
  unfold Rounds.totalStake
  refine List.sum_pos _ ?_ (by simpa using hne)
  intro x hx
  obtain ⟨user, hmem, rfl⟩ := List.mem_map.mp hx
  exact hbook.stake_pos hmem

end Consequences

end XelmaMarket
