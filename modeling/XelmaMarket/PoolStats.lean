import XelmaMarket.History
import XelmaMarket.Arithmetic
import XelmaMarket.Reveals

/-!
# Pool statistics

The live pool composition of the active round. The loop over a Precision round looks for a
prediction first and for a commitment only without one, but a revealed commitment always has a
prediction: no revealed commitment is ever counted.
-/

namespace XelmaMarket

open Transaction

/-- Aggregated pool composition of the active round. -/
structure RoundPoolStats where
  roundId : ℕ
  mode : RoundMode
  totalUpStake : ℤ
  totalDownStake : ℤ
  upParticipantCount : ℕ
  downParticipantCount : ℕ
  upStakeRatioBps : ℕ
  downStakeRatioBps : ℕ
  precisionTotalStake : ℤ
  precisionParticipantCount : ℕ
  precisionPredictionCount : ℕ
  precisionCommitmentCount : ℕ
  precisionRevealedCount : ℕ
  deriving DecidableEq

namespace RoundPoolStats

variable {A : Type}

/-- The statistics before any participant is counted. -/
def ofRound (round : Round) : RoundPoolStats where
  roundId := round.roundId
  mode := round.mode
  totalUpStake := 0
  totalDownStake := 0
  upParticipantCount := 0
  downParticipantCount := 0
  upStakeRatioBps := 0
  downStakeRatioBps := 0
  precisionTotalStake := 0
  precisionParticipantCount := 0
  precisionPredictionCount := 0
  precisionCommitmentCount := 0
  precisionRevealedCount := 0

/-- The cast of an `i128` to `u128`. -/
def asU128 (x : ℤ) : ℕ :=
  (x % 2 ^ 128).toNat

/-- The share of a pool in basis points, cut to 32 bits. -/
def stakeRatioBps (pool totalStake : ℤ) : ℕ :=
  min (2 ^ 128 - 1) (asU128 pool * asU128 bpsDenominator) / asU128 totalStake % 2 ^ 32

/-- Count the position of a participant. -/
def countPosition (rounds : Rounds A) (stats : RoundPoolStats) (user : A) : RoundPoolStats :=
  match rounds.position.get (stats.roundId, user) with
  | none => stats
  | some position =>
      match position.side with
      | .up => { stats with upParticipantCount := stats.upParticipantCount + 1 }
      | .down => { stats with downParticipantCount := stats.downParticipantCount + 1 }

/-- Set the shares of the pools in a total stake; they stay 0 without one. -/
def withRatios (round : Round) (totalStake : ℤ) (stats : RoundPoolStats) : RoundPoolStats :=
  if totalStake > 0 then
    { stats with
      upStakeRatioBps := stakeRatioBps round.poolUp totalStake
      downStakeRatioBps := stakeRatioBps round.poolDown totalStake }
  else
    stats

section Ratios

variable (stats : RoundPoolStats) (round : Round) (totalStake : ℤ)

@[simp] theorem withRatios_upParticipantCount :
    (stats.withRatios round totalStake).upParticipantCount = stats.upParticipantCount := by
  unfold withRatios
  split <;> rfl

@[simp] theorem withRatios_downParticipantCount :
    (stats.withRatios round totalStake).downParticipantCount = stats.downParticipantCount := by
  unfold withRatios
  split <;> rfl

@[simp] theorem withRatios_totalUpStake :
    (stats.withRatios round totalStake).totalUpStake = stats.totalUpStake := by
  unfold withRatios
  split <;> rfl

@[simp] theorem withRatios_totalDownStake :
    (stats.withRatios round totalStake).totalDownStake = stats.totalDownStake := by
  unfold withRatios
  split <;> rfl

end Ratios

/-- The statistics of an UpDown round. -/
def upDown (rounds : Rounds A) (round : Round) : RoundPoolStats :=
  -- a total that overflows counts as none
  let totalStake :=
    if IsAmount (round.poolUp + round.poolDown) then round.poolUp + round.poolDown else 0
  ((rounds.participants round.roundId).foldl (countPosition rounds)
    { ofRound round with
      totalUpStake := round.poolUp
      totalDownStake := round.poolDown }).withRatios round totalStake

/-- Add to the total stake of a Precision round; the sum traps when it overflows. -/
def addStake (stats : RoundPoolStats) (amount : ℤ) : Except Failure RoundPoolStats :=
  if IsAmount (stats.precisionTotalStake + amount) then
    return { stats with precisionTotalStake := stats.precisionTotalStake + amount }
  else
    throw .trap

/-- Count the prediction of a participant, or without one the commitment. -/
def countStake (rounds : Rounds A) (stats : RoundPoolStats) (user : A) :
    Except Failure RoundPoolStats :=
  match rounds.precisionPosition.get (stats.roundId, user) with
  | some prediction =>
      { stats with precisionPredictionCount := stats.precisionPredictionCount + 1 }.addStake
        prediction.amount
  | none =>
      match rounds.precisionCommitment.get (stats.roundId, user) with
      | none => return stats
      | some commitment => do
          let stats ← { stats with
            precisionCommitmentCount := stats.precisionCommitmentCount + 1 }.addStake
              commitment.amount
          if commitment.revealed = true then
            return { stats with precisionRevealedCount := stats.precisionRevealedCount + 1 }
          else
            return stats

/-- The statistics of a Precision round. -/
def precision (rounds : Rounds A) (round : Round) : Except Failure RoundPoolStats :=
  (rounds.participants round.roundId).foldlM (countStake rounds)
    { ofRound round with
      precisionParticipantCount := (rounds.participants round.roundId).length }

end RoundPoolStats

/-- The live pool composition of the active round. -/
def getRoundPoolStats {A : Type} (s : Storage A) : Except Failure (Option RoundPoolStats) :=
  match s.rounds.activeRound with
  | none => return none
  | some round =>
      match round.mode with
      | .upDown => return some (RoundPoolStats.upDown s.rounds round)
      | .precision => do
          let stats ← RoundPoolStats.precision s.rounds round
          return some stats

/-! ## UpDown counts -/

section UpDown

variable {A : Type} {rounds : Rounds A} {stats : RoundPoolStats} {users : List A}

/-- The loop counts the positions, and leaves the pools. -/
theorem foldl_countPosition
    (hpositions : ∀ user ∈ users, ∃ position,
      rounds.position.get (stats.roundId, user) = some position) :
    let counted := users.foldl (RoundPoolStats.countPosition rounds) stats
    counted.upParticipantCount + counted.downParticipantCount =
        stats.upParticipantCount + stats.downParticipantCount + users.length ∧
      counted.totalUpStake = stats.totalUpStake ∧
      counted.totalDownStake = stats.totalDownStake := by
  induction users generalizing stats with
  | nil => simp
  | cons user rest ih =>
      obtain ⟨position, hposition⟩ := hpositions user List.mem_cons_self
      have hvisit : (stats.countPosition rounds user).roundId = stats.roundId ∧
          (stats.countPosition rounds user).upParticipantCount +
              (stats.countPosition rounds user).downParticipantCount =
            stats.upParticipantCount + stats.downParticipantCount + 1 ∧
          (stats.countPosition rounds user).totalUpStake = stats.totalUpStake ∧
          (stats.countPosition rounds user).totalDownStake = stats.totalDownStake := by
        unfold RoundPoolStats.countPosition
        cases hside : position.side with
        | up | down =>
            simp only [hposition, hside, true_and, and_true]
            omega
      obtain ⟨hround, hcount, hup, hdown⟩ := hvisit
      obtain ⟨hcounts, hups, hdowns⟩ := @ih (stats.countPosition rounds user) fun other hother =>
        hround.symm ▸ hpositions other (List.mem_cons_of_mem _ hother)
      refine ⟨?_, hups.trans hup, hdowns.trans hdown⟩
      rw [List.foldl_cons, hcounts, hcount, List.length_cons]
      omega

end UpDown

/-! ## Precision counts -/

section Precision

variable {A : Type} {rounds : Rounds A} {stats : RoundPoolStats} {users : List A}

/-- A participant with a prediction. -/
def Rounds.predicts (rounds : Rounds A) (roundId : ℕ) (user : A) : Bool :=
  (rounds.precisionPosition.get (roundId, user)).isSome

/-- A participant with a commitment and no prediction. -/
def Rounds.onlyCommits (rounds : Rounds A) (roundId : ℕ) (user : A) : Bool :=
  ! rounds.predicts roundId user && (rounds.precisionCommitment.get (roundId, user)).isSome

/-- A participant whose commitment has been revealed. -/
def Rounds.hasRevealed (rounds : Rounds A) (roundId : ℕ) (user : A) : Bool :=
  (rounds.precisionCommitment.get (roundId, user)).any (·.revealed)

/-- What the loop makes of some statistics. -/
def RoundPoolStats.counted (rounds : Rounds A) (stats : RoundPoolStats) (users : List A) :
    RoundPoolStats :=
  { stats with
    precisionTotalStake := stats.precisionTotalStake +
      (users.map (precisionStake rounds stats.roundId)).sum
    precisionPredictionCount := stats.precisionPredictionCount +
      users.countP (rounds.predicts stats.roundId)
    precisionCommitmentCount := stats.precisionCommitmentCount +
      users.countP (rounds.onlyCommits stats.roundId)
    precisionRevealedCount := stats.precisionRevealedCount +
      users.countP fun user => ! rounds.predicts stats.roundId user &&
        rounds.hasRevealed stats.roundId user }

/-- One participant is counted where their stake can be added. -/
theorem countStake_eq {user : A}
    (hnext : IsAmount (stats.precisionTotalStake + precisionStake rounds stats.roundId user)) :
    stats.countStake rounds user = .ok (stats.counted rounds [user]) := by
  unfold precisionStake at hnext
  unfold RoundPoolStats.countStake RoundPoolStats.counted precisionStake RoundPoolStats.addStake
    Rounds.onlyCommits Rounds.hasRevealed Rounds.predicts
  cases hprediction : rounds.precisionPosition.get (stats.roundId, user) with
  | some prediction =>
      simp only [hprediction] at hnext
      simp [hprediction, hnext]
      rfl
  | none =>
      simp only [hprediction] at hnext
      cases hcommitment : rounds.precisionCommitment.get (stats.roundId, user) with
      | none =>
          simp [hprediction, hcommitment]
          rfl
      | some commitment =>
          rw [hcommitment] at hnext
          have hsum : IsAmount (stats.precisionTotalStake + commitment.amount) := hnext
          cases hrevealed : commitment.revealed <;>
            simp [hprediction, hcommitment, hrevealed, hsum, pure, Except.pure]

/-- Counting a participant and then others counts them all. -/
theorem counted_cons (user : A) :
    (stats.counted rounds [user]).counted rounds users = stats.counted rounds (user :: users) := by
  simp only [RoundPoolStats.counted, List.map_cons, List.map_nil, List.sum_cons, List.sum_nil,
    List.countP_cons, List.countP_nil, add_zero, zero_add, RoundPoolStats.mk.injEq, true_and]
  refine ⟨add_assoc _ _ _, ?_, ?_, ?_⟩ <;> omega

/-- The loop counts the participants where the stakes add up. -/
theorem foldlM_countStake
    (hsums : AddUpFrom stats.precisionTotalStake
      (users.map (precisionStake rounds stats.roundId))) :
    users.foldlM (RoundPoolStats.countStake rounds) stats = .ok (stats.counted rounds users) := by
  induction users generalizing stats with
  | nil => simp [RoundPoolStats.counted, pure, Except.pure]
  | cons user rest ih =>
      have hrest := (addUpFrom_cons.mp hsums).2
      have htotal : (stats.counted rounds [user]).precisionTotalStake =
          stats.precisionTotalStake + precisionStake rounds stats.roundId user := by
        simp [RoundPoolStats.counted]
      rw [List.foldlM_cons, countStake_eq hrest.isAmount, ok_bind, ih (htotal ▸ hrest),
        counted_cons]

end Precision

/-! ## What the statistics describe -/

/-- Statistics describe a round: in an UpDown round the counts make up the participants and the
stakes are those of the sides; in a Precision round the total is the one of all stakes, predictions
and open commitments make up the participants, and the revealed commitments are counted. -/
structure RoundPoolStats.Describes {A : Type} (stats : RoundPoolStats) (rounds : Rounds A)
    (round : Round) : Prop where
  upDown : round.mode = .upDown →
    stats.upParticipantCount + stats.downParticipantCount =
        (rounds.participants round.roundId).length ∧
      stats.totalUpStake = rounds.sideTotal round.roundId .up ∧
      stats.totalDownStake = rounds.sideTotal round.roundId .down
  precision : round.mode = .precision →
    stats.precisionTotalStake = rounds.totalStake .precision round.roundId ∧
      stats.precisionPredictionCount + stats.precisionCommitmentCount =
        (rounds.participants round.roundId).length ∧
      stats.precisionRevealedCount =
        (rounds.participants round.roundId).countP (rounds.hasRevealed round.roundId)

section Describes

variable {A : Type} {rounds : Rounds A} {round : Round}

/-- The statistics of an UpDown round describe it. -/
theorem upDown_describes (hbook : Represents rounds round) (hmode : round.mode = .upDown) :
    (RoundPoolStats.upDown rounds round).Describes rounds round := by
  have hpositions := fun user => @UpDownBook.position _ rounds round (hbook.upDown hmode) user
  obtain ⟨hcount, hup, hdown⟩ := @foldl_countPosition _ rounds
    { RoundPoolStats.ofRound round with
      totalUpStake := round.poolUp, totalDownStake := round.poolDown }
    (rounds.participants round.roundId) hpositions
  refine ⟨fun _ => ?_, fun h => absurd (hmode.symm.trans h) (by decide)⟩
  have hcounts := hcount.trans (zero_add (rounds.participants round.roundId).length)
  rw [← (hbook.upDown hmode).pool_up, ← (hbook.upDown hmode).pool_down]
  unfold RoundPoolStats.upDown
  rw [RoundPoolStats.withRatios_upParticipantCount, RoundPoolStats.withRatios_downParticipantCount,
    RoundPoolStats.withRatios_totalUpStake, RoundPoolStats.withRatios_totalDownStake]
  exact ⟨hcounts, hup, hdown⟩

/-- Every participant of a Precision round has a prediction or only a commitment. -/
theorem predicts_or_commits (hbook : PrecisionBook rounds round) :
    (rounds.participants round.roundId).countP (rounds.predicts round.roundId) +
        (rounds.participants round.roundId).countP (rounds.onlyCommits round.roundId) =
      (rounds.participants round.roundId).length := by
  rw [List.length_eq_countP_add_countP (rounds.predicts round.roundId)]
  refine congrArg _ (List.countP_congr fun user huser => ?_)
  unfold Rounds.onlyCommits
  rw [Bool.and_eq_true, decide_eq_true_eq, Bool.not_eq_true', Bool.not_eq_true]
  refine and_iff_left_of_imp fun hnot => ?_
  rcases (hbook.staked_iff user).mpr huser with ⟨prediction, h⟩ | ⟨commitment, h⟩
  · simp [Rounds.predicts, h] at hnot
  · simp [h]

/-- Who has revealed has a prediction. -/
theorem predicts_of_hasRevealed (hbook : PrecisionBook rounds round) {user : A}
    (hrevealed : rounds.hasRevealed round.roundId user = true) :
    rounds.predicts round.roundId user = true := by
  obtain ⟨commitment, hcommitment, hshown⟩ := (Option.any_eq_true _ _).mp hrevealed
  obtain ⟨prediction, hprediction, -⟩ := hbook.revealed user commitment hcommitment hshown
  simp [Rounds.predicts, hprediction]

/-- The loop over a Precision round finds its stakes, and no revealed commitment. -/
theorem precision_eq (hbook : Represents rounds round) (hmode : round.mode = .precision)
    (hfits : rounds.totalStake .precision round.roundId ≤ i128Max) :
    ∃ stats, RoundPoolStats.precision rounds round = .ok stats ∧
      stats.precisionTotalStake = rounds.totalStake .precision round.roundId ∧
      stats.precisionPredictionCount + stats.precisionCommitmentCount =
        (rounds.participants round.roundId).length ∧
      stats.precisionRevealedCount = 0 := by
  have hprecision := hbook.precision hmode
  have hsums : AddUpFrom 0 ((rounds.participants round.roundId).map
      (precisionStake rounds round.roundId)) := by
    refine addUpFrom_of_nonneg le_rfl (fun amount hamount => ?_) (by rwa [zero_add])
    obtain ⟨user, huser, rfl⟩ := List.mem_map.mp hamount
    have hstake := hbook.stake_pos huser
    rw [hmode] at hstake
    exact hstake.le
  have hrun := @foldlM_countStake _ rounds { RoundPoolStats.ofRound round with
    precisionParticipantCount := (rounds.participants round.roundId).length }
    (rounds.participants round.roundId) hsums
  refine ⟨_, hrun, zero_add _, ?_, ?_⟩
  · exact (congrArg₂ (· + ·) (zero_add _) (zero_add _)).trans (predicts_or_commits hprecision)
  · refine (zero_add _).trans (List.countP_eq_zero.mpr fun user _ hcounted => ?_)
    rw [Bool.and_eq_true, Bool.not_eq_true'] at hcounted
    have hpredicts := predicts_of_hasRevealed hprecision hcounted.2
    exact Bool.noConfusion (hcounted.1.symm.trans hpredicts)

end Describes

section Reads

variable {A : Type} [LinearOrder A] {host : Host A} {chain : Chain A} {round : Round}

/-- The statistics of an active round describe it exactly when it is an UpDown round or no
participant has revealed a commitment. -/
theorem pool_stats_describe_iff (hreachable : Reachable host chain)
    (hactive : chain.storage.rounds.activeRound = some round) :
    (∃ stats, getRoundPoolStats chain.storage = .ok (some stats) ∧
        stats.Describes chain.storage.rounds round) ↔
      round.mode = .upDown ∨
        ∀ user ∈ chain.storage.rounds.participants round.roundId,
          ¬ chain.storage.rounds.hasRevealed round.roundId user := by
  have hinorder := Storage.Healthy.inOrder hreachable.healthy chain.ledger.sequence_lt
  have hbook := hinorder.represents round.roundId round (.inl ⟨hactive, rfl⟩)
  have hfits := hinorder.stakes_fit round hactive
  unfold getRoundPoolStats
  rw [hactive]
  cases hmode : round.mode with
  | upDown =>
      refine iff_of_true ⟨_, ?_, upDown_describes hbook hmode⟩ (.inl rfl)
      simp only [hmode]
      rfl
  | precision =>
      rw [hmode] at hfits
      obtain ⟨stats, hrun, htotal, hcount, hnone⟩ := precision_eq hbook hmode hfits
      rw [or_iff_right (by decide)]
      simp only [hmode, hrun, ok_bind]
      constructor
      · rintro ⟨_, hstats, hdescribes⟩
        cases hstats
        exact List.countP_eq_zero.mp ((hdescribes.precision hmode).2.2.symm.trans hnone)
      · intro hhidden
        refine ⟨stats, rfl, fun h => absurd (hmode.symm.trans h) (by decide), fun _ => ?_⟩
        exact ⟨htotal, hcount, hnone.trans (List.countP_eq_zero.mpr hhidden).symm⟩

end Reads

/-- User 3 commits and user 4 predicts; nobody reveals. -/
def openCommitment : List (Action ℕ) := trialSetup ++ [
  .invoke [1] (.createRound 100 (some 1)),
  .invoke [3] (.commitPrediction 3 (trialHash 1010) 41),
  .invoke [4] (.placePrecisionPrediction 4 31 1200)]

/-- An open commitment and a prediction are described. -/
theorem pool_stats_of_open_commitment : ∃ chain : Chain ℕ, ∃ round stats,
    Reachable hashingHost chain ∧ chain.storage.rounds.activeRound = some round ∧
      getRoundPoolStats chain.storage = .ok (some stats) ∧ stats.precisionTotalStake = 72 ∧
      stats.Describes chain.storage.rounds round := by
  obtain ⟨trace, chain, hhistory, -, hfits⟩ := exists_history hashingHost openCommitment
    (fun chain => chain.storage.rounds.activeRound.any fun round : Round =>
      decide (round.mode = .precision ∧
        chain.storage.rounds.totalStake .precision round.roundId = 72 ∧
        ∀ user ∈ chain.storage.rounds.participants round.roundId,
          ¬ chain.storage.rounds.hasRevealed round.roundId user)) (by decide +kernel)
  obtain ⟨round, hactive, hround⟩ := (Option.any_eq_true _ _).mp hfits
  obtain ⟨hmode, htotal, hhidden⟩ := of_decide_eq_true hround
  obtain ⟨stats, hstats, hdescribes⟩ := (pool_stats_describe_iff ⟨trace, hhistory⟩ hactive).mpr
    (.inr hhidden)
  exact ⟨chain, round, stats, ⟨trace, hhistory⟩, hactive, hstats,
    (hdescribes.precision hmode).1.trans htotal, hdescribes⟩

/-- Users 3 and 4 have revealed, and no revealed commitment is counted. -/
theorem revealed_not_counted : ¬ ∀ (chain : Chain ℕ) round, Reachable hashingHost chain →
    chain.storage.rounds.activeRound = some round →
    ∃ stats, getRoundPoolStats chain.storage = .ok (some stats) ∧
      stats.Describes chain.storage.rounds round := by
  intro hclaim
  obtain ⟨trace, chain, hhistory, -, hfits⟩ := exists_history hashingHost
    (twoReveals 1010 100000000)
    (fun chain => chain.storage.rounds.activeRound.any fun round : Round =>
      decide (round.mode = .precision) &&
      decide (((chain.storage.rounds.participants round.roundId).countP
        (chain.storage.rounds.hasRevealed round.roundId)) = 2) &&
      (getRoundPoolStats chain.storage).toOption.join.all fun stats : RoundPoolStats =>
        decide (stats.precisionRevealedCount = 0)) (by decide +kernel)
  obtain ⟨round, hactive, hround⟩ := (Option.any_eq_true _ _).mp hfits
  rw [Bool.and_eq_true, Bool.and_eq_true] at hround
  obtain ⟨⟨hmode, hrevealed⟩, hcounted⟩ := hround
  obtain ⟨stats, hstats, hdescribes⟩ := hclaim chain round ⟨trace, hhistory⟩ hactive
  rw [hstats] at hcounted
  have hcount := (hdescribes.precision (of_decide_eq_true hmode)).2.2
  rw [of_decide_eq_true hrevealed, of_decide_eq_true hcounted] at hcount
  cases hcount

end XelmaMarket
