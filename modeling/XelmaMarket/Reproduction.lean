import XelmaMarket.Parity
import XelmaMarket.ReplayTraps
import XelmaMarket.Summaries

/-!
# Replaying the ends of rounds

The transcript of an ended round, and when its replay reproduces what the contract did. A refund is
always reproduced. A settlement at a price is reproduced exactly when a fee on the pot and equal
shares pay what the configured fee model and payout policy do: a transcript does not carry them.
-/

namespace XelmaMarket

open Transaction

variable {A : Type} [LinearOrder A]

/-! ## Transcripts of ended rounds -/

omit [LinearOrder A] in
/-- The terminal action of an ending. -/
def EndingKind.terminal : EndingKind → TerminalAction
  | .resolved _ | .finalized _ => .resolve
  | .fallbackRefund => .fallbackRefund
  | .cancelled _ => .cancel
  | .voided => .void

/-- The transcript row of a participant, at an index. -/
def Rounds.transcriptRow (rounds : Rounds A) (round : Round) (entry : A × ℕ) :
    TranscriptParticipant where
  index := entry.2
  amount := rounds.stakeOf round.mode round.roundId entry.1
  sideUp :=
    match round.mode with
    | .upDown => some (rounds.betOn round.roundId .up entry.1)
    | .precision => none
  revealed := (rounds.precisionPosition.get (round.roundId, entry.1)).isSome
  predictedPrice := revealedPrice rounds round.roundId entry.1

/-- The transcript of the round an ending ends, recorded from the storage before it. -/
def Storage.transcript (s : Storage A) (ending : Ending) (finalPrice : ℕ) : RoundTranscript where
  schemaVersion := transcriptSchemaVersion
  roundId := ending.round.roundId
  mode := ending.round.mode
  terminal := ending.kind.terminal
  priceStart := ending.round.priceStart
  finalPrice := finalPrice
  poolUp := ending.round.poolUp
  poolDown := ending.round.poolDown
  feeBps := s.control.settings.protocolFeeBps
  minParticipants := s.control.settings.minParticipants
  participantCount := (s.rounds.participants ending.round.roundId).length
  oracleRoundId := ending.round.roundId
  participants := (sortAddresses (s.rounds.participants ending.round.roundId)).zipIdx.map
    (s.rounds.transcriptRow ending.round)

/-- A replay result is what the contract did: the archive status and the fee, and for every
participant, by ascending address, the recorded payout and outcome. -/
structure ReplaysAs (s s' : Storage A) (roundId : ℕ) (result : ReplayResult) : Prop where
  summarized : Summarizes roundId result.archiveStatus result.totalFee s s'
  indices : result.payouts.map (·.index) = List.range (s.rounds.participants roundId).length
  recorded : ∀ entry ∈ (sortAddresses (s.rounds.participants roundId)).zip result.payouts,
    ∃ record, s'.userRoundOutcome.get (roundId, entry.1) = some record ∧
      record.payout = entry.2.payout ∧ record.outcome = entry.2.outcome

/-! ## Plain terms -/

/-- The terms a replay settles under. -/
def Terms.plain (terms : Terms) : Terms :=
  { terms with feeModel := .feeOnPot, payoutPolicy := .equal }

/-- What is paid under the terms is what equal shares of the pot after a fee on the pot pay: the
round is refunded, or the fee is the one of the pot, and where stakes are weighted every share but
the first one is the equal one. -/
def Terms.PaysPlainly (terms : Terms) (rounds : Rounds A) (round : Round) (finalPrice : ℕ) : Prop :=
  match round.mode with
  | .upDown => ¬ round.refundsAt finalPrice → terms.feeModel = .feeOnWinnings →
      rateOf terms.protocolFeeBps (round.pool (round.winningSide finalPrice).other) =
        rateOf terms.protocolFeeBps (round.poolUp + round.poolDown)
  | .precision =>
      let pot := rounds.totalStake .precision round.roundId
      let winners := rounds.sortedWinners round finalPrice
      let stakes := rounds.stakesOf round.roundId winners
      let pool := pot - rateOf terms.protocolFeeBps pot
      winners ≠ [] →
        (terms.feeModel = .feeOnWinnings →
          rateOf terms.protocolFeeBps (pot - stakes) = rateOf terms.protocolFeeBps pot) ∧
        (terms.payoutPolicy = .stakeWeighted → ∀ user ∈ winners.tail,
          Apportion.share pool stakes (rounds.stakeOf .precision round.roundId user) =
            pool / winners.length)

section Plain

variable {terms : Terms} {rounds : Rounds A} {round : Round} {finalPrice : ℕ}

omit [LinearOrder A] in
/-- A fee on a part of the pot is at most the fee on the pot. -/
theorem rateOf_mono {bps : Option ℕ} {base pot : ℤ} (hle : base ≤ pot) :
    rateOf bps base ≤ rateOf bps pot := by
  cases bps with
  | none => exact le_rfl
  | some rate =>
      exact Int.ediv_le_ediv (by decide)
        (mul_le_mul_of_nonneg_right hle (Int.natCast_nonneg rate))

omit [LinearOrder A] in
/-- A plain fee on a competitive UpDown round is at least the configured one. -/
theorem upDownFee_le_plain (hbook : UpDownBook rounds round) (side : BetSide) :
    terms.upDownFee round side ≤ terms.plain.upDownFee round side := by
  have hsum := round.pool_add_other side
  have hpool := hbook.pool_nonneg side
  unfold Terms.plain Terms.upDownFee
  cases terms.feeModel with
  | feeOnPot => exact le_rfl
  | feeOnWinnings => exact rateOf_mono (by omega)

omit [LinearOrder A] in
/-- The arithmetic of a competitive UpDown settlement stays in range under plain terms. -/
theorem UpDownComputes.plain {side : BetSide} {participants : List A}
    (hbook : UpDownBook rounds round) (hcap : FeeCapped terms.protocolFeeBps)
    (hpool : round.pool side ≠ 0) (hpot : round.poolUp + round.poolDown ≤ i128Max)
    (hrate : RateFits terms.protocolFeeBps (round.poolUp + round.poolDown))
    (hcomputes : UpDownComputes terms rounds round side participants) :
    UpDownComputes terms.plain rounds round side participants := by
  obtain ⟨dist, -, -, hpayout⟩ := hcomputes
  refine upDownComputes_of_fits hbook hcap hpool hpot hrate fun user huser hbet => ?_
  obtain ⟨position, hposition, hside⟩ := (Option.any_eq_true _ _).mp hbet
  have hpaid := hpayout user huser position hposition (of_decide_eq_true hside)
  simp only [computeUpdownWinnerPayout, if_neg hpool, bind_eq_ok, payoutMul_eq_ok] at hpaid
  obtain ⟨product, ⟨-, -, hproduct⟩, -⟩ := hpaid
  have hless : terms.plain.upDownPot round side ≤ terms.upDownPot round side := by
    have hfee := @upDownFee_le_plain _ terms rounds round hbook side
    unfold Terms.upDownPot
    omega
  rw [show rounds.stakeOf .upDown round.roundId user = position.amount by
    simp [Rounds.stakeOf, hposition]]
  exact (mul_le_mul_of_nonneg_left hless (hbook.amount_pos user position hposition).le).trans
    hproduct

/-- The arithmetic of a settlement stays in range under plain terms. -/
theorem Computes.plain_upDown (hbook : Represents rounds round) (hmode : round.mode = .upDown)
    (hne : rounds.participants round.roundId ≠ []) (hcap : FeeCapped terms.protocolFeeBps)
    (hpot : rounds.totalStake .upDown round.roundId ≤ i128Max)
    (hrate : RateFits terms.protocolFeeBps (rounds.totalStake .upDown round.roundId))
    (hcomputes : Computes terms rounds round finalPrice) :
    Computes terms.plain rounds round finalPrice := by
  unfold Computes at hcomputes ⊢
  simp only [hmode] at hcomputes ⊢
  intro hrefunds hsorted
  have hpools := pools_pos hbook hmode hrefunds hne
  have hpool : round.pool (round.winningSide finalPrice) ≠ 0 := by
    cases round.winningSide finalPrice with
    | up => exact hpools.1.ne'
    | down => exact hpools.2.ne'
  rw [← (hbook.upDown hmode).pools_eq] at hpot hrate
  exact (hcomputes hrefunds hsorted).plain (hbook.upDown hmode) hcap hpool hpot hrate

/-- The amounts of a Precision settlement under plain terms fit. -/
theorem potFits_plain (hpot : rounds.totalStake .precision round.roundId ≤ i128Max)
    (hrate : RateFits terms.protocolFeeBps (rounds.totalStake .precision round.roundId)) :
    terms.plain.PotFits rounds round finalPrice
      (sortAddresses (rounds.participants round.roundId)) := by
  have hsum : ((sortAddresses (rounds.participants round.roundId)).map
      (rounds.stakeOf .precision round.roundId)).sum =
        rounds.totalStake .precision round.roundId :=
    ((sortAddresses_perm _).map _).sum_eq
  exact ⟨hsum ▸ hpot, fun _ => hsum ▸ hrate, fun _ hpolicy => by cases hpolicy⟩

end Plain

/-! ## Replays of settlements -/

/-- The replay of a settlement under terms: the fee of the plan, and the records of the
participants. -/
def Terms.replayed (terms : Terms) (rounds : Rounds A) (round : Round) (finalPrice : ℕ) :
    ReplayResult where
  archiveStatus := .resolved
  totalFee := (terms.plan rounds round finalPrice).fee
  payouts := (sortAddresses (rounds.participants round.roundId)).zipIdx.map fun entry =>
    ⟨entry.2, (terms.recordOf rounds round finalPrice entry.1).payout,
      (terms.recordOf rounds round finalPrice entry.1).outcome⟩

section Replays

variable {s : Storage A} {ending : Ending} {finalPrice : ℕ}

omit [LinearOrder A] in
/-- The entries of the engine are all refunds when the records are. -/
theorem all_upDownEntry (records : List (UserRoundOutcome A)) :
    (records.zipIdx.map fun entry => entry.1.upDownEntry entry.2).all (·.isRefund) =
      records.all (·.outcome = .refund) := by
  conv_rhs => rw [← List.zipIdx_map_fst 0 records, List.all_map]
  rw [List.all_map]
  rfl

/-- The fee a plain UpDown settlement takes, from the classes of its records. -/
theorem plan_fee_upDown {terms : Terms} {rounds : Rounds A} {round : Round}
    (hmode : round.mode = .upDown) (hne : rounds.participants round.roundId ≠ []) :
    (terms.plain.plan rounds round finalPrice).fee =
      if (terms.plain.plan rounds round finalPrice).records.all (·.outcome = .refund) then 0
      else rateOf terms.protocolFeeBps (round.poolUp + round.poolDown) := by
  have hsorted : sortAddresses (rounds.participants round.roundId) ≠ [] := by
    obtain ⟨user, huser⟩ := List.exists_mem_of_ne_nil _ hne
    exact List.ne_nil_of_mem (mem_sortAddresses.mpr huser)
  unfold Terms.plan
  simp only [hmode, Terms.upDownPlan]
  by_cases hrefunds : round.refundsAt finalPrice
  · rw [if_pos hrefunds, if_pos]
    simp [Rounds.refundRecords]
  · rw [if_neg hrefunds, if_neg]
    · rfl
    · obtain ⟨user, huser⟩ := List.exists_mem_of_ne_nil _ hsorted
      rw [List.all_eq_true]
      intro hall
      have hrefund := of_decide_eq_true (hall _ (List.mem_map_of_mem huser))
      unfold Terms.upDownRecord at hrefund
      split at hrefund <;> simp at hrefund

/-- The replay of an UpDown settlement is the one under plain terms. -/
theorem replayUpDown_eq (hbook : Represents s.rounds ending.round)
    (hmode : ending.round.mode = .upDown)
    (hne : s.rounds.participants ending.round.roundId ≠ [])
    (hcap : FeeCapped s.control.settings.protocolFeeBps)
    (hpot : s.rounds.totalStake .upDown ending.round.roundId ≤ i128Max)
    (hrate : RateFits s.control.settings.protocolFeeBps
      (s.rounds.totalStake .upDown ending.round.roundId))
    (hcomputes : Computes s.control.settings.terms.plain s.rounds ending.round finalPrice) :
    replayUpDown (s.transcript ending finalPrice) =
      .ok (s.control.settings.terms.plain.replayed s.rounds ending.round finalPrice) := by
  have hpositions : (s.transcript ending finalPrice).participants.map (fun p =>
      (⟨p.index, p.amount, p.sideUp.getD true⟩ : UpDownPosition)) =
        s.rounds.upDownPositions ending.round.roundId := by
    rw [Storage.transcript, List.map_map]
    refine List.map_congr_left fun entry _ => ?_
    simp [Rounds.transcriptRow, Rounds.upDownPosition, hmode]
  have hbook' := hbook.upDown hmode
  have hup := hbook'.pool_nonneg .up
  have hdown := hbook'.pool_nonneg .down
  rw [← hbook'.pools_eq] at hpot hrate
  obtain ⟨dist, hdist⟩ := @calculateProtocolFeeUpdown_of_fits ending.round.poolUp
    ending.round.poolDown s.control.settings.protocolFeeBps .feeOnPot hcap hup hdown hpot hrate
  obtain ⟨hfee, -⟩ := @calculateProtocolFeeUpdown_spec ending.round
    s.control.settings.terms.plain .up _ ⟨hup, hdown⟩ hdist
  unfold replayUpDown
  rw [hpositions]
  have hentries := computeUpdownPayouts_eq hbook hmode hne rfl hcomputes
  refine (congrArg (· >>= _) hentries).trans ?_
  rw [ok_bind]
  refine congrArg Except.ok ?_
  simp only [Terms.replayed, ReplayResult.mk.injEq, true_and]
  constructor
  · rw [plan_fee_upDown hmode hne, ← all_upDownEntry]
    have hmaxUp : max ending.round.poolUp 0 = ending.round.poolUp := max_eq_left hup
    have hmaxDown : max ending.round.poolDown 0 = ending.round.poolDown := max_eq_left hdown
    simp only [Storage.transcript, hmaxUp, hmaxDown, computeUpdownFee_eq, hdist]
    exact if_congr Iff.rfl rfl hfee
  · rw [upDown_records hmode, List.zipIdx_map, List.map_map, List.map_map]
    refine List.map_congr_left fun entry _ => ?_
    simp [UserRoundOutcome.upDownEntry, outcomeOf_eq recordOf_outcome]

/-- The fee a plain Precision settlement takes, from the classes of its records. -/
theorem plan_fee_precision {terms : Terms} {rounds : Rounds A} {round : Round}
    (hmode : round.mode = .precision) :
    (terms.plain.plan rounds round finalPrice).fee =
      if ((sortAddresses (rounds.participants round.roundId)).map
          (terms.plain.recordOf rounds round finalPrice)).all (·.outcome = .refund) then 0
      else rateOf terms.protocolFeeBps (rounds.totalStake .precision round.roundId) := by
  have hsum : ((sortAddresses (rounds.participants round.roundId)).map
      (rounds.stakeOf .precision round.roundId)).sum =
        rounds.totalStake .precision round.roundId :=
    ((sortAddresses_perm _).map _).sum_eq
  unfold Terms.plan Terms.recordOf
  simp only [hmode, Terms.precisionPlan]
  by_cases hnone : rounds.winners round.roundId finalPrice
      (sortAddresses (rounds.participants round.roundId)) = []
  · rw [if_pos hnone, if_pos]
    simp [Terms.precisionRecord, hnone]
  · rw [if_neg hnone, if_neg, hsum]
    · rfl
    · obtain ⟨winner, hwinner⟩ := List.exists_mem_of_ne_nil _ hnone
      obtain ⟨huser, hwins⟩ := List.mem_filter.mp hwinner
      rw [List.all_eq_true]
      intro hall
      have hrefund := of_decide_eq_true (hall _ (List.mem_map_of_mem huser))
      rw [Terms.precisionRecord, if_neg hnone, if_pos (of_decide_eq_true hwins)] at hrefund
      simp at hrefund

/-- The replay of a Precision settlement is the one under plain terms. -/
theorem replayPrecision_eq (hbook : Represents s.rounds ending.round)
    (hmode : ending.round.mode = .precision)
    (hne : s.rounds.participants ending.round.roundId ≠ [])
    (hcap : FeeCapped s.control.settings.protocolFeeBps)
    (hpot : s.rounds.totalStake .precision ending.round.roundId ≤ i128Max)
    (hrate : RateFits s.control.settings.protocolFeeBps
      (s.rounds.totalStake .precision ending.round.roundId)) :
    replayPrecision (s.transcript ending finalPrice) =
      .ok (s.control.settings.terms.plain.replayed s.rounds ending.round finalPrice) := by
  have hentries : (s.transcript ending finalPrice).participants.map (fun p =>
      (⟨p.index, p.predictedPrice, p.amount, p.revealed⟩ : PrecisionEntry)) =
        s.rounds.precisionEntries ending.round.roundId := by
    rw [Storage.transcript, List.map_map]
    refine List.map_congr_left fun entry _ => ?_
    simp [Rounds.transcriptRow, Rounds.precisionEntry, hmode]
  have hsum : ((s.rounds.precisionEntries ending.round.roundId).map (·.amount)).sum =
      s.rounds.totalStake .precision ending.round.roundId := by
    have hamounts : (s.rounds.precisionEntries ending.round.roundId).map (·.amount) =
        (sortAddresses (s.rounds.participants ending.round.roundId)).map
          (s.rounds.stakeOf .precision ending.round.roundId) := by
      conv_rhs => rw [← List.zipIdx_map_fst 0
        (sortAddresses (s.rounds.participants ending.round.roundId))]
      rw [Rounds.precisionEntries, List.map_map, List.map_map]
      rfl
    rw [hamounts]
    exact ((sortAddresses_perm _).map _).sum_eq
  have hstaked : ∀ entry ∈ s.rounds.precisionEntries ending.round.roundId, 0 ≤ entry.amount := by
    intro entry hentry
    obtain ⟨indexed, hindexed, rfl⟩ := List.mem_map.mp hentry
    have hstake := hbook.stake_pos (mem_sortAddresses.mp (List.fst_mem_of_mem_zipIdx hindexed))
    rw [hmode] at hstake
    exact hstake.le
  have hpositive := hbook.totalStake_pos hne
  rw [hmode] at hpositive
  have hsums : AddUpFrom 0 ((s.rounds.precisionEntries ending.round.roundId).map (·.amount)) := by
    refine addUpFrom_of_nonneg le_rfl (fun amount hamount => ?_) (by rwa [zero_add, hsum])
    obtain ⟨entry, hentry, rfl⟩ := List.mem_map.mp hamount
    exact hstaked entry hentry
  have htotal := (foldlM_addAmount hsums.isAmount).resolve_right fun h => h.1 hsums
  rw [zero_add, hsum] at htotal
  unfold replayPrecision
  rw [hentries]
  refine (congrArg (· >>= _) htotal.2).trans ?_
  rw [ok_bind]
  have hmath := @precision_entries _ _ s.control.settings.terms.plain _ _ finalPrice hbook hmode
    hne rfl hcap (potFits_plain hpot hrate)
  refine (congrArg (· >>= _) hmath).trans ?_
  rw [ok_bind]
  refine congrArg Except.ok ?_
  simp only [Terms.replayed, ReplayResult.mk.injEq, true_and]
  constructor
  · have hall : ((sortAddresses (s.rounds.participants ending.round.roundId)).zipIdx.map
        fun entry => (s.control.settings.terms.plain.recordOf s.rounds ending.round finalPrice
          entry.1).precisionEntry entry.2).all (·.isRefund) =
        ((sortAddresses (s.rounds.participants ending.round.roundId)).map
          (s.control.settings.terms.plain.recordOf s.rounds ending.round finalPrice)).all
          (·.outcome = .refund) := by
      conv_rhs => rw [← List.zipIdx_map_fst 0
        (sortAddresses (s.rounds.participants ending.round.roundId)), List.map_map, List.all_map]
      rw [List.all_map]
      rfl
    rw [plan_fee_precision hmode, ← hall]
    simp only [Storage.transcript]
    rw [computePrecisionFee_of_fits hcap hpositive hpot hrate]
    rfl
  · rw [List.map_map]
    refine List.map_congr_left fun entry _ => ?_
    simp [UserRoundOutcome.precisionEntry, outcomeOf_eq recordOf_outcome]

end Replays

/-! ## Agreement with plain terms -/

section Agreement

variable {terms : Terms} {rounds : Rounds A} {round : Round} {finalPrice : ℕ}

/-- The classes of the records do not depend on the terms. -/
theorem recordOf_outcome_plain (user : A) :
    (terms.recordOf rounds round finalPrice user).outcome =
      (terms.plain.recordOf rounds round finalPrice user).outcome := by
  unfold Terms.recordOf
  cases round.mode with
  | upDown =>
      simp only [Terms.upDownRecord]
      split
      · rfl
      · split <;> simp
  | precision =>
      simp only [Terms.precisionRecord]
      split
      · rfl
      · split <;> simp

/-- What a settlement pays is what it pays under plain terms: the fee and every payout. -/
def Terms.AgreesPlainly (terms : Terms) (rounds : Rounds A) (round : Round) (finalPrice : ℕ) :
    Prop :=
  (terms.plan rounds round finalPrice).fee = (terms.plain.plan rounds round finalPrice).fee ∧
    ∀ user ∈ rounds.participants round.roundId,
      (terms.recordOf rounds round finalPrice user).payout =
        (terms.plain.recordOf rounds round finalPrice user).payout

/-- An UpDown settlement agrees exactly when the fees do. -/
theorem agreesPlainly_upDown (hmode : round.mode = .upDown) :
    terms.AgreesPlainly rounds round finalPrice ↔
      terms.PaysPlainly rounds round finalPrice := by
  unfold Terms.AgreesPlainly Terms.PaysPlainly Terms.plan Terms.recordOf
  simp only [hmode, Terms.upDownPlan]
  by_cases hrefunds : round.refundsAt finalPrice
  · simp [hrefunds]
  · simp only [hrefunds, if_false, not_false_iff, true_implies]
    constructor
    · rintro ⟨hfee, -⟩ hmodel
      rw [Terms.upDownFee, hmodel] at hfee
      exact hfee
    · intro hrate
      have hfee : terms.upDownFee round (round.winningSide finalPrice) =
          terms.plain.upDownFee round (round.winningSide finalPrice) := by
        unfold Terms.plain Terms.upDownFee
        cases hmodel : terms.feeModel with
        | feeOnPot => rfl
        | feeOnWinnings => exact hrate hmodel
      refine ⟨hfee, fun user _ => ?_⟩
      simp only [Terms.upDownRecord, Terms.upDownPot, hfee]

omit [LinearOrder A] in
/-- The payouts of the winners: what the others leave goes to the first. -/
theorem winnerPayouts_cons {participants : List A} {first : A} {rest : List A} {pool : ℤ}
    (hwinners : rounds.winners round.roundId finalPrice participants = first :: rest)
    (hpool : pool = (participants.map (rounds.stakeOf .precision round.roundId)).sum -
      terms.precisionFee (participants.map (rounds.stakeOf .precision round.roundId)).sum
        (rounds.stakesOf round.roundId (first :: rest))) :
    terms.winnerPayouts rounds round finalPrice participants =
      (pool - (rest.map (terms.winnerShare rounds round (first :: rest) pool)).sum) ::
        rest.map (terms.winnerShare rounds round (first :: rest) pool) := by
  have hshares : terms.payoutPolicy.shares pool
      ((first :: rest).map (rounds.stakeOf .precision round.roundId)) =
        (first :: rest).map (terms.winnerShare rounds round (first :: rest) pool) := by
    rw [PrecisionPayoutPolicy.shares, List.map_map, List.length_map]
    rfl
  unfold Terms.winnerPayouts PrecisionPayoutPolicy.payouts
  simp only [hwinners]
  rw [← hpool, hshares]
  simp only [List.map_cons, withRemainder, List.sum_cons]
  congr 1
  omega

omit [LinearOrder A] in
/-- The image at the place of a listed item is its image. -/
theorem getD_map_idxOf [DecidableEq A] {items : List A} {f : A → ℤ} {a : A} (hmem : a ∈ items) :
    (items.map f).getD (items.idxOf a) 0 = f a := by
  have hplace := List.idxOf_lt_length_of_mem hmem
  rw [List.getD_eq_getElem _ _ (by rwa [List.length_map]), List.getElem_map, List.getElem_idxOf]

section Winners

variable {first : A} {rest : List A} (hmode : round.mode = .precision)
  (hwinners : rounds.sortedWinners round finalPrice = first :: rest)
include hmode hwinners

/-- The fee of a Precision settlement with winners. -/
theorem plan_fee_of_winners :
    (terms.plan rounds round finalPrice).fee =
      terms.precisionFee (rounds.totalStake .precision round.roundId)
        (rounds.stakesOf round.roundId (first :: rest)) := by
  have hsum : ((sortAddresses (rounds.participants round.roundId)).map
      (rounds.stakeOf .precision round.roundId)).sum =
        rounds.totalStake .precision round.roundId :=
    ((sortAddresses_perm _).map _).sum_eq
  unfold Rounds.sortedWinners at hwinners
  unfold Terms.plan
  simp only [hmode, Terms.precisionPlan, hwinners, hsum, reduceCtorEq, if_false]

/-- The payout of a participant of a Precision settlement with winners. -/
theorem recordOf_payout_of_winners (user : A) :
    (terms.recordOf rounds round finalPrice user).payout =
      if rounds.IsWinner round.roundId finalPrice
          (sortAddresses (rounds.participants round.roundId)) user then
        (terms.winnerPayouts rounds round finalPrice
          (sortAddresses (rounds.participants round.roundId))).getD
            ((first :: rest).idxOf user) 0
      else 0 := by
  unfold Rounds.sortedWinners at hwinners
  unfold Terms.recordOf
  simp only [hmode, Terms.precisionRecord, hwinners, reduceCtorEq, if_false]
  split
  · simp
  · simp [Rounds.lossRecord]

/-- A Precision settlement with winners agrees exactly when the fees and the shares do. -/
theorem agreesPlainly_winners (hnodup : (first :: rest).Nodup) :
    terms.AgreesPlainly rounds round finalPrice ↔
      (terms.feeModel = .feeOnWinnings →
        rateOf terms.protocolFeeBps (rounds.totalStake .precision round.roundId -
            rounds.stakesOf round.roundId (first :: rest)) =
          rateOf terms.protocolFeeBps (rounds.totalStake .precision round.roundId)) ∧
      (terms.payoutPolicy = .stakeWeighted → ∀ user ∈ rest,
        Apportion.share (rounds.totalStake .precision round.roundId -
            rateOf terms.protocolFeeBps (rounds.totalStake .precision round.roundId))
            (rounds.stakesOf round.roundId (first :: rest))
            (rounds.stakeOf .precision round.roundId user) =
          (rounds.totalStake .precision round.roundId -
            rateOf terms.protocolFeeBps (rounds.totalStake .precision round.roundId)) /
              (first :: rest).length) := by
  have hsum : ((sortAddresses (rounds.participants round.roundId)).map
      (rounds.stakeOf .precision round.roundId)).sum =
        rounds.totalStake .precision round.roundId :=
    ((sortAddresses_perm _).map _).sum_eq
  have hfees : terms.precisionFee (rounds.totalStake .precision round.roundId)
        (rounds.stakesOf round.roundId (first :: rest)) =
      terms.plain.precisionFee (rounds.totalStake .precision round.roundId)
        (rounds.stakesOf round.roundId (first :: rest)) ↔
      (terms.feeModel = .feeOnWinnings →
        rateOf terms.protocolFeeBps (rounds.totalStake .precision round.roundId -
            rounds.stakesOf round.roundId (first :: rest)) =
          rateOf terms.protocolFeeBps (rounds.totalStake .precision round.roundId)) := by
    unfold Terms.plain Terms.precisionFee
    cases terms.feeModel <;> simp
  unfold Terms.AgreesPlainly
  rw [plan_fee_of_winners hmode hwinners, plan_fee_of_winners hmode hwinners, hfees]
  refine and_congr_right fun hrate => ?_
  simp only [recordOf_payout_of_winners hmode hwinners]
  have hpayouts := @winnerPayouts_cons _ terms _ _ _ _ _ _
    (rounds.totalStake .precision round.roundId -
      rateOf terms.protocolFeeBps (rounds.totalStake .precision round.roundId)) hwinners
    (by rw [hsum, hfees.mpr hrate]; rfl)
  have hplain := @winnerPayouts_cons _ terms.plain _ _ _ _ _ _
    (rounds.totalStake .precision round.roundId -
      rateOf terms.protocolFeeBps (rounds.totalStake .precision round.roundId)) hwinners
    (by rw [hsum]; rfl)
  rw [hpayouts, hplain]
  generalize rounds.totalStake .precision round.roundId -
    rateOf terms.protocolFeeBps (rounds.totalStake .precision round.roundId) = pool
  constructor
  · intro hpays hpolicy user huser
    have hne : first ≠ user := fun heq => (List.nodup_cons.mp hnodup).1 (heq ▸ huser)
    have hmem : user ∈ rounds.sortedWinners round finalPrice := by
      rw [hwinners]
      exact List.mem_cons_of_mem _ huser
    obtain ⟨hsorted, hwins⟩ := List.mem_filter.mp hmem
    have hpaid := hpays user (mem_sortAddresses.mp hsorted)
    rw [if_pos (of_decide_eq_true hwins), if_pos (of_decide_eq_true hwins),
      List.idxOf_cons_ne _ hne, List.getD_cons_succ, List.getD_cons_succ,
      getD_map_idxOf huser, getD_map_idxOf huser] at hpaid
    rw [Terms.winnerShare, hpolicy] at hpaid
    exact hpaid
  · intro hshares user _
    have heach : ∀ other ∈ rest, terms.winnerShare rounds round (first :: rest) pool other =
        terms.plain.winnerShare rounds round (first :: rest) pool other := by
      intro other hother
      unfold Terms.plain Terms.winnerShare
      cases hpolicy : terms.payoutPolicy with
      | equal => rfl
      | stakeWeighted => exact hshares hpolicy other hother
    rw [List.map_congr_left heach]

end Winners

/-- A settlement agrees with plain terms exactly when it pays plainly. -/
theorem agreesPlainly_iff (hbook : Represents rounds round) :
    terms.AgreesPlainly rounds round finalPrice ↔ terms.PaysPlainly rounds round finalPrice := by
  cases hmode : round.mode with
  | upDown => exact agreesPlainly_upDown hmode
  | precision =>
      unfold Terms.PaysPlainly
      simp only [hmode]
      cases hwinners : rounds.sortedWinners round finalPrice with
      | nil =>
          unfold Rounds.sortedWinners at hwinners
          unfold Terms.AgreesPlainly Terms.plan Terms.recordOf
          simp [hmode, Terms.precisionPlan, Terms.precisionRecord, hwinners]
      | cons first rest =>
          have hnodup : (rounds.sortedWinners round finalPrice).Nodup :=
            ((sortAddresses_perm _).nodup_iff.mpr hbook.nodup).filter _
          rw [hwinners] at hnodup
          rw [agreesPlainly_winners hmode hwinners hnodup]
          simp

end Agreement

/-! ## The property -/

theorem zip_zipIdx_map {α β : Type} (items : List α) (f : α × ℕ → β) :
    items.zip (items.zipIdx.map f) = items.zipIdx.map fun entry => (entry.1, f entry) := by
  conv_lhs => arg 1; rw [← List.zipIdx_map_fst 0 items]
  exact List.zip_map'

section Property

variable {s s' : Storage A} {ledger : ℕ} {ending : Ending} {finalPrice : ℕ}

/-- A result that names a payout and an outcome for every participant is what the contract did
exactly when it is summarized and its entries are the records. -/
theorem replaysAs_iff {result : ReplayResult} (payout : A → ℤ) (outcome : A → UserOutcomeType)
    (hpayouts : result.payouts =
      (sortAddresses (s.rounds.participants ending.round.roundId)).zipIdx.map fun entry =>
        ⟨entry.2, payout entry.1, outcome entry.1⟩) :
    ReplaysAs s s' ending.round.roundId result ↔
      Summarizes ending.round.roundId result.archiveStatus result.totalFee s s' ∧
      ∀ user ∈ s.rounds.participants ending.round.roundId, ∃ record,
        s'.userRoundOutcome.get (ending.round.roundId, user) = some record ∧
        record.payout = payout user ∧ record.outcome = outcome user := by
  constructor
  · rintro ⟨hsummarized, -, hrecorded⟩
    refine ⟨hsummarized, fun user huser => ?_⟩
    obtain ⟨index, hindex⟩ := List.getElem?_of_mem (mem_sortAddresses.mpr huser)
    have hmem := List.mk_mem_zipIdx_iff_getElem?.mpr hindex
    refine hrecorded (user, ⟨index, payout user, outcome user⟩) ?_
    rw [hpayouts, zip_zipIdx_map]
    exact List.mem_map_of_mem hmem
  · rintro ⟨hsummarized, hrecords⟩
    refine ⟨hsummarized, ?_, fun entry hentry => ?_⟩
    · rw [hpayouts, List.map_map]
      have hindices := List.zipIdx_map_snd 0
        (sortAddresses (s.rounds.participants ending.round.roundId))
      rw [(sortAddresses_perm _).length_eq, ← List.range_eq_range'] at hindices
      exact hindices
    · rw [hpayouts, zip_zipIdx_map] at hentry
      obtain ⟨indexed, hindexed, rfl⟩ := List.mem_map.mp hentry
      exact hrecords indexed.1 (mem_sortAddresses.mp (List.fst_mem_of_mem_zipIdx hindexed))

/-- The rows of a transcript are in order. -/
theorem validateSchema_transcript
    (hne : s.rounds.participants ending.round.roundId ≠ []) :
    (s.transcript ending finalPrice).validateSchema = .ok () := by
  have hlength : (s.transcript ending finalPrice).participants.length =
      (s.rounds.participants ending.round.roundId).length := by
    simp [Storage.transcript, (sortAddresses_perm _).length_eq]
  have hnonempty : (s.transcript ending finalPrice).participants ≠ [] := by
    intro hempty
    rw [hempty, List.length_nil] at hlength
    exact hne (List.length_eq_zero_iff.mp hlength.symm)
  have hordered : ((s.transcript ending finalPrice).participants.zipIdx.find? fun entry =>
      entry.1.index ≠ entry.2) = none := by
    rw [List.find?_eq_none]
    intro entry hentry hmisplaced
    have hget := List.mem_zipIdx_iff_getElem?.mp hentry
    simp only [Storage.transcript, List.getElem?_map, List.getElem?_zipIdx, Option.map_map,
      Option.map_eq_some_iff] at hget
    obtain ⟨user, -, hrow⟩ := hget
    refine (of_decide_eq_true hmisplaced) ?_
    rw [← hrow]
    simp [Rounds.transcriptRow]
  have hversion : (s.transcript ending finalPrice).schemaVersion = transcriptSchemaVersion := rfl
  unfold RoundTranscript.validateSchema
  rw [if_neg (not_not.mpr hversion), if_neg hnonempty, hordered]
  exact if_neg (not_not.mpr hlength.symm)

/-- A transcript in order is replayed by its terminal action. -/
theorem replayRound_transcript (hne : s.rounds.participants ending.round.roundId ≠ []) :
    replayRound (s.transcript ending finalPrice) =
      match ending.kind.terminal with
      | .cancel => .ok (replayFullRefund (s.transcript ending finalPrice) .cancelled .void)
      | .void => .ok (replayFullRefund (s.transcript ending finalPrice) .voided .void)
      | .fallbackRefund =>
          .ok (replayFullRefund (s.transcript ending finalPrice) .fallbackRefund .refund)
      | .resolve =>
          if s.control.settings.belowMinimum
              (s.rounds.participants ending.round.roundId).length = true then
            .ok (replayFullRefund (s.transcript ending finalPrice) .fallbackRefund .refund)
          else
            (replayResolve (s.transcript ending finalPrice)).mapError .settlement := by
  have hterminal : (s.transcript ending finalPrice).terminal = ending.kind.terminal := rfl
  have hround : (s.transcript ending finalPrice).oracleRoundId =
      (s.transcript ending finalPrice).roundId := rfl
  unfold replayRound
  rw [validateSchema_transcript hne, hterminal]
  refine (if_neg (not_not.mpr hround)).trans ?_
  cases ending.kind.terminal <;> rfl

section Ended

variable (hends : Ends ledger ending s s') (hsummarizes : SummarizesEnding s ending s')
  (hbook : Represents s.rounds ending.round)
  (hcap : FeeCapped s.control.settings.protocolFeeBps)
  (hnew : ∀ user ∈ s.rounds.participants ending.round.roundId,
    s.userRoundOutcome.get (ending.round.roundId, user) = none)
include hends hsummarizes hbook hcap hnew

/-- A refund of every stake under the ending's status is what a refunding ending did. -/
theorem replaysAs_refund {status : RoundArchiveStatus} {outcome : UserOutcomeType} {price : A → ℕ}
    (hstatus : ending.kind.status = status)
    (hplan : ending.plan s.control.settings.terms s.rounds =
      ⟨0, s.rounds.refundRecords ending.round price outcome
        (s.rounds.participants ending.round.roundId)⟩) :
    ReplaysAs s s' ending.round.roundId
      (replayFullRefund (s.transcript ending finalPrice) status outcome) := by
  rw [replaysAs_iff (s.rounds.stakeOf ending.round.mode ending.round.roundId) (fun _ => outcome)
    (by simp only [replayFullRefund, Storage.transcript, List.map_map]; rfl)]
  unfold SummarizesEnding at hsummarizes
  rw [hplan, hstatus] at hsummarizes
  refine ⟨hsummarizes, fun user huser => ?_⟩
  have hmem : s.rounds.outcomeRecord ending.round.mode ending.round.roundId (price user) user
      (s.rounds.stakeOf ending.round.mode ending.round.roundId user) outcome ∈
        (ending.plan s.control.settings.terms s.rounds).records := by
    rw [hplan]
    exact List.mem_map_of_mem huser
  have hrecorded := hends.outcome_of_mem hbook hcap hnew hmem
  rw [outcomeRecord_user] at hrecorded
  exact ⟨_, hrecorded, outcomeRecord_payout .., outcomeRecord_outcome ..⟩

/-- Every ending without a price is reproduced. -/
theorem replays_refund (hne : s.rounds.participants ending.round.roundId ≠ [])
    (hprice : ending.kind.price = none) :
    ∃ result, replayRound (s.transcript ending finalPrice) = .ok result ∧
      ReplaysAs s s' ending.round.roundId result := by
  rw [replayRound_transcript hne]
  have hplan : ∀ kind, ending.kind = kind → ending.plan s.control.settings.terms s.rounds =
      Ending.plan ⟨ending.round, kind⟩ s.control.settings.terms s.rounds := by
    rintro _ rfl
    rfl
  cases hkind : ending.kind with
  | resolved price | finalized price =>
      rw [hkind] at hprice
      cases hprice
  | fallbackRefund =>
      exact ⟨_, rfl, replaysAs_refund hends hsummarizes hbook hcap hnew (by rw [hkind]; rfl)
        (hplan _ hkind)⟩
  | cancelled reason =>
      exact ⟨_, rfl, replaysAs_refund hends hsummarizes hbook hcap hnew (by rw [hkind]; rfl)
        (hplan _ hkind)⟩
  | voided =>
      exact ⟨_, rfl, replaysAs_refund hends hsummarizes hbook hcap hnew (by rw [hkind]; rfl)
        (hplan _ hkind)⟩

/-- The plain replay of a settlement is what the contract did exactly when they agree. -/
theorem replaysAs_plain (hprice : ending.kind.price = some finalPrice) :
    ReplaysAs s s' ending.round.roundId
        (s.control.settings.terms.plain.replayed s.rounds ending.round finalPrice) ↔
      s.control.settings.terms.AgreesPlainly s.rounds ending.round finalPrice := by
  have hplan := @Ending.plan_of_price _ _ s.rounds s.control.settings.terms _ _ hprice
  have hstatus : ending.kind.status = .resolved := by
    cases hkind : ending.kind with
    | resolved price | finalized price => rfl
    | fallbackRefund | cancelled reason | voided =>
        rw [hkind] at hprice
        cases hprice
  unfold SummarizesEnding at hsummarizes
  rw [hplan, hstatus] at hsummarizes
  have hrecorded : ∀ user ∈ s.rounds.participants ending.round.roundId,
      s'.userRoundOutcome.get (ending.round.roundId, user) =
        some (s.control.settings.terms.recordOf s.rounds ending.round finalPrice user) := by
    intro user huser
    have hmem := @recordOf_mem _ _ s.control.settings.terms _ _ finalPrice _ huser
    rw [← hplan] at hmem
    have hrecorded := hends.outcome_of_mem hbook hcap hnew hmem
    rwa [recordOf_user] at hrecorded
  rw [replaysAs_iff
    (fun user =>
      (s.control.settings.terms.plain.recordOf s.rounds ending.round finalPrice user).payout)
    (fun user =>
      (s.control.settings.terms.plain.recordOf s.rounds ending.round finalPrice user).outcome) rfl]
  constructor
  · rintro ⟨⟨⟨event, hevents, -, -, hfee⟩, -⟩, hrecords⟩
    obtain ⟨⟨event', hevents', -, -, hfee'⟩, -⟩ := hsummarizes
    have hsame : event = event' := by
      rw [hevents'] at hevents
      exact (List.singleton_inj.mp (List.append_cancel_left hevents)).symm
    refine ⟨by rw [← hfee', ← hsame, hfee]; rfl, fun user huser => ?_⟩
    obtain ⟨record, hget, hpayout, -⟩ := hrecords user huser
    rw [hrecorded user huser] at hget
    rw [Option.some.inj hget, hpayout]
  · rintro ⟨hfee, hpayouts⟩
    rw [hfee] at hsummarizes
    refine ⟨hsummarizes, fun user huser => ⟨_, hrecorded user huser, hpayouts user huser, ?_⟩⟩
    exact recordOf_outcome_plain user

/-- A settlement at a price is reproduced exactly when its participants are not below the minimum
and it pays plainly. -/
theorem replays_price_iff (hne : s.rounds.participants ending.round.roundId ≠ [])
    (hprice : ending.kind.price = some finalPrice)
    (hpot : s.rounds.totalStake ending.round.mode ending.round.roundId ≤ i128Max)
    (hrate : RateFits s.control.settings.protocolFeeBps
      (s.rounds.totalStake ending.round.mode ending.round.roundId))
    (hcomputes : Computes s.control.settings.terms s.rounds ending.round finalPrice) :
    (∃ result, replayRound (s.transcript ending finalPrice) = .ok result ∧
      ReplaysAs s s' ending.round.roundId result) ↔
    s.control.settings.belowMinimum
        (s.rounds.participants ending.round.roundId).length = false ∧
      s.control.settings.terms.PaysPlainly s.rounds ending.round finalPrice := by
  have hresolve : replayResolve (s.transcript ending finalPrice) =
      .ok (s.control.settings.terms.plain.replayed s.rounds ending.round finalPrice) := by
    unfold replayResolve
    cases hmode : ending.round.mode with
    | upDown =>
        rw [hmode] at hpot hrate
        rw [show (s.transcript ending finalPrice).mode = .upDown from hmode]
        exact replayUpDown_eq hbook hmode hne hcap hpot hrate
          (hcomputes.plain_upDown hbook hmode hne hcap hpot hrate)
    | precision =>
        rw [hmode] at hpot hrate
        rw [show (s.transcript ending finalPrice).mode = .precision from hmode]
        exact replayPrecision_eq hbook hmode hne hcap hpot hrate
  have hterminal : ending.kind.terminal = .resolve ∧ ending.kind.status = .resolved := by
    cases hkind : ending.kind with
    | resolved price | finalized price => exact ⟨rfl, rfl⟩
    | fallbackRefund | cancelled reason | voided =>
        rw [hkind] at hprice
        cases hprice
  rw [replayRound_transcript hne, hterminal.1, ← agreesPlainly_iff hbook,
    ← replaysAs_plain hends hsummarizes hbook hcap hnew hprice, hresolve]
  by_cases hbelow : s.control.settings.belowMinimum
      (s.rounds.participants ending.round.roundId).length = true
  · -- the replay refunds a round that the contract resolved
    simp only [hbelow, if_true, Bool.true_eq_false, false_and, iff_false, not_exists, not_and]
    intro result hresult hreplays
    obtain ⟨⟨event, hevents, -, hstatus, -⟩, -⟩ := hreplays.summarized
    obtain ⟨⟨event', hevents', -, hstatus', -⟩, -⟩ := hsummarizes
    rw [hevents'] at hevents
    have hsame := List.singleton_inj.mp (List.append_cancel_left hevents)
    rw [← Except.ok.inj hresult, ← hsame, hstatus', hterminal.2] at hstatus
    cases hstatus
  · simp only [hbelow, true_and]
    constructor
    · rintro ⟨result, hresult, hreplays⟩
      rwa [← Except.ok.inj hresult] at hreplays
    · intro hreplays
      exact ⟨_, rfl, hreplays⟩

end Ended

end Property

/-- When the replay of an ending reproduces it: an ending without a price always, a settlement at a
price when its participants are not below the minimum and it pays plainly. -/
def Storage.Replayable (s : Storage A) (ending : Ending) : Prop :=
  ∀ finalPrice, ending.kind.price = some finalPrice →
    s.control.settings.belowMinimum
        (s.rounds.participants ending.round.roundId).length = false ∧
      s.control.settings.terms.PaysPlainly s.rounds ending.round finalPrice

/-- An amount within the supply times a capped rate fits. -/
theorem rateFits_of_supply {bps : Option ℕ} {base : ℤ} (hcap : FeeCapped bps) (hbase : 0 ≤ base)
    (hsupply : base ≤ supplyLimit) : RateFits bps base := by
  intro rate hrate
  have hrate' : (rate : ℤ) ≤ 1000 := by exact_mod_cast hcap rate hrate
  calc base * (rate : ℤ) ≤ supplyLimit * 1000 :=
        mul_le_mul hsupply hrate' (Int.natCast_nonneg rate) (hbase.trans hsupply)
    _ ≤ i128Max := by decide

section Reachable

variable {host : Host A} {chain chain' : Chain A} {signers : List A} {call : Call A}
  {ending : Ending} {finalPrice : ℕ}

/-- Whether the replay reproduces the end of a round on a healthy chain. -/
theorem Chain.Healthy.replays_iff (hhealthy : chain.Healthy)
    (hstep : Step host chain (.invoke signers call) chain')
    (hending : call.ending chain.storage = some ending)
    (hne : chain.storage.rounds.participants ending.round.roundId ≠ [])
    (hfinal : ∀ price, ending.kind.price = some price → finalPrice = price) :
    (∃ result, replayRound (chain.storage.transcript ending finalPrice) = .ok result ∧
      ReplaysAs chain.storage chain'.storage ending.round.roundId result) ↔
    chain.storage.Replayable ending := by
  have hstorage : chain.storage.Healthy chain.ledger.sequence := hhealthy
  have hlive := (Call.endsBy hending).live hstorage.ordered
  have hbook := (hstorage.ordered.live _ _ hlive).2
  have hends := Chain.Healthy.ends hhealthy hstep hending
  have hsummarizes := Chain.Healthy.summarizes hhealthy hstep hending
  have hnew := hstorage.recorded.unrecorded _ _ hlive
  cases hprice : ending.kind.price with
  | none =>
      have hreplays := @replays_refund _ _ _ _ _ _ finalPrice hends hsummarizes hbook
        hstorage.fee_capped hnew hne hprice
      refine iff_of_true hreplays fun price hsome => ?_
      rw [hprice] at hsome
      cases hsome
  | some price =>
      obtain rfl := hfinal price hprice
      have hsupply := hstorage.bounded.totalStake_le_supply hstorage.ordered hstorage.solvent
        hstorage.paced chain.ledger.sequence_lt hbook
      have hrate := rateFits_of_supply hstorage.fee_capped hbook.totalStake_nonneg hsupply
      have hcomputes := Chain.Healthy.computes hhealthy hstep hending hprice
      rw [replays_price_iff hends hsummarizes hbook hstorage.fee_capped hnew hne hprice
        (hsupply.trans (by decide)) hrate hcomputes]
      unfold Storage.Replayable
      constructor
      · intro hagrees price hsome
        obtain rfl := Option.some.inj (hprice.symm.trans hsome)
        exact hagrees
      · exact fun hreplayable => hreplayable _ hprice

/-- In every reachable chain, whenever a successful call ends a round with a participant, the
replay of its transcript succeeds and returns the archive status, the fee and every participant's
recorded payout and outcome exactly when the ending is replayable. -/
theorem replay_reproduces_iff (hreachable : Reachable host chain)
    (hstep : Step host chain (.invoke signers call) chain')
    (hending : call.ending chain.storage = some ending)
    (hne : chain.storage.rounds.participants ending.round.roundId ≠ [])
    (hfinal : ∀ price, ending.kind.price = some price → finalPrice = price) :
    (∃ result, replayRound (chain.storage.transcript ending finalPrice) = .ok result ∧
      ReplaysAs chain.storage chain'.storage ending.round.roundId result) ↔
    chain.storage.Replayable ending :=
  hreachable.healthy.replays_iff hstep hending hne hfinal

end Reachable

/-- The trial Precision round under equal shares is reproduced. -/
theorem replay_reproduces_equal : ∃ chain chain' : Chain ℕ, ∃ ending result,
    Step trialHost chain (.invoke [2] (.resolveRound (trialPayload 1 1000 100))) chain' ∧
      replayRound (chain.storage.transcript ending 1000) = .ok result ∧
      ReplaysAs chain.storage chain'.storage ending.round.roundId result := by
  obtain ⟨trace, chain, chain', hhistory, hfits⟩ := exists_trial precisionRound
    (.invoke [2] (.resolveRound (trialPayload 1 1000 100)))
    (fun chain _ => decide (
      ((Call.resolveRound (trialPayload 1 1000 100)).ending chain.storage).any fun ending =>
      ending.kind = .resolved 1000 ∧
      chain.storage.rounds.participants ending.round.roundId ≠ [] ∧
      chain.storage.control.settings.minParticipants = none ∧
      chain.storage.control.settings.readPrecisionPayoutPolicy = .equal ∧
      chain.storage.control.settings.readFeeModel = .feeOnPot)) (by decide +kernel)
  obtain ⟨ending, hending, hfits⟩ := (Option.any_eq_true _ _).mp (of_decide_eq_true hfits)
  obtain ⟨hkind, hne, hminimum, hpolicy, hmodel⟩ := of_decide_eq_true hfits
  have hfinal : ∀ price, ending.kind.price = some price → 1000 = price := by
    rw [hkind]
    exact fun price hprice => Option.some.inj hprice
  have hreplayable : chain.storage.Replayable ending := by
    intro finalPrice _
    refine ⟨by simp [Settings.belowMinimum, hminimum], ?_⟩
    have hplain : chain.storage.control.settings.terms.feeModel ≠ .feeOnWinnings ∧
        chain.storage.control.settings.terms.payoutPolicy ≠ .stakeWeighted := by
      simp [Settings.terms, hmodel, hpolicy]
    unfold Terms.PaysPlainly
    cases ending.round.mode with
    | upDown => exact fun _ h => absurd h hplain.1
    | precision => exact fun _ => ⟨fun h => absurd h hplain.1, fun h => absurd h hplain.2⟩
  obtain ⟨result, hresult, hreplays⟩ := (replay_reproduces_iff hhistory.last.1 hhistory.last.2
    hending hne hfinal).mpr hreplayable
  exact ⟨chain, chain', ending, result, hhistory.last.2, hresult, hreplays⟩

/-- Users 3 and 5 predict equally close with stakes 60 and 20 under stake-weighted payouts, and the
run of the round is over. -/
def weightedRound : List (Action ℕ) := trialSetup ++ [
  .invoke [1] (.control (.setPrecisionPayoutPolicy 1)),
  .invoke [1] (.createRound 100 (some 1)),
  .invoke [3] (.placePrecisionPrediction 3 60 1010),
  .invoke [5] (.placePrecisionPrediction 5 20 990),
  .closeLedger (ledgerAt 20),
  .invoke [2] (.control (.updateOracleHeartbeat 0))]

/-- A stake-weighted settlement is not reproduced: the contract pays 60 and 20, the replay 40
each. -/
theorem weighted_not_reproduced : ∃ chain chain' : Chain ℕ, ∃ ending,
    Reachable trialHost chain ∧
    Step trialHost chain (.invoke [2] (.resolveRound (trialPayload 1 1000 100))) chain' ∧
    (Call.resolveRound (trialPayload 1 1000 100)).ending chain.storage = some ending ∧
    ending.kind = .resolved 1000 ∧
    chain.storage.rounds.participants ending.round.roundId = [3, 5] ∧
    ¬ ∃ result, replayRound (chain.storage.transcript ending 1000) = .ok result ∧
      ReplaysAs chain.storage chain'.storage ending.round.roundId result := by
  obtain ⟨trace, chain, chain', hhistory, hfits⟩ := exists_trial weightedRound
    (.invoke [2] (.resolveRound (trialPayload 1 1000 100)))
    (fun chain _ => decide (
      ((Call.resolveRound (trialPayload 1 1000 100)).ending chain.storage).any fun ending =>
      ending.kind = .resolved 1000 ∧ ending.round.mode = .precision ∧
      chain.storage.rounds.participants ending.round.roundId = [3, 5] ∧
      chain.storage.rounds.sortedWinners ending.round 1000 = [3, 5] ∧
      chain.storage.rounds.stakeOf .precision ending.round.roundId 3 = 60 ∧
      chain.storage.rounds.stakeOf .precision ending.round.roundId 5 = 20 ∧
      chain.storage.control.settings.protocolFeeBps = none ∧
      chain.storage.control.settings.readPrecisionPayoutPolicy = .stakeWeighted))
    (by decide +kernel)
  obtain ⟨ending, hending, hfits⟩ := (Option.any_eq_true _ _).mp (of_decide_eq_true hfits)
  obtain ⟨hkind, hmode, hparticipants, hwinners, hthree, hfive, hfee, hpolicy⟩ :=
    of_decide_eq_true hfits
  have hne : chain.storage.rounds.participants ending.round.roundId ≠ [] := by
    rw [hparticipants]
    decide
  have hfinal : ∀ price, ending.kind.price = some price → 1000 = price := by
    rw [hkind]
    exact fun price hprice => Option.some.inj hprice
  refine ⟨chain, chain', ending, hhistory.last.1, hhistory.last.2, hending, hkind, hparticipants,
    ?_⟩
  rw [Chain.Healthy.replays_iff hhistory.last.1.healthy hhistory.last.2 hending hne hfinal]
  intro hreplayable
  obtain ⟨-, hplain⟩ := hreplayable 1000 (by rw [hkind]; rfl)
  unfold Terms.PaysPlainly at hplain
  simp only [hmode, hwinners] at hplain
  have hshare := (hplain (by decide)).2 hpolicy 5 (by decide)
  simp [Rounds.totalStake, Rounds.stakesOf, hparticipants, hthree, hfive, Settings.terms, hfee,
    rateOf, Apportion.share] at hshare

end XelmaMarket
