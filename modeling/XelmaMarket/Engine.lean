import XelmaMarket.SettlementMath
import XelmaMarket.PrecisionSettlement
import XelmaMarket.Arithmetic
import XelmaMarket.Lib.Traverse
import Mathlib.Data.List.GetD

/-!
# The payout engine

Run on a round's participants by ascending address, the pure payout engine computes what the
settlement of the round pays: the same payouts, and the same wins, losses and refunds.
-/

namespace XelmaMarket

open Transaction Traverse

/-! ## Places -/

/-- The place of an item is its place among the images, where the map is injective. -/
theorem idxOf_map {α β : Type} [BEq α] [LawfulBEq α] [BEq β] [LawfulBEq β] {f : α → β}
    {items : List α} {a : α} (hinjective : ∀ b ∈ items, f b = f a → b = a) :
    (items.map f).idxOf (f a) = items.idxOf a := by
  induction items with
  | nil => rfl
  | cons b rest ih =>
      by_cases heq : b = a
      · subst heq
        simp
      · have hne : f b ≠ f a := fun h => heq (hinjective b List.mem_cons_self h)
        rw [List.map_cons, List.idxOf_cons_ne _ hne, List.idxOf_cons_ne _ heq,
          ih fun c hmem => hinjective c (List.mem_cons_of_mem _ hmem)]

variable {A : Type} [LinearOrder A]

/-! ## UpDown rounds -/

/-- The position of a participant of an UpDown round, at an index. -/
def Rounds.upDownPosition (rounds : Rounds A) (roundId : ℕ) (entry : A × ℕ) : UpDownPosition where
  index := entry.2
  amount := rounds.stakeOf .upDown roundId entry.1
  sideUp := rounds.betOn roundId .up entry.1

/-- The positions of an UpDown round by ascending address. -/
def Rounds.upDownPositions (rounds : Rounds A) (roundId : ℕ) : List UpDownPosition :=
  (sortAddresses (rounds.participants roundId)).zipIdx.map (rounds.upDownPosition roundId)

/-- The entry of the engine for a record. -/
def UserRoundOutcome.upDownEntry (record : UserRoundOutcome A) (index : ℕ) :
    UpDownPayoutEntry where
  index := index
  stake := record.stake
  payout := record.payout
  isWinner := record.outcome = .win
  isRefund := record.outcome = .refund

omit [LinearOrder A] in
/-- The engine's fee is a fee on the pot. -/
theorem computeUpdownFee_eq (winningPool losingPool : ℤ) (feeBps : Option ℕ) :
    computeUpdownFee winningPool losingPool feeBps =
      calculateProtocolFeeUpdown feeBps .feeOnPot winningPool losingPool := by
  cases feeBps <;> rfl

section UpDown

variable {rounds : Rounds A} {round : Round} {terms : Terms} {side : BetSide}
  {finalPrice : ℕ}

omit [LinearOrder A] in
/-- The engine's payouts of a competitive round are the records of the plan. -/
theorem payUpdownPositions_eq {participants : List A} (hbook : UpDownBook rounds round)
    (hmem : ∀ user ∈ participants, user ∈ rounds.participants round.roundId)
    (hpool : round.pool side ≠ 0) (hmodel : terms.feeModel = .feeOnPot)
    (hcomputes : UpDownComputes terms rounds round side participants) :
    payUpdownPositions (participants.zipIdx.map (rounds.upDownPosition round.roundId))
        (decide (side = .up)) (round.pool side) (round.pool side.other) terms.protocolFeeBps =
      .ok (participants.zipIdx.map fun entry =>
        (terms.upDownRecord rounds round side entry.1).upDownEntry entry.2) := by
  obtain ⟨dist, hfee, hadd, hpayout⟩ := hcomputes
  rw [hmodel, ← computeUpdownFee_eq] at hfee
  rw [payUpdownPositions, if_neg hpool, hfee]
  show (payoutAdd dist.1 dist.2.1).bind _ = _
  rw [hadd]
  show List.mapM _ _ = _
  rw [List.mapM_map]
  refine mapM_eq_ok fun entry hentry => ?_
  have huser : entry.1 ∈ participants := List.fst_mem_of_mem_zipIdx hentry
  obtain ⟨position, hposition⟩ := hbook.position (hmem _ huser)
  have hbet : ∀ side, rounds.betOn round.roundId side entry.1 = decide (position.side = side) := by
    intro side
    simp [Rounds.betOn, hposition]
  have hstake : rounds.stakeOf .upDown round.roundId entry.1 = position.amount := by
    simp [Rounds.stakeOf, hposition]
  by_cases hside : position.side = side
  · have hwins : (rounds.upDownPosition round.roundId entry).sideUp = decide (side = .up) := by
      simp [Rounds.upDownPosition, hbet, hside]
    have hpaid := hpayout entry.1 huser position hposition hside
    simp only [Function.comp_apply, if_pos hwins]
    have hamount : (rounds.upDownPosition round.roundId entry).amount = position.amount := hstake
    rw [hamount, hpaid]
    simp [Terms.upDownRecord, hbet, hside, UserRoundOutcome.upDownEntry, hstake,
      Rounds.upDownPosition, Rounds.outcomeRecord]
  · have hloses : ¬ (rounds.upDownPosition round.roundId entry).sideUp = decide (side = .up) := by
      simp only [Rounds.upDownPosition, hbet]
      revert hside
      cases position.side <;> cases side <;> simp
    simp only [Function.comp_apply, if_neg hloses]
    simp [Terms.upDownRecord, hbet, hside, UserRoundOutcome.upDownEntry, hstake,
      Rounds.upDownPosition, Rounds.outcomeRecord]
    rfl

/-- The engine's payouts of an UpDown round are the records of the plan under a fee on the pot. -/
theorem computeUpdownPayouts_eq (hbook : Represents rounds round) (hmode : round.mode = .upDown)
    (hne : rounds.participants round.roundId ≠ []) (hmodel : terms.feeModel = .feeOnPot)
    (hcomputes : Computes terms rounds round finalPrice) :
    computeUpdownPayouts (rounds.upDownPositions round.roundId) round.priceStart finalPrice
        round.poolUp round.poolDown terms.protocolFeeBps =
      .ok ((terms.plan rounds round finalPrice).records.zipIdx.map fun entry =>
        entry.1.upDownEntry entry.2) := by
  have hmem : ∀ user ∈ sortAddresses (rounds.participants round.roundId),
      user ∈ rounds.participants round.roundId := fun user => mem_sortAddresses.mp
  have hsorted : sortAddresses (rounds.participants round.roundId) ≠ [] := by
    obtain ⟨user, huser⟩ := List.exists_mem_of_ne_nil _ hne
    exact List.ne_nil_of_mem (mem_sortAddresses.mpr huser)
  have hrefund : terms.plan rounds round finalPrice = ⟨0, rounds.refundRecords round (fun _ => 0)
        .refund (sortAddresses (rounds.participants round.roundId))⟩ →
      (rounds.upDownPositions round.roundId).map UpDownPosition.refund =
        (terms.plan rounds round finalPrice).records.zipIdx.map fun entry =>
          entry.1.upDownEntry entry.2 := by
    intro hplan
    rw [hplan, Rounds.refundRecords, Rounds.upDownPositions, hmode]
    simp only [List.zipIdx_map, List.map_map]
    refine List.map_congr_left fun entry _ => ?_
    simp [UpDownPosition.refund, Rounds.upDownPosition, UserRoundOutcome.upDownEntry,
      Rounds.outcomeRecord]
  unfold computeUpdownPayouts
  by_cases hsided : isOneSidedPool round.poolUp round.poolDown = true
  · rw [if_pos hsided]
    refine congrArg Except.ok (hrefund ?_)
    rw [Terms.plan, hmode]
    exact if_pos (.inl hsided)
  · rw [if_neg hsided]
    by_cases hmoved : finalPrice = round.priceStart
    · have hdirection : classifyPriceDirection round.priceStart finalPrice = .unchanged := by
        simp [classifyPriceDirection, hmoved]
      rw [hdirection]
      refine congrArg Except.ok (hrefund ?_)
      rw [Terms.plan, hmode]
      exact if_pos (.inr hmoved)
    · have hrefunds : ¬ round.refundsAt finalPrice := not_or.mpr ⟨hsided, hmoved⟩
      unfold Computes at hcomputes
      simp only [hmode] at hcomputes
      have hplan : terms.plan rounds round finalPrice =
          ⟨terms.upDownFee round (round.winningSide finalPrice),
            (sortAddresses (rounds.participants round.roundId)).map
              (terms.upDownRecord rounds round (round.winningSide finalPrice))⟩ := by
        rw [Terms.plan, hmode]
        exact if_neg hrefunds
      have hpools := pools_pos hbook hmode hrefunds hne
      have hpool : round.pool (round.winningSide finalPrice) ≠ 0 := by
        cases round.winningSide finalPrice with
        | up => exact hpools.1.ne'
        | down => exact hpools.2.ne'
      have hpaid := payUpdownPositions_eq (hbook.upDown hmode) hmem hpool hmodel
        (hcomputes hrefunds hsorted)
      have hdirection := classifyPriceDirection_eq hmoved
      rw [hplan]
      simp only [List.zipIdx_map, List.map_map]
      cases hside : round.winningSide finalPrice with
      | up | down =>
          rw [hside] at hpaid hdirection
          rw [hdirection]
          exact hpaid

end UpDown

/-! ## The winner search -/

section Search

variable {entries : List PrecisionEntry} {finalPrice : ℕ}

/-- How far an entry's prediction is from the price. -/
def PrecisionEntry.distance (finalPrice : ℕ) (entry : PrecisionEntry) : ℕ :=
  priceDistance entry.predictedPrice finalPrice

/-- A revealed entry that no other revealed entry is closer than. -/
def PrecisionEntry.IsClosest (entries : List PrecisionEntry) (finalPrice : ℕ)
    (entry : PrecisionEntry) : Prop :=
  entry.revealed = true ∧ ∀ other ∈ entries, other.revealed = true →
    entry.distance finalPrice ≤ other.distance finalPrice

instance (entry : PrecisionEntry) : Decidable (entry.IsClosest entries finalPrice) :=
  inferInstanceAs (Decidable (_ ∧ _))

/-- The least score of a pass is the least of its scores. -/
def ScorePass.LeastFound (pass : ScorePass) : Prop :=
  match pass.minScore with
  | none => pass.scores = []
  | some least => (∃ scored ∈ pass.scores, scored.2 = least) ∧
      ∀ scored ∈ pass.scores, least ≤ scored.2

/-- How an entry scores. -/
def PrecisionEntry.score (mode : PrecisionScoringMode) (finalPrice : ℕ) (entry : PrecisionEntry) :
    ℕ :=
  mode.score entry.predictedPrice finalPrice

/-- Every entry keeps the least score the least. -/
theorem ScorePass.LeastFound.visit {pass : ScorePass} {mode : PrecisionScoringMode}
    (hleast : pass.LeastFound) (entry : PrecisionEntry) :
    (pass.visit mode finalPrice entry).LeastFound := by
  unfold ScorePass.visit
  split
  · unfold ScorePass.LeastFound at hleast ⊢
    cases hmin : pass.minScore with
    | none =>
        rw [hmin] at hleast
        simp [show pass.scores = [] from hleast]
    | some least =>
        rw [hmin] at hleast
        obtain ⟨⟨scored, hmem, hscore⟩, hle⟩ := hleast
        by_cases hlt : mode.score entry.predictedPrice finalPrice < least
        · simp only [if_pos hlt]
          refine ⟨⟨_, List.mem_append_right _ (List.mem_singleton_self _), rfl⟩, ?_⟩
          intro other hother
          rcases List.mem_append.mp hother with hother | hother
          · exact hlt.le.trans (hle other hother)
          · rw [List.mem_singleton.mp hother]
        · simp only [if_neg hlt]
          refine ⟨⟨scored, List.mem_append_left _ hmem, hscore⟩, ?_⟩
          intro other hother
          rcases List.mem_append.mp hother with hother | hother
          · exact hle other hother
          · rw [List.mem_singleton.mp hother]
            exact not_lt.mp hlt
  · exact hleast

/-- The pass scores the revealed entries in order and finds the least score. -/
theorem foldl_scorePass {pass : ScorePass} {mode : PrecisionScoringMode}
    (hleast : pass.LeastFound) :
    (entries.foldl (ScorePass.visit mode finalPrice) pass).scores =
        pass.scores ++ (entries.filter (·.revealed)).map (fun entry =>
          (entry.index, entry.score mode finalPrice)) ∧
      (entries.foldl (ScorePass.visit mode finalPrice) pass).LeastFound := by
  induction entries generalizing pass with
  | nil => simpa using hleast
  | cons entry rest ih =>
      obtain ⟨hscores, hfound⟩ := ih (hleast.visit entry)
      refine ⟨?_, hfound⟩
      rw [List.foldl_cons, hscores]
      by_cases hrevealed : entry.revealed = true
      · simp [ScorePass.visit, hrevealed, PrecisionEntry.score]
      · simp [ScorePass.visit, hrevealed]

/-- Without a band the best scores win. -/
theorem PrecisionScoringPolicy.isWinner_of_none {policy : PrecisionScoringPolicy}
    (hband : policy.confidenceBand = none) {best score : ℕ} :
    policy.isWinner best score = true ↔ score = best := by
  unfold PrecisionScoringPolicy.isWinner
  rw [hband, decide_eq_true_eq]

/-- Nobody wins where nobody revealed; otherwise the entries that win against the best score are the
winners, in order. -/
theorem winnerIndices_of_policy (entries : List PrecisionEntry) (finalPrice : ℕ)
    (policy : PrecisionScoringPolicy) :
    (∀ entry ∈ entries, ¬ entry.revealed = true) ∧
        (findPrecisionWinnersWithPolicy entries finalPrice policy).winnerIndices = [] ∨
      ∃ best ∈ entries, best.revealed = true ∧
        (∀ other ∈ entries, other.revealed = true →
          best.score policy.mode finalPrice ≤ other.score policy.mode finalPrice) ∧
        (findPrecisionWinnersWithPolicy entries finalPrice policy).winnerIndices =
          (entries.filter fun entry => entry.revealed && policy.isWinner
            (best.score policy.mode finalPrice) (entry.score policy.mode finalPrice)).map
              (·.index) := by
  obtain ⟨hscores, hleast⟩ := @foldl_scorePass entries finalPrice ⟨0, [], none⟩ policy.mode rfl
  unfold findPrecisionWinnersWithPolicy
  simp only
  generalize entries.foldl (ScorePass.visit policy.mode finalPrice) ⟨0, [], none⟩ = pass
    at hscores hleast ⊢
  rw [List.nil_append] at hscores
  unfold ScorePass.LeastFound at hleast
  cases hmin : pass.minScore with
  | none =>
      rw [hmin, hscores, List.map_eq_nil_iff, List.filter_eq_nil_iff] at hleast
      exact .inl ⟨hleast, rfl⟩
  | some least =>
      rw [hmin] at hleast
      obtain ⟨⟨scored, hscored, rfl⟩, hle⟩ := hleast
      rw [hscores] at hscored hle
      obtain ⟨best, hbest, rfl⟩ := List.mem_map.mp hscored
      obtain ⟨hbest, hrevealed⟩ := List.mem_filter.mp hbest
      refine .inr ⟨best, hbest, hrevealed, fun other hother hshown => ?_, ?_⟩
      · exact hle _ (List.mem_map_of_mem (List.mem_filter.mpr ⟨hother, hshown⟩))
      · simp only [hscores, List.filter_map, List.map_map, List.filter_filter]
        refine congrArg (List.map _) (List.filter_congr fun entry _ => ?_)
        exact Bool.and_comm _ _

/-- The pass adds up the pot where the stakes add up. -/
theorem foldl_totalPot {pass : ScorePass} {mode : PrecisionScoringMode}
    (hsums : AddUpFrom pass.totalPot (entries.map (·.amount))) :
    (entries.foldl (ScorePass.visit mode finalPrice) pass).totalPot =
      pass.totalPot + (entries.map (·.amount)).sum := by
  induction entries generalizing pass with
  | nil => simp
  | cons entry rest ih =>
      have hnext : (pass.visit mode finalPrice entry).totalPot =
          pass.totalPot + entry.amount := by
        obtain ⟨hmin, hmax⟩ := (addUpFrom_cons.mp hsums).2.isAmount
        have hadd : saturatingAdd pass.totalPot entry.amount = pass.totalPot + entry.amount := by
          unfold saturatingAdd
          rw [min_eq_right hmax, max_eq_right hmin]
        unfold ScorePass.visit
        split <;> exact hadd
      rw [List.foldl_cons, ih (by rw [hnext]; exact (addUpFrom_cons.mp hsums).2), hnext,
        List.map_cons, List.sum_cons, add_assoc]

/-- The winners are the closest entries, in order. -/
theorem winnerIndices_eq :
    (findPrecisionWinnersWithPolicy entries finalPrice absoluteScoring).winnerIndices =
      (entries.filter fun entry => entry.IsClosest entries finalPrice).map (·.index) := by
  rcases winnerIndices_of_policy entries finalPrice absoluteScoring with
    ⟨hhidden, hnone⟩ | ⟨best, hbest, hrevealed, hleast, hwinners⟩
  · rw [hnone, List.filter_eq_nil_iff.mpr, List.map_nil]
    intro entry hmem hclosest
    exact hhidden entry hmem (of_decide_eq_true hclosest).1
  · rw [hwinners]
    refine congrArg (List.map _) (List.filter_congr fun entry hmem => ?_)
    rw [← Bool.coe_iff_coe, Bool.and_eq_true, decide_eq_true_eq,
      PrecisionScoringPolicy.isWinner_of_none rfl]
    constructor
    · rintro ⟨hentry, hequal⟩
      exact ⟨hentry, fun other hother hshown => hequal.le.trans (hleast other hother hshown)⟩
    · rintro ⟨hentry, hclosest⟩
      exact ⟨hentry, le_antisymm (hclosest best hbest hrevealed) (hleast entry hmem hentry)⟩

end Search

/-! ## The split -/

section Split

variable {pool : ℤ} {stakes : List ℤ}

/-- The engine's fee is computed when the pot and its product with the rate fit. -/
theorem computePrecisionFee_of_fits {bps : Option ℕ} {pot : ℤ} (hcap : FeeCapped bps)
    (hpot : 0 < pot) (hfits : pot ≤ i128Max) (hrate : RateFits bps pot) :
    computePrecisionFee pot bps = .ok (pot - rateOf bps pot, rateOf bps pot) := by
  cases bps with
  | none => simp [computePrecisionFee, rateOf, pure, Except.pure]
  | some rate =>
      obtain ⟨hproduct, hdivide, hnonneg, hle⟩ :=
        divide_rate hcap hpot.le hrate .payoutOverflow
      simp only [computePrecisionFee]
      rw [if_neg (not_le.mpr hpot), hproduct, ok_bind, hdivide, ok_bind,
        checked_of_fits (by omega) (by omega), ok_bind]
      rfl

/-- The engine's equal split pays what the policy does. -/
theorem splitPotAmongWinners_of_fits (hne : stakes ≠ []) (hpool : 0 < pool)
    (hfits : pool ≤ i128Max) :
    splitPotAmongWinners pool stakes.length =
      .ok (PrecisionPayoutPolicy.payouts .equal pool stakes) := by
  obtain ⟨count, hcount⟩ : ∃ count, stakes.length = count + 1 :=
    ⟨_, (Nat.succ_pred_eq_of_pos (List.length_pos_iff.mpr hne)).symm⟩
  have hdivide := @divide_of_fits pool ((count + 1 : ℕ) : ℤ) hpool.le hfits (by omega)
  have hremainder : pool.tmod ((count + 1 : ℕ) : ℤ) = pool % ((count + 1 : ℕ) : ℤ) :=
    Int.tmod_eq_emod_of_nonneg hpool.le
  have hsplit := Int.mul_ediv_add_emod pool ((count + 1 : ℕ) : ℤ)
  have hmod := Int.emod_nonneg pool (b := ((count + 1 : ℕ) : ℤ)) (by omega)
  have hquotient : 0 ≤ pool / ((count + 1 : ℕ) : ℤ) := Int.ediv_nonneg hpool.le (by omega)
  have hproduct : ((count + 1 : ℕ) : ℤ) * (pool / ((count + 1 : ℕ) : ℤ)) =
      pool / ((count + 1 : ℕ) : ℤ) + count * (pool / ((count + 1 : ℕ) : ℤ)) := by
    push_cast
    ring
  have hrest : 0 ≤ (count : ℤ) * (pool / ((count + 1 : ℕ) : ℤ)) :=
    mul_nonneg (Int.natCast_nonneg count) hquotient
  have hpayouts : PrecisionPayoutPolicy.payouts .equal pool stakes =
      (pool / ((count + 1 : ℕ) : ℤ) + pool % ((count + 1 : ℕ) : ℤ)) ::
        List.replicate count (pool / ((count + 1 : ℕ) : ℤ)) := by
    have hshares : PrecisionPayoutPolicy.shares .equal pool stakes =
        List.replicate (count + 1) (pool / ((count + 1 : ℕ) : ℤ)) := by
      rw [← hcount]
      exact List.map_const'
    rw [PrecisionPayoutPolicy.payouts, hshares, List.replicate_succ, withRemainder]
    congr 1
    simp only [List.sum_cons, List.sum_replicate, nsmul_eq_mul]
    omega
  rw [splitPotAmongWinners, if_neg (by omega), hcount, hdivide, ok_bind, hremainder, hpayouts,
    List.range_succ_eq_map, List.mapM_cons, if_pos rfl,
    checked_of_fits (by omega) (by omega), ok_bind, List.mapM_map]
  have hothers := @mapM_eq_ok Failure _ _ (fun i => if i + 1 = 0 then
      checked (pool / ((count + 1 : ℕ) : ℤ) + pool % ((count + 1 : ℕ) : ℤ)) .payoutOverflow
    else .ok (pool / ((count + 1 : ℕ) : ℤ))) (List.range count)
    (fun _ => pool / ((count + 1 : ℕ) : ℤ)) fun i _ => if_neg (by omega)
  rw [List.map_const', List.length_range] at hothers
  exact (congrArg (· >>= fun rest => pure (_ :: rest)) hothers).trans rfl

/-- The engine's stake-weighted split pays what the policy does. -/
theorem splitPotStakeWeighted_of_fits (hne : stakes ≠ []) (hstakes : ∀ stake ∈ stakes, 0 < stake)
    (hpool : 0 < pool) (hfits : pool ≤ i128Max) (hsum : stakes.sum ≤ i128Max)
    (hproducts : ∀ stake ∈ stakes, stake * pool ≤ i128Max) :
    splitPotStakeWeighted pool stakes =
      .ok (PrecisionPayoutPolicy.payouts .stakeWeighted pool stakes) := by
  have htotal : 0 < stakes.sum := List.sum_pos _ hstakes hne
  have hle := @sum_policyShares_le .stakeWeighted pool stakes hpool.le hstakes
  have hnonneg : ∀ share ∈ PrecisionPayoutPolicy.shares .stakeWeighted pool stakes, 0 ≤ share :=
    fun share => shares_nonneg hpool.le hstakes
  have hshares := List.sum_nonneg hnonneg
  have hloop := @foldlM_stakeWeighted pool _ stakes id hne hstakes hpool.le hfits hproducts
  simp only [List.map_id, id_eq] at hloop
  rw [splitPotStakeWeighted, if_neg (by simp [hne]; omega),
    foldlM_payoutAdd le_rfl (fun stake hmem => (hstakes stake hmem).le) (by omega), ok_bind,
    zero_add, if_neg htotal.ne', hloop, ok_bind, checked_of_fits (by omega) (by omega), ok_bind]
  split
  · exact giveRemainder_of_fits hnonneg hle hfits
  · next hzero =>
      rw [PrecisionPayoutPolicy.payouts]
      cases hlist : PrecisionPayoutPolicy.shares .stakeWeighted pool stakes with
      | nil => rfl
      | cons first rest =>
          rw [hlist] at hzero hle
          have hnothing : pool - (first :: rest).sum = 0 := by omega
          simp only [withRemainder, hnothing, add_zero]
          rfl

end Split

/-! ## Precision rounds -/

/-- The entry of a participant of a Precision round, at an index. -/
def Rounds.precisionEntry (rounds : Rounds A) (roundId : ℕ) (entry : A × ℕ) : PrecisionEntry where
  index := entry.2
  predictedPrice := revealedPrice rounds roundId entry.1
  amount := rounds.stakeOf .precision roundId entry.1
  revealed := (rounds.precisionPosition.get (roundId, entry.1)).isSome

/-- The entries of a Precision round by ascending address. -/
def Rounds.precisionEntries (rounds : Rounds A) (roundId : ℕ) : List PrecisionEntry :=
  (sortAddresses (rounds.participants roundId)).zipIdx.map (rounds.precisionEntry roundId)

/-- The entry of the engine for a record. -/
def UserRoundOutcome.precisionEntry (record : UserRoundOutcome A) (index : ℕ) :
    PrecisionPayoutEntry where
  index := index
  stake := record.stake
  predictedPrice := record.predictedPrice
  payout := record.payout
  isWinner := record.outcome = .win
  isRefund := record.outcome = .refund

/-- What the winners of a Precision settlement are paid, in order. -/
def Terms.winnerPayouts (terms : Terms) (rounds : Rounds A) (round : Round) (finalPrice : ℕ)
    (participants : List A) : List ℤ :=
  let winners := rounds.winners round.roundId finalPrice participants
  let pot := (participants.map (rounds.stakeOf .precision round.roundId)).sum
  terms.payoutPolicy.payouts (pot - terms.precisionFee pot (rounds.stakesOf round.roundId winners))
    (winners.map (rounds.stakeOf .precision round.roundId))

/-- The record of one participant of a Precision settlement. -/
def Terms.precisionRecord (terms : Terms) (rounds : Rounds A) (round : Round) (finalPrice : ℕ)
    (participants : List A) (user : A) : UserRoundOutcome A :=
  let winners := rounds.winners round.roundId finalPrice participants
  if winners = [] then
    rounds.outcomeRecord round.mode round.roundId 0 user
      (rounds.stakeOf round.mode round.roundId user) .refund
  else if rounds.IsWinner round.roundId finalPrice participants user then
    rounds.outcomeRecord .precision round.roundId (revealedPrice rounds round.roundId user) user
      ((terms.winnerPayouts rounds round finalPrice participants).getD (winners.idxOf user) 0) .win
  else
    rounds.lossRecord round.roundId user

section Precision

variable {rounds : Rounds A} {round : Round} {terms : Terms} {finalPrice : ℕ}
  {participants : List A}

omit [LinearOrder A] in
theorem winnerPayouts_length :
    (terms.winnerPayouts rounds round finalPrice participants).length =
      (rounds.winners round.roundId finalPrice participants).length := by
  rw [Terms.winnerPayouts, payouts_length, List.length_map]

/-- The record of a participant is among those of the plan. -/
theorem precisionRecord_mem {user : A} (huser : user ∈ participants) :
    terms.precisionRecord rounds round finalPrice participants user ∈
      (terms.precisionPlan rounds round finalPrice participants).records := by
  unfold Terms.precisionRecord Terms.precisionPlan
  by_cases hnone : rounds.winners round.roundId finalPrice participants = []
  · simp only [if_pos hnone]
    exact List.mem_map_of_mem huser
  · simp only [if_neg hnone]
    by_cases hwins : rounds.IsWinner round.roundId finalPrice participants user
    · rw [if_pos hwins]
      refine List.mem_append_left _ ?_
      have hwinner : user ∈ rounds.winners round.roundId finalPrice participants :=
        List.mem_filter.mpr ⟨huser, decide_eq_true hwins⟩
      have hplace := List.idxOf_lt_length_of_mem hwinner
      have hpaid : (rounds.winners round.roundId finalPrice participants).idxOf user <
          (terms.winnerPayouts rounds round finalPrice participants).length := by
        rwa [winnerPayouts_length]
      unfold Terms.winRecords
      refine List.mem_iff_getElem.mpr
        ⟨(rounds.winners round.roundId finalPrice participants).idxOf user, ?_, ?_⟩
      · rw [List.length_zipWith]
        exact lt_min hplace hpaid
      · rw [List.getElem_zipWith, List.getElem_idxOf, List.getD_eq_getElem _ _ hpaid]
        rfl
    · rw [if_neg hwins]
      refine List.mem_append_right _ (List.mem_map_of_mem (List.mem_filter.mpr ⟨huser, ?_⟩))
      exact decide_eq_true hwins

omit [LinearOrder A] in
/-- An entry is closest exactly when its participant wins. -/
theorem isClosest_iff {entry : A × ℕ} :
    (rounds.precisionEntry round.roundId entry).IsClosest
        (participants.zipIdx.map (rounds.precisionEntry round.roundId)) finalPrice ↔
      rounds.IsWinner round.roundId finalPrice participants entry.1 := by
  unfold PrecisionEntry.IsClosest PrecisionEntry.distance Rounds.precisionEntry Rounds.IsWinner
  simp only [List.forall_mem_map, Option.isSome_iff_exists]
  constructor
  · rintro ⟨⟨prediction, hprediction⟩, hclosest⟩
    refine ⟨prediction, hprediction, fun other hother rival hrival => ?_⟩
    obtain ⟨index, hindex⟩ := List.getElem?_of_mem hother
    have hle := hclosest (other, index) (List.mk_mem_zipIdx_iff_getElem?.mpr hindex) ⟨rival, hrival⟩
    have hget : rounds.precisionPosition.get (round.roundId, other) = some rival := hrival
    simpa [revealedPrice, hprediction, hget] using hle
  · rintro ⟨prediction, hprediction, hclosest⟩
    have hget : rounds.precisionPosition.get (round.roundId, entry.1) = some prediction :=
      hprediction
    refine ⟨⟨prediction, hget⟩, fun other hother hshown => ?_⟩
    obtain ⟨rival, hrival⟩ := hshown
    have hle := hclosest other.1 (List.fst_mem_of_mem_zipIdx hother) rival hrival
    simpa [revealedPrice, hget, hrival] using hle

omit [LinearOrder A] in
/-- The engine's winners are the places of the winners. -/
theorem winnerIndices_precisionEntries :
    (findPrecisionWinnersWithPolicy
        (participants.zipIdx.map (rounds.precisionEntry round.roundId)) finalPrice
        absoluteScoring).winnerIndices =
      (participants.zipIdx.filter fun entry =>
        rounds.IsWinner round.roundId finalPrice participants entry.1).map (·.2) := by
  rw [winnerIndices_eq, List.filter_map, List.map_map]
  refine congrArg (List.map _) (List.filter_congr fun entry _ => ?_)
  rw [← Bool.coe_iff_coe]
  simp only [Function.comp_apply, decide_eq_true_eq]
  exact isClosest_iff

/-- Filtering indexed items filters the items. -/
theorem map_fst_filter_zipIdx {α : Type} (items : List α) (p : α → Bool) :
    (items.zipIdx.filter fun entry => p entry.1).map (·.1) = items.filter p := by
  conv_rhs => rw [← List.zipIdx_map_fst 0 items, List.filter_map]
  rfl

/-- The place of an index among the winners' indices is the place of the winner. -/
theorem idxOf_winnerIndices (hnodup : participants.Nodup) {entry : A × ℕ}
    (hentry : entry ∈ participants.zipIdx)
    (hwins : rounds.IsWinner round.roundId finalPrice participants entry.1) :
    ((participants.zipIdx.filter fun entry =>
        rounds.IsWinner round.roundId finalPrice participants entry.1).map (·.2)).idxOf? entry.2 =
      some ((rounds.winners round.roundId finalPrice participants).idxOf entry.1) := by
  have hgets : ∀ other ∈ participants.zipIdx, participants[other.2]? = some other.1 :=
    fun other hother => List.mem_zipIdx_iff_getElem?.mp hother
  have hsecond : ∀ other ∈ participants.zipIdx, other.2 = entry.2 → other = entry := by
    intro other hother heq
    refine Prod.ext (Option.some.inj ?_) heq
    rw [← hgets other hother, ← hgets entry hentry, heq]
  have hfirst : ∀ other ∈ participants.zipIdx, other.1 = entry.1 → other = entry := by
    intro other hother heq
    refine hsecond other hother ?_
    have hget := hgets other hother
    rw [heq, ← hgets entry hentry] at hget
    exact ((List.getElem?_inj (List.getElem?_eq_some_iff.mp (hgets entry hentry)).1 hnodup).mp
      hget.symm).symm
  have hmem : entry ∈ participants.zipIdx.filter fun entry =>
      rounds.IsWinner round.roundId finalPrice participants entry.1 :=
    List.mem_filter.mpr ⟨hentry, decide_eq_true hwins⟩
  obtain ⟨place, hplace⟩ := Option.isSome_iff_exists.mp
    (List.isSome_idxOf?.mpr (List.mem_map_of_mem (f := (·.2)) hmem))
  have hindex := List.idxOf_eq_getD_idxOf? entry.2 ((participants.zipIdx.filter fun entry =>
    rounds.IsWinner round.roundId finalPrice participants entry.1).map (·.2))
  rw [hplace, Option.getD_some,
    idxOf_map fun other hother => hsecond other (List.mem_filter.mp hother).1] at hindex
  have huser : ((participants.zipIdx.filter fun entry =>
      rounds.IsWinner round.roundId finalPrice participants entry.1).map (·.1)).idxOf entry.1 =
      (participants.zipIdx.filter fun entry =>
        rounds.IsWinner round.roundId finalPrice participants entry.1).idxOf entry :=
    idxOf_map fun other hother => hfirst other (List.mem_filter.mp hother).1
  rw [map_fst_filter_zipIdx participants fun user =>
    decide (rounds.IsWinner round.roundId finalPrice participants user)] at huser
  rw [hplace, Rounds.winners, huser, hindex]

omit [LinearOrder A] in
/-- The engine's pot is the stakes. -/
theorem totalPot_precisionEntries
    (hstaked : ∀ user ∈ participants, 0 ≤ rounds.stakeOf .precision round.roundId user)
    (hpot : (participants.map (rounds.stakeOf .precision round.roundId)).sum ≤ i128Max) :
    (findPrecisionWinnersWithPolicy
        (participants.zipIdx.map (rounds.precisionEntry round.roundId)) finalPrice
        absoluteScoring).totalPot =
      (participants.map (rounds.stakeOf .precision round.roundId)).sum := by
  have hamounts : (participants.zipIdx.map (rounds.precisionEntry round.roundId)).map
      (·.amount) = participants.map (rounds.stakeOf .precision round.roundId) := by
    conv_rhs => rw [← List.zipIdx_map_fst 0 participants]
    rw [List.map_map, List.map_map]
    rfl
  have hsums : AddUpFrom 0 ((participants.zipIdx.map
      (rounds.precisionEntry round.roundId)).map (·.amount)) := by
    rw [hamounts]
    refine addUpFrom_of_nonneg le_rfl (fun amount hamount => ?_) (by rwa [zero_add])
    obtain ⟨user, huser, rfl⟩ := List.mem_map.mp hamount
    exact hstaked user huser
  have htotal := @foldl_totalPot _ finalPrice ⟨0, [], none⟩ absoluteScoring.mode hsums
  rw [hamounts, zero_add] at htotal
  exact htotal

omit [LinearOrder A] in
/-- There are indices of winners exactly when there are winners. -/
theorem winnerIndices_eq_nil_iff :
    (participants.zipIdx.filter fun entry =>
        rounds.IsWinner round.roundId finalPrice participants entry.1).map (·.2) = [] ↔
      rounds.winners round.roundId finalPrice participants = [] := by
  rw [Rounds.winners, ← map_fst_filter_zipIdx participants fun user =>
    decide (rounds.IsWinner round.roundId finalPrice participants user), List.map_eq_nil_iff,
    List.map_eq_nil_iff]

omit [LinearOrder A] in
/-- The amounts looked up at the places of some participants are their stakes. -/
theorem lookup_amounts (rounds : Rounds A) (round : Round) (participants : List A)
    (chosen : A × ℕ → Bool) :
    (participants.zipIdx.filter chosen).mapM (fun entry =>
        match (participants.zipIdx.map (rounds.precisionEntry round.roundId))[entry.2]? with
        | none => (.error .trap : Except Failure ℤ)
        | some found => .ok found.amount) =
      .ok ((participants.zipIdx.filter chosen).map fun entry =>
        rounds.stakeOf .precision round.roundId entry.1) := by
  refine mapM_eq_ok fun entry hentry => ?_
  have hget := List.mem_zipIdx_iff_getElem?.mp (List.mem_filter.mp hentry).1
  simp [List.getElem?_map, List.getElem?_zipIdx, hget, Rounds.precisionEntry]

/-- The amounts of a Precision settlement under a fee on the pot fit: the pot, its product with the
rate, and where stakes are weighted their products with what is distributed. -/
structure Terms.PotFits (terms : Terms) (rounds : Rounds A) (round : Round) (finalPrice : ℕ)
    (participants : List A) : Prop where
  pot : (participants.map (rounds.stakeOf .precision round.roundId)).sum ≤ i128Max
  rate : rounds.winners round.roundId finalPrice participants ≠ [] →
    RateFits terms.protocolFeeBps (participants.map (rounds.stakeOf .precision round.roundId)).sum
  products : rounds.winners round.roundId finalPrice participants ≠ [] →
    ProductsFit terms.payoutPolicy
      ((participants.map (rounds.stakeOf .precision round.roundId)).sum -
        rateOf terms.protocolFeeBps
          (participants.map (rounds.stakeOf .precision round.roundId)).sum)
      ((rounds.winners round.roundId finalPrice participants).map
        (rounds.stakeOf .precision round.roundId))

variable (hmodel : terms.feeModel = .feeOnPot) (hcap : FeeCapped terms.protocolFeeBps)
  (hstaked : ∀ user ∈ participants, 0 < rounds.stakeOf .precision round.roundId user)
  (hfits : terms.PotFits rounds round finalPrice participants)
include hmodel hcap hstaked hfits

omit [LinearOrder A] in
/-- The engine's split pays the winners what the policy does. -/
theorem splitPot_of_fits (hne : rounds.winners round.roundId finalPrice participants ≠ []) :
    splitPot (participants.zipIdx.map (rounds.precisionEntry round.roundId))
        ((participants.zipIdx.filter fun entry =>
          rounds.IsWinner round.roundId finalPrice participants entry.1).map (·.2))
        ((participants.map (rounds.stakeOf .precision round.roundId)).sum -
          rateOf terms.protocolFeeBps
            (participants.map (rounds.stakeOf .precision round.roundId)).sum)
        terms.payoutPolicy =
      .ok (terms.winnerPayouts rounds round finalPrice participants) := by
  have hfee : terms.precisionFee (participants.map (rounds.stakeOf .precision round.roundId)).sum
      (rounds.stakesOf round.roundId (rounds.winners round.roundId finalPrice participants)) =
        rateOf terms.protocolFeeBps
          (participants.map (rounds.stakeOf .precision round.roundId)).sum := by
    rw [Terms.precisionFee, hmodel]
  have hproducts := hfits.products hne
  have hpot := hfits.pot
  have hwinners : ∀ user ∈ rounds.winners round.roundId finalPrice participants,
      user ∈ participants := fun user huser => (List.mem_filter.mp huser).1
  have hstakes : ∀ stake ∈ (rounds.winners round.roundId finalPrice participants).map
      (rounds.stakeOf .precision round.roundId), 0 < stake := by
    intro stake hstake
    obtain ⟨user, huser, rfl⟩ := List.mem_map.mp hstake
    exact hstaked user (hwinners user huser)
  have hsum : rounds.stakesOf round.roundId
      (rounds.winners round.roundId finalPrice participants) ≤
        (participants.map (rounds.stakeOf .precision round.roundId)).sum :=
    stakesOf_winners_le hstaked
  have hpositive : 0 < (participants.map (rounds.stakeOf .precision round.roundId)).sum := by
    have hwon : 0 < ((rounds.winners round.roundId finalPrice participants).map
        (rounds.stakeOf .precision round.roundId)).sum :=
      List.sum_pos _ hstakes (by simpa using hne)
    exact hwon.trans_le hsum
  have hnonneg := @rateOf_nonneg terms.protocolFeeBps _ hpositive.le
  have hbounded := @rateOf_le terms.protocolFeeBps _ hcap hpositive.le
  have hnil : (rounds.winners round.roundId finalPrice participants).map
      (rounds.stakeOf .precision round.roundId) ≠ [] := by simpa using hne
  rw [Terms.winnerPayouts, hfee]
  unfold Rounds.stakesOf at hsum
  generalize (participants.map (rounds.stakeOf .precision round.roundId)).sum = pot at *
  generalize rateOf terms.protocolFeeBps pot = fee at *
  have husers := map_fst_filter_zipIdx participants fun user =>
    decide (rounds.IsWinner round.roundId finalPrice participants user)
  unfold splitPot
  cases hpolicy : terms.payoutPolicy with
  | equal =>
      have hlength : ((participants.zipIdx.filter fun entry =>
          rounds.IsWinner round.roundId finalPrice participants entry.1).map (·.2)).length =
          ((rounds.winners round.roundId finalPrice participants).map
            (rounds.stakeOf .precision round.roundId)).length := by
        rw [List.length_map, List.length_map, Rounds.winners, ← husers, List.length_map]
      simp only
      rw [hlength]
      exact splitPotAmongWinners_of_fits hnil (by omega) (by omega)
  | stakeWeighted =>
      have hlookup := lookup_amounts rounds round participants fun entry =>
        decide (rounds.IsWinner round.roundId finalPrice participants entry.1)
      have hlist : (participants.zipIdx.filter fun entry =>
          rounds.IsWinner round.roundId finalPrice participants entry.1).map
            (fun entry => rounds.stakeOf .precision round.roundId entry.1) =
          (rounds.winners round.roundId finalPrice participants).map
            (rounds.stakeOf .precision round.roundId) := by
        rw [Rounds.winners, ← husers, List.map_map]
        rfl
      rw [hpolicy] at hproducts
      rw [hlist] at hlookup
      rw [List.mapM_map]
      refine (congrArg (· >>= splitPotStakeWeighted (pot - fee)) hlookup).trans ?_
      rw [ok_bind]
      exact splitPotStakeWeighted_of_fits hnil hstakes (by omega) (by omega) (by omega)
        (hproducts rfl)

/-- With distinct participants one of whom revealed, the engine's payouts are the records of the
plan. -/
theorem computePrecisionPayoutsWithPolicy_of_winners (hnodup : participants.Nodup)
    (hne : rounds.winners round.roundId finalPrice participants ≠ []) :
    computePrecisionPayoutsWithPolicy
        (participants.zipIdx.map (rounds.precisionEntry round.roundId)) finalPrice
        terms.protocolFeeBps absoluteScoring terms.payoutPolicy =
      .ok (participants.zipIdx.map fun entry =>
        (terms.precisionRecord rounds round finalPrice participants entry.1).precisionEntry
          entry.2) := by
  have hpot := @totalPot_precisionEntries _ rounds round finalPrice participants
    (fun user huser => (hstaked user huser).le) hfits.pot
  have hindices := mt winnerIndices_eq_nil_iff.mp hne
  have hpositive : 0 < (participants.map (rounds.stakeOf .precision round.roundId)).sum := by
    obtain ⟨winner, hwinner⟩ := List.exists_mem_of_ne_nil _ hne
    refine List.sum_pos _ ?_ ?_
    · intro stake hstake
      obtain ⟨user, huser, rfl⟩ := List.mem_map.mp hstake
      exact hstaked user huser
    · exact List.ne_nil_of_mem (List.mem_map_of_mem (List.mem_filter.mp hwinner).1)
  simp only [computePrecisionPayoutsWithPolicy, winnerIndices_precisionEntries, hpot]
  rw [if_neg (fun h => hindices h.1),
    if_neg (not_or.mpr ⟨not_le.mpr hpositive, hindices⟩),
    computePrecisionFee_of_fits hcap hpositive hfits.pot (hfits.rate hne), ok_bind,
    splitPot_of_fits hmodel hcap hstaked hfits hne, ok_bind, List.mapM_map]
  refine mapM_eq_ok fun entry hentry => ?_
  by_cases hwins : rounds.IsWinner round.roundId finalPrice participants entry.1
  · have hwinner : entry.1 ∈ rounds.winners round.roundId finalPrice participants :=
      List.mem_filter.mpr ⟨List.fst_mem_of_mem_zipIdx hentry, decide_eq_true hwins⟩
    have hplace := List.idxOf_lt_length_of_mem hwinner
    rw [← @winnerPayouts_length _ _ _ terms] at hplace
    have hindex := idxOf_winnerIndices hnodup hentry hwins
    simp only [Function.comp_apply, payEntry, Rounds.precisionEntry, hindex,
      List.getElem?_eq_getElem hplace, Terms.precisionRecord, if_neg hne, if_pos hwins,
      List.getD_eq_getElem _ _ hplace]
    rfl
  · have hindex : ((participants.zipIdx.filter fun entry =>
        rounds.IsWinner round.roundId finalPrice participants entry.1).map (·.2)).idxOf?
          entry.2 = none := by
      rw [List.idxOf?_eq_none_iff]
      intro hmem
      obtain ⟨other, hother, heq⟩ := List.mem_map.mp hmem
      obtain ⟨hother, hother'⟩ := List.mem_filter.mp hother
      have hget := List.mem_zipIdx_iff_getElem?.mp hother
      rw [heq, List.mem_zipIdx_iff_getElem?.mp hentry] at hget
      exact hwins (Option.some.inj hget ▸ of_decide_eq_true hother')
    simp only [Function.comp_apply, payEntry, Rounds.precisionEntry, hindex,
      Terms.precisionRecord, if_neg hne, if_neg hwins]
    rfl

omit hmodel hcap hfits in
/-- When nobody revealed, the engine refunds everybody. -/
theorem computePrecisionPayoutsWithPolicy_of_unrevealed {feeBps : Option ℕ}
    {policy : PrecisionPayoutPolicy} (hmode : round.mode = .precision) (hnonempty : participants ≠ [])
    (hpot : (participants.map (rounds.stakeOf .precision round.roundId)).sum ≤ i128Max)
    (hnone : rounds.winners round.roundId finalPrice participants = [])
    (hhidden : ∀ user ∈ participants, rounds.precisionPosition.get (round.roundId, user) = none) :
    computePrecisionPayoutsWithPolicy
        (participants.zipIdx.map (rounds.precisionEntry round.roundId)) finalPrice
        feeBps absoluteScoring policy =
      .ok (participants.zipIdx.map fun entry =>
        (terms.precisionRecord rounds round finalPrice participants entry.1).precisionEntry
          entry.2) := by
  have htotal := @totalPot_precisionEntries _ rounds round finalPrice participants
    (fun user huser => (hstaked user huser).le) hpot
  have hpositive : 0 < (participants.map (rounds.stakeOf .precision round.roundId)).sum := by
    refine List.sum_pos _ ?_ (by simpa using hnonempty)
    intro stake hstake
    obtain ⟨user, huser, rfl⟩ := List.mem_map.mp hstake
    exact hstaked user huser
  simp only [computePrecisionPayoutsWithPolicy, winnerIndices_precisionEntries, htotal]
  rw [if_pos ⟨winnerIndices_eq_nil_iff.mpr hnone, hpositive⟩, List.map_map]
  refine congrArg Except.ok (List.map_congr_left fun entry hentry => ?_)
  have hprice : revealedPrice rounds round.roundId entry.1 = 0 := by
    rw [revealedPrice, hhidden _ (List.fst_mem_of_mem_zipIdx hentry)]
    rfl
  simp [Terms.precisionRecord, hnone, hmode, PrecisionEntry.paid, Rounds.precisionEntry, hprice,
    UserRoundOutcome.precisionEntry, Rounds.outcomeRecord, precisionOutcome]

end Precision

/-! ## What a settlement computed fits -/

section Fits

variable {rounds : Rounds A} {round : Round} {terms : Terms} {finalPrice roundId : ℕ}
  {participants : List A}

omit [LinearOrder A] in
/-- A pot the scan added up is an amount. -/
theorem foldlM_visit_le {scan last : PrecisionScan A} (hstart : scan.totalPot ≤ i128Max)
    (hscan : participants.foldlM (PrecisionScan.visit rounds roundId finalPrice) scan = .ok last) :
    last.totalPot ≤ i128Max := by
  induction participants generalizing scan with
  | nil =>
      cases hscan
      exact hstart
  | cons user rest ih =>
      rw [List.foldlM_cons] at hscan
      obtain ⟨next, hnext, hrest⟩ := bind_eq_ok.mp hscan
      have htotal := (PrecisionScan.visit_spec hnext).2.2.2
      refine ih ?_ hrest
      simp only [PrecisionScan.visit, bind_eq_ok, payoutAdd_eq_ok] at hnext
      obtain ⟨total, ⟨-, -, hle⟩, -⟩ := hnext
      rw [htotal]
      exact hle

omit [LinearOrder A] in
/-- The products of a stake-weighted split that was computed fit. -/
theorem foldlM_stakeWeighted_fits {winners : List (PrecisionPrediction A)} {pool total : ℤ}
    {start paid : List ℤ × ℤ}
    (hloop : winners.foldlM (fun paid winner => do
      let product ← payoutMul winner.amount pool
      let payout ← divide product total
      payOne paid payout) start = .ok paid) :
    ∀ winner ∈ winners, winner.amount * pool ≤ i128Max := by
  induction winners generalizing start with
  | nil => simp
  | cons first rest ih =>
      rw [List.foldlM_cons] at hloop
      obtain ⟨next, hnext, hrest⟩ := bind_eq_ok.mp hloop
      simp only [bind_eq_ok, payoutMul_eq_ok] at hnext
      obtain ⟨product, ⟨-, -, hle⟩, -⟩ := hnext
      intro winner hwinner
      rcases List.mem_cons.mp hwinner with rfl | hwinner
      · exact hle
      · exact ih hrest winner hwinner

omit [LinearOrder A] in
/-- The amounts of a Precision settlement that was computed under a fee on the pot fit. -/
theorem PrecisionComputes.potFits (hbook : PrecisionBook rounds round)
    (hmodel : terms.feeModel = .feeOnPot)
    (hstaked : ∀ user ∈ participants, 0 < rounds.stakeOf .precision round.roundId user)
    (hcomputes : PrecisionComputes terms rounds round.roundId finalPrice participants) :
    terms.PotFits rounds round finalPrice participants := by
  obtain ⟨scan, hscan, hwon⟩ := hcomputes
  have hfinds := scanPredictions_spec hscan
  have hamounts := hbook.winner_amounts hfinds
  have hpot : scan.totalPot ≤ i128Max := foldlM_visit_le (show (0 : ℤ) ≤ i128Max by decide) hscan
  have hsome : rounds.winners round.roundId finalPrice participants ≠ [] → scan.winners ≠ [] := by
    intro hne hempty
    rw [hempty] at hamounts
    exact hne (List.map_eq_nil_iff.mp hamounts.symm)
  have hpositive : rounds.winners round.roundId finalPrice participants ≠ [] →
      0 < scan.totalPot := by
    intro hne
    obtain ⟨winner, hwinner⟩ := List.exists_mem_of_ne_nil _ hne
    rw [hfinds.totalPot]
    refine List.sum_pos _ ?_ (List.ne_nil_of_mem
      (List.mem_map_of_mem (List.mem_filter.mp hwinner).1))
    intro stake hstake
    obtain ⟨user, huser, rfl⟩ := List.mem_map.mp hstake
    exact hstaked user huser
  refine ⟨hfinds.totalPot ▸ hpot, fun hne => ?_, fun hne hpolicy => ?_⟩
  · obtain ⟨stakes, fee, payouts, -, hfee, -⟩ := hwon (hsome hne)
    intro rate hrate
    rw [hmodel, hrate] at hfee
    simp only [calculateProtocolFeePrecision, if_neg (not_le.mpr (hpositive hne)),
      precisionTaxableBase, bind_eq_ok, pure, Except.pure, Except.ok.injEq] at hfee
    obtain ⟨base, rfl, hrest⟩ := hfee
    rw [if_neg (not_le.mpr (hpositive hne))] at hrest
    obtain ⟨product, hproduct, -⟩ := bind_eq_ok.mp hrest
    rw [checked_eq_ok] at hproduct
    exact hfinds.totalPot ▸ hproduct.2.2
  · obtain ⟨stakes, fee, payouts, hstakes, hfee, hpayouts⟩ := hwon (hsome hne)
    obtain rfl := winnerStakes_eq_ok hstakes
    have hle : (scan.winners.map (·.amount)).sum ≤ scan.totalPot := by
      rw [hamounts, hfinds.totalPot]
      exact stakesOf_winners_le hstaked
    have hleft := (calculateProtocolFeePrecision_spec (hpositive hne) hle hfee).2
    rw [Terms.precisionFee, hmodel] at hleft
    simp only at hleft
    rw [hpolicy] at hpayouts
    simp only [calculatePrecisionPayouts, splitPool, stakeWeightedPayouts, bind_eq_ok] at hpayouts
    obtain ⟨paid, ⟨total, htotal, hsplit⟩, -⟩ := hpayouts
    obtain rfl := winnerStakes_eq_ok htotal
    have hwinnersPos : 0 < (scan.winners.map (·.amount)).sum := by
      rw [hamounts]
      refine List.sum_pos _ ?_ (by simpa using hne)
      intro stake hstake
      obtain ⟨user, huser, rfl⟩ := List.mem_map.mp hstake
      exact hstaked user (List.mem_filter.mp huser).1
    rw [if_pos hwinnersPos] at hsplit
    have hproducts := foldlM_stakeWeighted_fits hsplit
    intro stake hstake
    rw [← hamounts] at hstake
    obtain ⟨winner, hwinner, rfl⟩ := List.mem_map.mp hstake
    rw [← hfinds.totalPot, ← hleft]
    exact hproducts winner hwinner

end Fits

end XelmaMarket
