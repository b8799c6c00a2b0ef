import XelmaMarket.Settlement

/-!
# Settlement math

The pure payout engine: the payouts of a round computed from a list of participants, without any
storage. The contract shares only its smallest helpers; the golden vectors and the replay tool run
it as a whole.
-/

namespace XelmaMarket

/-! ## Fees -/

/-- Split a winning and a losing pool into the pools after the fee and the fee. A fee above the
losing pool is taken from the winning pool. -/
def computeUpdownFee (winningPool losingPool : ℤ) (feeBps : Option ℕ) :
    Except Failure (ℤ × ℤ × ℤ) :=
  match feeBps with
  | none => return (winningPool, losingPool, 0)
  | some bpsValue => do
      let totalPot ← payoutAdd winningPool losingPool
      let product ← checked (totalPot * bpsValue) .overflow
      let feeAmount ← divide product bpsDenominator
      if feeAmount = 0 then
        return (winningPool, losingPool, 0)
      else
        let feeFromLosing := min feeAmount losingPool
        let feeFromWinning ← checked (feeAmount - feeFromLosing) .overflow
        let distWinning ← checked (winningPool - feeFromWinning) .overflow
        let distLosing ← checked (losingPool - feeFromLosing) .overflow
        return (distWinning, distLosing, feeAmount)

/-- Split the pot of a Precision round into what is distributed and the fee. -/
def computePrecisionFee (totalPot : ℤ) (feeBps : Option ℕ) : Except Failure (ℤ × ℤ) :=
  match feeBps with
  | none => return (totalPot, 0)
  | some bpsValue =>
      if totalPot ≤ 0 then
        return (totalPot, 0)
      else do
        let product ← checked (totalPot * bpsValue) .payoutOverflow
        let feeAmount ← divide product bpsDenominator
        let distributable ← checked (totalPot - feeAmount) .payoutOverflow
        return (distributable, feeAmount)

/-! ## Precision winners -/

/-- How the score of a prediction is measured. -/
inductive PrecisionScoringMode where
  | absoluteDistance
  | relativeDistance
  deriving DecidableEq

/-- How winners are determined: the measure, and a band of scores that win as well. -/
structure PrecisionScoringPolicy where
  mode : PrecisionScoringMode
  confidenceBand : Option ℕ
  deriving DecidableEq

/-- A prediction, or a commitment that was not revealed. -/
structure PrecisionEntry where
  index : ℕ
  predictedPrice : ℕ
  amount : ℤ
  revealed : Bool
  deriving DecidableEq

/-- The winners, the losers and the pot. -/
structure PrecisionWinnersResult where
  winnerIndices : List ℕ
  totalPot : ℤ
  loserIndices : List ℕ

/-- The score of a prediction; a relative one is in basis points of the price. -/
def PrecisionScoringMode.score (mode : PrecisionScoringMode) (predictedPrice finalPrice : ℕ) : ℕ :=
  let absDiff := priceDistance predictedPrice finalPrice
  match mode with
  | .absoluteDistance => absDiff
  | .relativeDistance =>
      if finalPrice > 0 then min (absDiff * 10000) (2 ^ 128 - 1) / finalPrice else absDiff

/-- What the pass over the entries keeps: the pot, the scores of the revealed entries and the least
score. -/
structure ScorePass where
  totalPot : ℤ
  scores : List (ℕ × ℕ)
  minScore : Option ℕ

/-- Take one entry into the pass. -/
def ScorePass.visit (mode : PrecisionScoringMode) (finalPrice : ℕ) (pass : ScorePass)
    (entry : PrecisionEntry) : ScorePass :=
  let totalPot := saturatingAdd pass.totalPot entry.amount
  if entry.revealed = true then
    let score := mode.score entry.predictedPrice finalPrice
    { totalPot := totalPot
      scores := pass.scores ++ [(entry.index, score)]
      minScore :=
        match pass.minScore with
        | none => some score
        | some least => if score < least then some score else some least }
  else
    { pass with totalPot := totalPot }

/-- Whether a score wins against the best one. -/
def PrecisionScoringPolicy.isWinner (policy : PrecisionScoringPolicy) (best score : ℕ) : Bool :=
  match policy.confidenceBand with
  | none => score = best
  | some band => score ≤ band || score ≤ saturatingAddUint 128 best band

/-- Determine the winners of a Precision round under a scoring policy. -/
def findPrecisionWinnersWithPolicy (entries : List PrecisionEntry) (finalPrice : ℕ)
    (policy : PrecisionScoringPolicy) : PrecisionWinnersResult :=
  let pass := entries.foldl (ScorePass.visit policy.mode finalPrice) ⟨0, [], none⟩
  let winnerIndices :=
    match pass.minScore with
    | none => []
    | some best => (pass.scores.filter fun entry => policy.isWinner best entry.2).map (·.1)
  { winnerIndices := winnerIndices
    totalPot := pass.totalPot
    loserIndices :=
      (entries.filter fun entry => ¬ entry.index ∈ winnerIndices).map (·.index) }

/-! ## Precision pot -/

/-- Split a pot equally, the remainder to the first winner. -/
def splitPotAmongWinners (distributable : ℤ) (winnerCount : ℕ) : Except Failure (List ℤ) :=
  if winnerCount = 0 ∨ distributable ≤ 0 then
    return []
  else do
    let perWinner ← divide distributable winnerCount
    let remainder := distributable.tmod winnerCount
    (List.range winnerCount).mapM fun i =>
      if i = 0 then checked (perWinner + remainder) .payoutOverflow else return perWinner

/-- Split a pot in proportion to the winners' stakes, the remainder to the first winner. -/
def splitPotStakeWeighted (distributable : ℤ) (winnerStakes : List ℤ) : Except Failure (List ℤ) :=
  if winnerStakes = [] ∨ distributable ≤ 0 then
    return []
  else do
    let totalWinnerStake ← winnerStakes.foldlM payoutAdd 0
    if totalWinnerStake = 0 then
      splitPotAmongWinners distributable winnerStakes.length
    else
      let paid ← winnerStakes.foldlM (fun paid stake => do
        let product ← payoutMul stake distributable
        let payout ← divide product totalWinnerStake
        payOne paid payout) ([], 0)
      let remainder ← checked (distributable - paid.2) .payoutOverflow
      if remainder > 0 then giveRemainder remainder paid.1 else return paid.1

/-! ## UpDown payouts -/

/-- The UpDown position of one participant. -/
structure UpDownPosition where
  index : ℕ
  amount : ℤ
  sideUp : Bool
  deriving DecidableEq

/-- The payout of one UpDown participant. -/
structure UpDownPayoutEntry where
  index : ℕ
  stake : ℤ
  payout : ℤ
  isWinner : Bool
  isRefund : Bool
  deriving DecidableEq

/-- A refunded position. -/
def UpDownPosition.refund (position : UpDownPosition) : UpDownPayoutEntry where
  index := position.index
  stake := position.amount
  payout := position.amount
  isWinner := false
  isRefund := true

/-- The payouts of a competitive UpDown round. -/
def payUpdownPositions (positions : List UpDownPosition) (winningSideUp : Bool)
    (winningPool losingPool : ℤ) (feeBps : Option ℕ) :
    Except Failure (List UpDownPayoutEntry) :=
  if winningPool = 0 then
    return positions.map UpDownPosition.refund
  else do
    let fee ← computeUpdownFee winningPool losingPool feeBps
    let totalDistributable ← payoutAdd fee.1 fee.2.1
    positions.mapM fun position =>
      if position.sideUp = winningSideUp then do
        let payout ← computeUpdownWinnerPayout position.amount winningPool totalDistributable
        return ⟨position.index, position.amount, payout, true, false⟩
      else
        return ⟨position.index, position.amount, 0, false, false⟩

/-- The payouts of an UpDown round. -/
def computeUpdownPayouts (positions : List UpDownPosition) (startPrice finalPrice : ℕ)
    (poolUp poolDown : ℤ) (feeBps : Option ℕ) : Except Failure (List UpDownPayoutEntry) :=
  if isOneSidedPool poolUp poolDown = true then
    return positions.map UpDownPosition.refund
  else
    match classifyPriceDirection startPrice finalPrice with
    | .unchanged => return positions.map UpDownPosition.refund
    | .up => payUpdownPositions positions true poolUp poolDown feeBps
    | .down => payUpdownPositions positions false poolDown poolUp feeBps

/-! ## Precision payouts -/

/-- The payout of one Precision participant. -/
structure PrecisionPayoutEntry where
  index : ℕ
  stake : ℤ
  predictedPrice : ℕ
  payout : ℤ
  isWinner : Bool
  isRefund : Bool
  deriving DecidableEq

/-- An entry with its payout. -/
def PrecisionEntry.paid (entry : PrecisionEntry) (payout : ℤ) (isWinner isRefund : Bool) :
    PrecisionPayoutEntry where
  index := entry.index
  stake := entry.amount
  predictedPrice := entry.predictedPrice
  payout := payout
  isWinner := isWinner
  isRefund := isRefund

/-- The payouts of the winners under a payout policy. -/
def splitPot (entries : List PrecisionEntry) (winnerIndices : List ℕ) (distributable : ℤ)
    (payoutPolicy : PrecisionPayoutPolicy) : Except Failure (List ℤ) :=
  match payoutPolicy with
  | .equal => splitPotAmongWinners distributable winnerIndices.length
  | .stakeWeighted => do
      let winnerStakes ← winnerIndices.mapM fun index =>
        -- an index past the entries traps
        match entries[index]? with
        | none => throw .trap
        | some entry => return entry.amount
      splitPotStakeWeighted distributable winnerStakes

/-- The payout of an entry: a winner gets the payout at their place among the winners. -/
def payEntry (winnerIndices : List ℕ) (winnerPayouts : List ℤ) (entry : PrecisionEntry) :
    Except Failure PrecisionPayoutEntry :=
  match winnerIndices.idxOf? entry.index with
  | none => return entry.paid 0 false false
  | some place =>
      match winnerPayouts[place]? with
      | none => throw .trap
      | some payout => return entry.paid payout true false

/-- The payouts of a Precision round under explicit scoring and payout policies. -/
def computePrecisionPayoutsWithPolicy (entries : List PrecisionEntry) (finalPrice : ℕ)
    (feeBps : Option ℕ) (scoringPolicy : PrecisionScoringPolicy)
    (payoutPolicy : PrecisionPayoutPolicy) : Except Failure (List PrecisionPayoutEntry) :=
  let result := findPrecisionWinnersWithPolicy entries finalPrice scoringPolicy
  if result.winnerIndices = [] ∧ result.totalPot > 0 then
    return entries.map fun entry => entry.paid entry.amount false true
  else if result.totalPot ≤ 0 ∨ result.winnerIndices = [] then
    return entries.map fun entry => entry.paid 0 false false
  else do
    let fee ← computePrecisionFee result.totalPot feeBps
    let winnerPayouts ← splitPot entries result.winnerIndices fee.1 payoutPolicy
    entries.mapM (payEntry result.winnerIndices winnerPayouts)

/-- The default scoring policy. -/
def absoluteScoring : PrecisionScoringPolicy :=
  ⟨.absoluteDistance, none⟩

/-- The payouts of a Precision round under the default policies. -/
def computePrecisionPayouts (entries : List PrecisionEntry) (finalPrice : ℕ)
    (feeBps : Option ℕ) : Except Failure (List PrecisionPayoutEntry) :=
  computePrecisionPayoutsWithPolicy entries finalPrice feeBps absoluteScoring .equal

/-! ## Classification -/

/-- The classification of an engine's entry. -/
def outcomeOf (isWinner isRefund : Bool) : UserOutcomeType :=
  if isRefund then .refund else if isWinner then .win else .loss

end XelmaMarket
