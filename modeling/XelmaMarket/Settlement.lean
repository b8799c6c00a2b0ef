import XelmaMarket.Betting
import XelmaMarket.Leaderboard

/-!
# Settlement

How a round ends: settled at a price in either mode, refunded below the minimum of participants,
cancelled, or staged into a dispute window and then voided or finalized. Claims of the credited
winnings are here too. The optional legacy-map settlement, not compiled in by default, is in
`LegacySettlement`.
-/

namespace XelmaMarket

open Transaction

variable {A : Type}

/-! ## Settlement arithmetic -/

inductive PriceDirection where
  | up
  | down
  | unchanged
  deriving DecidableEq, Repr

/-- Pure price-direction classification. -/
def classifyPriceDirection (startPrice finalPrice : ℕ) : PriceDirection :=
  if finalPrice > startPrice then .up else if finalPrice < startPrice then .down else .unchanged

/-- Exactly one pool is empty; such rounds refund everyone whichever way the price moved. -/
def isOneSidedPool (poolUp poolDown : ℤ) : Bool :=
  decide (poolUp = 0) != decide (poolDown = 0)

/-- The gross payout of an UpDown winner. -/
def computeUpdownWinnerPayout (stake winningPool totalDistributable : ℤ) : Except Failure ℤ :=
  if winningPool = 0 then
    return 0
  else do
    let product ← payoutMul stake totalDistributable
    divide product winningPool

/-- The distance of a prediction from the final price. -/
def priceDistance (predictedPrice finalPrice : ℕ) : ℕ :=
  if predictedPrice ≥ finalPrice then predictedPrice - finalPrice else finalPrice - predictedPrice

/-! ## Outcome records -/

/-- The outcome record of an UpDown position. -/
def upDownOutcome (user : A) (position : UserPosition) (payout : ℤ) (outcome : UserOutcomeType) :
    UserRoundOutcome A where
  user := user
  roundMode := 0
  predictionSide := position.side.value
  predictedPrice := 0
  stake := position.amount
  payout := payout
  outcome := outcome

/-- The outcome record of a Precision stake. -/
def precisionOutcome (user : A) (predictedPrice : ℕ) (stake payout : ℤ)
    (outcome : UserOutcomeType) : UserRoundOutcome A where
  user := user
  roundMode := 1
  predictionSide := 2
  predictedPrice := predictedPrice
  stake := stake
  payout := payout
  outcome := outcome

/-- A user's stake in a Precision round: the prediction's amount if present, else the
commitment's. -/
def precisionStake (rounds : Rounds A) (roundId : ℕ) (user : A) : ℤ :=
  match rounds.precisionPosition.get (roundId, user) with
  | some prediction => prediction.amount
  | none => (rounds.precisionCommitment.get (roundId, user)).elim 0 (·.amount)

/-- The price a user predicted, 0 without a revealed prediction. -/
def revealedPrice (rounds : Rounds A) (roundId : ℕ) (user : A) : ℕ :=
  (rounds.precisionPosition.get (roundId, user)).elim 0 (·.predictedPrice)

section DecidableAddress

variable [DecidableEq A]

/-- Credit a participant and persist the outcome. -/
def creditOutcome (roundId : ℕ) (record : UserRoundOutcome A) : ContractM A PUnit := do
  accumulatePending record.user record.payout
  persistUserOutcome roundId record

/-- Refund every stored UpDown position. The refund paths differ in the outcome they record and in
what they add up over the stakes. -/
def refundPositions {β : Type} (roundId : ℕ) (outcome : UserOutcomeType)
    (addUp : β → ℤ → Except Failure β) (initial : β) (participants : List A) : ContractM A β :=
  foldEach participants initial fun total user => do
    match ← gets (·.rounds.position.get (roundId, user)) with
    | none => return total
    | some position => do
        let extended ← addUp total position.amount
        creditOutcome roundId (upDownOutcome user position position.amount outcome)
        return extended

/-- Refund every positive Precision stake. The refund paths differ in the outcome and price they
record and in what they add up over the stakes. -/
def refundPredictions {β : Type} (roundId : ℕ) (outcome : UserOutcomeType)
    (price : Rounds A → A → ℕ) (addUp : β → ℤ → Except Failure β) (initial : β)
    (participants : List A) : ContractM A β :=
  foldEach participants initial fun total user => do
    let rounds ← gets (·.rounds)
    let stake := precisionStake rounds roundId user
    if stake > 0 then do
      let extended ← addUp total stake
      creditOutcome roundId (precisionOutcome user (price rounds user) stake stake outcome)
      return extended
    else
      return total

/-- A refund path that adds nothing up. -/
def addNothing (_total : Unit) (_stake : ℤ) : Except Failure Unit :=
  return ()

end DecidableAddress

/-! ## Cleanup -/

section DecidableAddress

variable [DecidableEq A]

/-- Remove all position keys of one participant. -/
def Rounds.clearUserPositions (rounds : Rounds A) (roundId : ℕ) (user : A) : Rounds A :=
  { rounds with
    position := rounds.position.remove (roundId, user)
    precisionPosition := rounds.precisionPosition.remove (roundId, user)
    precisionCommitment := rounds.precisionCommitment.remove (roundId, user) }

/-- Clear only storage owned by the terminal round; the active round stays. -/
def Rounds.clearDisputeRoundStorage (rounds : Rounds A) (roundId : ℕ) (participants : List A) :
    Rounds A :=
  let cleared := participants.foldl (fun rest user => rest.clearUserPositions roundId user) rounds
  { cleared with roundParticipants := cleared.roundParticipants.remove roundId }

/-- The canonical round cleanup: all position keys, the participant list and the active round. -/
def Rounds.clearRoundStorage (rounds : Rounds A) (roundId : ℕ) (participants : List A) :
    Rounds A :=
  { rounds.clearDisputeRoundStorage roundId participants with activeRound := none }

/-- Remove the position keys of one participant that belong to a mode. -/
def Rounds.clearModePositions (rounds : Rounds A) (mode : RoundMode) (roundId : ℕ) (user : A) :
    Rounds A :=
  match mode with
  | .upDown => { rounds with position := rounds.position.remove (roundId, user) }
  | .precision =>
      { rounds with
        precisionPosition := rounds.precisionPosition.remove (roundId, user)
        precisionCommitment := rounds.precisionCommitment.remove (roundId, user) }

/-- The mode-scoped cleanup of a completed settlement. -/
def Rounds.clearModeStorage (rounds : Rounds A) (mode : RoundMode) (roundId : ℕ)
    (participants : List A) : Rounds A :=
  let cleared :=
    participants.foldl (fun rest user => rest.clearModePositions mode roundId user) rounds
  { cleared with roundParticipants := cleared.roundParticipants.remove roundId }

end DecidableAddress

/-- Remove the active round marker. -/
def Rounds.removeActiveRound (rounds : Rounds A) : Rounds A :=
  { rounds with activeRound := none }

/-! ## Archive -/

/-- A running total that drops an addend which would overflow. -/
def addOrKeep (total amount : ℤ) : ℤ :=
  if i128Min ≤ total + amount ∧ total + amount ≤ i128Max then total + amount else total

/-- The pot a round summary reports. -/
def summaryPot (rounds : Rounds A) (round : Round) : ℤ :=
  match round.mode with
  | .upDown => saturatingAdd round.poolUp round.poolDown
  | .precision =>
      (rounds.participants round.roundId).foldl
        (fun total user => addOrKeep total (precisionStake rounds round.roundId user)) 0

/-- Drop an archived round and its cancellation marker. -/
def Archive.prune (archive : Archive A) (oldest : ℕ) : Archive A :=
  { archive with
    archivedRound := archive.archivedRound.remove oldest
    cancelledRound := archive.cancelledRound.remove oldest }

/-- Enforce the retention limit. Each turn of the source's loop prunes the oldest id and then
removes two ids from the list. -/
def Archive.enforceRetention (limit : ℕ) : List ℕ → Archive A → Archive A × List ℕ
  | [], archive => (archive, [])
  | [oldest], archive => if 1 > limit then (archive.prune oldest, []) else (archive, [oldest])
  | oldest :: second :: rest, archive =>
      if (oldest :: second :: rest).length > limit then
        Archive.enforceRetention limit rest (archive.prune oldest)
      else
        (archive, oldest :: second :: rest)

section DecidableAddress

variable [DecidableEq A]

/-- Append a round to the participation index of every participant. -/
def indexParticipants (roundId : ℕ) (participants : List A) : ContractM A PUnit :=
  forEach participants fun user => do
    let userRounds ← gets (·.archive.userArchivedRoundIds.getD user [])
    let extended ← pushBack userRounds roundId
    update fun s =>
      { s with archive :=
        { s.archive with
          userArchivedRoundIds := s.archive.userArchivedRoundIds.set user extended } }

/-- Archive a round: participation index, summary, summary event and retention. -/
def archiveRound (round : Round) (status : RoundArchiveStatus) (finalPrice : ℕ)
    (participants : List A) (feeAmount : ℤ) (confidence : Option ℕ) : ContractM A PUnit := do
  let settledAtLedger ← ledgerSequence
  indexParticipants round.roundId participants
  update fun s =>
    { s with
      archive :=
        { s.archive with
          archivedRound := s.archive.archivedRound.set round.roundId
            { roundId := round.roundId
              priceStart := round.priceStart
              priceFinal := finalPrice
              mode := round.mode
              status := status
              poolUp := round.poolUp
              poolDown := round.poolDown
              participantCount := participants.length
              settledAtLedger := settledAtLedger } }
      events := s.events ++
        [{ roundId := round.roundId
           status := status.value
           mode := round.mode.value
           finalPrice := finalPrice
           participantCount := participants.length
           totalPot := summaryPot s.rounds round
           feeAmount := feeAmount
           settledAtLedger := settledAtLedger
           confidence := confidence.getD 0
           feeModel := s.control.settings.readFeeModel.value }] }
  let recent ← gets (·.archive.recentArchivedRoundIds.getD [])
  let extended ← pushBack recent round.roundId
  let retentionLimit ← gets (·.control.settings.archiveRetention.getD defaultArchiveRetention)
  update fun s =>
    let pruned := Archive.enforceRetention retentionLimit extended s.archive
    { s with archive := { pruned.1 with recentArchivedRoundIds := some pruned.2 } }

end DecidableAddress

/-! ## UpDown settlement -/

section LinearAddress

variable [LinearOrder A]

/-- Refund every position of a settled UpDown round. -/
def recordRefundsIndexed (roundId : ℕ) (participants : List A) : ContractM A Unit :=
  refundPositions roundId .refund addNothing () participants

/-- Pay a participant on the winning side the share of the distributable funds, and record the
result. -/
def recordWinning (roundId : ℕ) (winningSide : BetSide) (winningPool totalDistributable : ℤ)
    (user : A) : ContractM A PUnit := do
  let stored ← gets (·.rounds.position.get (roundId, user))
  onSome stored fun position =>
    if position.side = winningSide then do
      let payout ← computeUpdownWinnerPayout position.amount winningPool totalDistributable
      accumulatePending user payout
      onStats (updateStatsWin user)
      persistUserOutcome roundId (upDownOutcome user position payout .win)
    else do
      onStats (updateStatsLoss user)
      persistUserOutcome roundId (upDownOutcome user position 0 .loss)

/-- Pay the winning side of an UpDown round and record every result. Returns the fee. -/
def recordWinningsIndexed (roundId : ℕ) (participants : List A) (winningSide : BetSide)
    (winningPool losingPool : ℤ) : ContractM A ℤ := do
  if winningPool = 0 then
    return 0
  else
    let fee ← applyProtocolFeeUpdown winningPool losingPool
    let totalDistributable ← payoutAdd fee.1 fee.2.1
    forEach participants (recordWinning roundId winningSide winningPool totalDistributable)
    return fee.2.2

/-- Deterministically select the one-sided settlement policy for a round. -/
def selectOneSidedPolicy (_round : Round) : OneSidedPolicy :=
  .refund

/-- Apply the one-sided settlement policy; every policy refunds the participants and differs only
in the amounts its event reports. Returns the fee, which is 0. -/
def applyOneSidedPolicy (round : Round) (policy : OneSidedPolicy) (participants : List A) :
    ContractM A ℤ := do
  match policy with
  | .refund | .void | .carryForward =>
      recordRefundsIndexed round.roundId participants
      return 0

/-- Settle an UpDown round at a price. Returns whether it was one-sided, and the fee. -/
def resolveUpdownMode (round : Round) (finalPrice : ℕ) : ContractM A (Bool × ℤ) := do
  let rawParticipants ← gets (·.rounds.participants round.roundId)
  let participants := sortAddresses rawParticipants
  if isOneSidedPool round.poolUp round.poolDown then
    let feeAmount ← applyOneSidedPolicy round (selectOneSidedPolicy round) participants
    return (true, feeAmount)
  else if participants.isEmpty then
    return (false, 0)
  else
    match classifyPriceDirection round.priceStart finalPrice with
    | .unchanged =>
        recordRefundsIndexed round.roundId participants
        return (false, 0)
    | .up =>
        let feeAmount ← recordWinningsIndexed round.roundId participants .up
          round.poolUp round.poolDown
        return (false, feeAmount)
    | .down =>
        let feeAmount ← recordWinningsIndexed round.roundId participants .down
          round.poolDown round.poolUp
        return (false, feeAmount)

end LinearAddress

/-! ## Precision settlement -/

/-- What the pass over the participants of a Precision round keeps: the running minimum, the
winners so far, the pot, and for each participant the stake, the predicted price, whether it was
revealed and whether it is a winner so far. -/
structure PrecisionScan (A : Type) where
  minDiff : Option ℕ
  winners : List (PrecisionPrediction A)
  totalPot : ℤ
  amounts : List ℤ
  prices : List ℕ
  revealed : List Bool
  isWinnerMask : List Bool

/-- The scan before the first participant. -/
def PrecisionScan.start : PrecisionScan A :=
  ⟨none, [], 0, [], [], [], []⟩

/-- Take a revealed prediction into the running minimum; its mask entry is appended. -/
def PrecisionScan.observe (scan : PrecisionScan A) (prediction : PrecisionPrediction A)
    (finalPrice : ℕ) : PrecisionScan A :=
  let diff := priceDistance prediction.predictedPrice finalPrice
  match scan.minDiff with
  | none =>
      { scan with
        minDiff := some diff
        winners := scan.winners ++ [prediction]
        isWinnerMask := scan.isWinnerMask ++ [true] }
  | some currentMin =>
      if diff < currentMin then
        -- a new minimum: the winners start over and the mask is cleared
        { scan with
          minDiff := some diff
          winners := [prediction]
          isWinnerMask := scan.isWinnerMask.map (fun _ => false) ++ [true] }
      else if diff = currentMin then
        { scan with
          winners := scan.winners ++ [prediction]
          isWinnerMask := scan.isWinnerMask ++ [true] }
      else
        { scan with isWinnerMask := scan.isWinnerMask ++ [false] }

section DecidableAddress

variable [DecidableEq A]

/-- Take one participant into the scan. -/
def PrecisionScan.visit (rounds : Rounds A) (roundId finalPrice : ℕ) (scan : PrecisionScan A)
    (user : A) : Except Failure (PrecisionScan A) := do
  let prediction := rounds.precisionPosition.get (roundId, user)
  let amount := precisionStake rounds roundId user
  let totalPot ← payoutAdd scan.totalPot amount
  let visited :=
    { scan with
      totalPot := totalPot
      amounts := scan.amounts ++ [amount]
      prices := scan.prices ++ [revealedPrice rounds roundId user]
      revealed := scan.revealed ++ [prediction.isSome] }
  match prediction with
  | some p => return visited.observe p finalPrice
  | none => return { visited with isWinnerMask := visited.isWinnerMask ++ [false] }

/-- Scan the participants in order. -/
def scanPredictions (rounds : Rounds A) (roundId finalPrice : ℕ) (participants : List A) :
    Except Failure (PrecisionScan A) :=
  participants.foldlM (PrecisionScan.visit rounds roundId finalPrice) .start

end DecidableAddress

/-- The sum of the winners' stakes. -/
def winnerStakes (winners : List (PrecisionPrediction A)) : Except Failure ℤ :=
  winners.foldlM (fun total winner => payoutAdd total winner.amount) 0

/-- Push one payout and add it to the total paid. -/
def payOne (paid : List ℤ × ℤ) (payout : ℤ) : Except Failure (List ℤ × ℤ) := do
  let totalPaid ← payoutAdd paid.2 payout
  return (paid.1 ++ [payout], totalPaid)

/-- Equal split: every winner gets the floor of the pool by the number of winners. -/
def equalPayouts (winners : List (PrecisionPrediction A)) (payoutPool : ℤ) :
    Except Failure (List ℤ × ℤ) :=
  if winners.length > 0 then do
    let payoutPerWinner ← divide payoutPool winners.length
    winners.foldlM (fun paid _ => payOne paid payoutPerWinner) ([], 0)
  else
    return ([], 0)

/-- Stake-weighted split: every winner gets the floor of their share of the pool. -/
def stakeWeightedPayouts (winners : List (PrecisionPrediction A)) (payoutPool : ℤ) :
    Except Failure (List ℤ × ℤ) := do
  let totalWinnerStakes ← winnerStakes winners
  if totalWinnerStakes > 0 then
    winners.foldlM (fun paid winner => do
      let product ← payoutMul winner.amount payoutPool
      let payout ← divide product totalWinnerStakes
      payOne paid payout) ([], 0)
  else
    return (winners.map fun _ => 0, 0)

/-- Give the remainder to the first winner. -/
def giveRemainder (remainder : ℤ) : List ℤ → Except Failure (List ℤ)
  | [] => return []
  | first :: rest => do
      let adjusted ← payoutAdd first remainder
      return adjusted :: rest

/-- The split of a policy: the payouts and their sum. -/
def splitPool (policy : PrecisionPayoutPolicy) (winners : List (PrecisionPrediction A))
    (payoutPool : ℤ) : Except Failure (List ℤ × ℤ) :=
  match policy with
  | .equal => equalPayouts winners payoutPool
  | .stakeWeighted => stakeWeightedPayouts winners payoutPool

/-- The payouts of the winners, in order: the split of the policy, and the remainder to the first
winner. -/
def calculatePrecisionPayouts (policy : PrecisionPayoutPolicy)
    (winners : List (PrecisionPrediction A)) (payoutPool : ℤ) : Except Failure (List ℤ) := do
  let paid ← splitPool policy winners payoutPool
  let remainder ← checked (payoutPool - paid.2) .payoutOverflow
  giveRemainder remainder paid.1

section LinearAddress

variable [LinearOrder A]

/-- Pay the winners of a Precision round and record their wins. -/
def payPrecisionWinners (roundId : ℕ) (winners : List (PrecisionPrediction A))
    (payouts : List ℤ) : ContractM A PUnit :=
  forEach winners.zipIdx fun entry => do
    let winner := entry.1
    let payout := payouts.getD entry.2 0
    accumulatePending winner.user payout
    onStats (updateStatsWin winner.user)
    persistUserOutcome roundId
      (precisionOutcome winner.user winner.predictedPrice winner.amount payout .win)

/-- Record a loss for every participant whose mask entry is not set. -/
def recordPrecisionLosers (roundId : ℕ) (participants : List A) (scan : PrecisionScan A) :
    ContractM A PUnit :=
  forEach participants.zipIdx fun entry =>
    onlyIf (scan.isWinnerMask.getD entry.2 false = false) do
      onStats (updateStatsLoss entry.1)
      persistUserOutcome roundId
        (precisionOutcome entry.1 (scan.prices.getD entry.2 0) (scan.amounts.getD entry.2 0) 0
          .loss)

/-- Refund every positive stake of a Precision round in which nobody revealed. -/
def refundUnrevealed (roundId : ℕ) (participants : List A) (scan : PrecisionScan A) :
    ContractM A PUnit :=
  forEach participants.zipIdx fun entry => do
    let stake := scan.amounts.getD entry.2 0
    onlyIf (stake > 0)
      (creditOutcome roundId (precisionOutcome entry.1 0 stake stake .refund))

/-- Settle a Precision round at a price. Returns the fee and the pot. -/
def resolvePrecisionMode (roundId finalPrice : ℕ) : ContractM A (ℤ × ℤ) := do
  let rawParticipants ← gets (·.rounds.participants roundId)
  let participants := sortAddresses rawParticipants
  if participants.isEmpty then
    return (0, 0)
  else
    let rounds ← gets (·.rounds)
    let scan ← scanPredictions rounds roundId finalPrice participants
    if scan.winners ≠ [] ∧ scan.totalPot > 0 then
      let stakes ← winnerStakes scan.winners
      let fee ← applyProtocolFeePrecision scan.totalPot stakes
      let policy ← gets (·.control.settings.readPrecisionPayoutPolicy)
      let payouts ← calculatePrecisionPayouts policy scan.winners fee.1
      payPrecisionWinners roundId scan.winners payouts
      recordPrecisionLosers roundId participants scan
      return (fee.2, scan.totalPot)
    else if scan.totalPot > 0 then
      refundUnrevealed roundId participants scan
      return (0, scan.totalPot)
    else
      return (0, scan.totalPot)

/-! ## Ending a round -/

/-- Settle a round in its mode. Returns the fee. -/
def settleMode (round : Round) (finalPrice : ℕ) : ContractM A ℤ :=
  match round.mode with
  | .upDown => (·.2) <$> resolveUpdownMode round finalPrice
  | .precision => (·.1) <$> resolvePrecisionMode round.roundId finalPrice

/-- Settle a round at a price and remove everything it stored. -/
def completeSettlement (round : Round) (finalPrice : ℕ) (confidence : Option ℕ) :
    ContractM A (ℤ × ℕ) := do
  let feeAmount ← settleMode round finalPrice
  let participants ← gets (·.rounds.participants round.roundId)
  archiveRound round .resolved finalPrice participants feeAmount confidence
  updateRounds (·.clearDisputeRoundStorage round.roundId participants)
  updateRounds (·.clearModeStorage round.mode round.roundId participants)
  -- the active round is removed whichever round it is; the guarded removal that follows in the
  -- source finds nothing left
  updateRounds (·.removeActiveRound)
  return (feeAmount, participants.length)

/-- Refund every stake of a round below the minimum of participants. -/
def refundStakesUnderThreshold (round : Round) (participants : List A) : ContractM A Unit :=
  match round.mode with
  | .upDown => refundPositions round.roundId .refund addNothing () participants
  | .precision =>
      refundPredictions round.roundId .refund (fun _ _ => 0) addNothing () participants

/-- Refund a round below the minimum of participants and remove everything it stored. -/
def refundUnderThreshold (round : Round) (participants : List A) : ContractM A PUnit := do
  refundStakesUnderThreshold round participants
  updateRounds (·.clearRoundStorage round.roundId participants)

/-- Stage a settlement into its dispute window. -/
def stageSettlement (round : Round) (finalPrice : ℕ) (confidence : Option ℕ)
    (disputeLedgers : ℕ) : ContractM A PUnit := do
  let resolvedAtLedger ← ledgerSequence
  let deadlineLedger ← checkedUint 32 (resolvedAtLedger + disputeLedgers) .overflow
  updateRounds fun rounds =>
    { rounds with
      pendingDisputes := rounds.pendingDisputes.set round.roundId
        { round := round
          finalPrice := finalPrice
          confidence := confidence
          resolvedAtLedger := resolvedAtLedger
          deadlineLedger := deadlineLedger }
      activeRound := none }

/-- Whether a number of participants is below the configured minimum. -/
def Settings.belowMinimum (settings : Settings) (count : ℕ) : Bool :=
  settings.minParticipants.any fun min => count < min

/-- Dispatch a settlement once its price is determined: refund below the minimum of participants,
stage it when a dispute window is configured, complete it otherwise. -/
def settleRoundWithPrice (round : Round) (finalPrice : ℕ) (confidence : Option ℕ) :
    ContractM A PUnit := do
  let participants ← gets (·.rounds.participants round.roundId)
  let belowMinimum ← gets (·.control.settings.belowMinimum participants.length)
  let disputeLedgers ← gets (·.control.settings.getDisputeLedgers)
  if belowMinimum then
    archiveRound round .fallbackRefund finalPrice participants 0 confidence
    refundUnderThreshold round participants
  else if disputeLedgers > 0 then
    stageSettlement round finalPrice confidence disputeLedgers
  else
    let _ ← completeSettlement round finalPrice confidence

/-- The staged settlement of a round, or an error. -/
def readPendingDispute (roundId : ℕ) (error : ContractError) :
    ContractM A PendingDisputeSettlement := do
  let pending ← gets (·.rounds.pendingDisputes.get roundId)
  orError pending error

/-- Remove the staged settlement of a round. -/
def removePendingDispute (roundId : ℕ) : ContractM A PUnit :=
  updateRounds fun rounds =>
    { rounds with pendingDisputes := rounds.pendingDisputes.remove roundId }

/-- Refund every stake of a voided round. Returns the total refunded. -/
def voidStakes (mode : RoundMode) (roundId : ℕ) (participants : List A) : ContractM A ℤ :=
  match mode with
  | .upDown => refundPositions roundId .void payoutAdd 0 participants
  | .precision =>
      refundPredictions roundId .void (fun rounds user => revealedPrice rounds roundId user)
        payoutAdd 0 participants

/-- Void a staged round while its dispute window is open; anyone may. -/
def voidRound (roundId : ℕ) : ContractM A PUnit := do
  let _ ← onControl requireSupportedSchema
  onControl ensureNotPaused
  let pending ← readPendingDispute roundId .roundNotCancellable
  let currentLedger ← ledgerSequence
  reject (currentLedger ≥ pending.deadlineLedger) .roundNotCancellable
  let participants ← gets (·.rounds.participants roundId)
  let _ ← voidStakes pending.round.mode roundId participants
  archiveRound pending.round .voided pending.finalPrice participants 0 pending.confidence
  updateRounds (·.clearDisputeRoundStorage roundId participants)
  removePendingDispute roundId

/-- Finalize a staged round once its dispute window has closed; anyone may. -/
def finalizeRound (roundId : ℕ) : ContractM A PUnit := do
  let _ ← onControl requireSupportedSchema
  onControl ensureNotPaused
  let pending ← readPendingDispute roundId .noActiveRound
  let currentLedger ← ledgerSequence
  reject (currentLedger < pending.deadlineLedger) .roundNotEnded
  let _ ← completeSettlement pending.round pending.finalPrice pending.confidence
  removePendingDispute roundId

/-! ## Cancelling a round -/

/-- What a cancellation adds up: the stakes in order, and their total. -/
abbrev StakeTally := List ℤ × ℤ

/-- Tally one stake; a stake that would overflow the total is left out of it. -/
def StakeTally.add (tally : StakeTally) (stake : ℤ) : StakeTally :=
  (tally.1 ++ [stake], addOrKeep tally.2 stake)

/-- Refund every participant of a cancelled Precision round and record each, a zero stake too. -/
def cancelPredictions (roundId : ℕ) (participants : List A) : ContractM A StakeTally :=
  foldEach participants ([], 0) fun tally user => do
    let stake ← gets (precisionStake ·.rounds roundId user)
    onlyIf (stake > 0) (accumulatePending user stake)
    persistUserOutcome roundId (precisionOutcome user 0 stake stake .void)
    return StakeTally.add tally stake

/-- Refund every participant of a cancelled round. Returns the tally of the stakes. -/
def cancelStakes (round : Round) (participants : List A) : ContractM A StakeTally :=
  match round.mode with
  | .upDown =>
      refundPositions round.roundId .void (fun tally stake => .ok (StakeTally.add tally stake))
        ([], 0) participants
  | .precision => cancelPredictions round.roundId participants

/-- The coverage all stakes together ask for. -/
def totalCoverage (stakes : List ℤ) : ContractM A ℤ :=
  foldEach stakes 0 fun total stake => do
    let coverage ← calculateCoverageAmount stake
    let extended ← payoutAdd total coverage
    return extended

/-- Distribute what the fund paid among the participants in proportion to their stakes. -/
def distributeCoverage (participants : List A) (tally : StakeTally) (distributed : ℤ) :
    ContractM A PUnit :=
  forEach participants.zipIdx fun entry => do
    let stake := tally.1.getD entry.2 0
    onlyIf (stake > 0) do
      let product ← checked (distributed * stake) .overflow
      let coverage ← divide product tally.2
      onlyIf (coverage > 0) (accumulatePending entry.1 coverage)

/-- Pay the insurance coverage of an eligible cancellation. -/
def payCoverage (participants : List A) (tally : StakeTally) : ContractM A PUnit := do
  let requested ← totalCoverage tally.1
  onlyIf (requested > 0) do
    let distributed ← deductInsuranceCoverage requested
    onlyIf (distributed > 0 ∧ tally.2 > 0) (distributeCoverage participants tally distributed)

/-- Cancel the active round, refund all stakes, and pay the coverage of an eligible reason. -/
def cancelRound (reason : ℕ) : ContractM A PUnit := do
  let _ ← onControl requireSupportedSchema
  let _ ← onControl authorizedAdmin
  let round ← readActiveRound .roundNotCancellable
  let participants ← gets (·.rounds.participants round.roundId)
  let eligible ← gets (·.control.settings.isCoverageEligible reason)
  let tally ← cancelStakes round participants
  onlyIf (eligible = true ∧ tally.1 ≠ []) (payCoverage participants tally)
  updateRounds (·.clearRoundStorage round.roundId participants)
  archiveRound round .cancelled 0 participants 0 none
  updateRounds fun rounds =>
    { rounds with roundParticipants := rounds.roundParticipants.remove round.roundId }
  update fun s =>
    { s with archive :=
      { s.archive with cancelledRound := s.archive.cancelledRound.set round.roundId true } }
  updateRounds (·.removeActiveRound)

/-! ## Claims -/

/-- Move a user's pending winnings to the balance; a zero amount is left alone. -/
def claimPending (user : A) : ContractM A ℤ := do
  let pending ← gets (·.vault.pendingOf user)
  if pending = 0 then
    return 0
  else
    let currentBalance ← gets (·.vault.balanceOf user)
    let newBalance ← payoutAdd currentBalance pending
    updateVault fun vault =>
      { vault with
        pendingWinnings := vault.pendingWinnings.remove user
        pendingWinningsUpdatedAt := vault.pendingWinningsUpdatedAt.remove user }
    setBalance user newBalance
    return pending

/-- Claim pending winnings. -/
def claimWinnings (user : A) : ContractM A ℤ := do
  let _ ← onControl requireSupportedSchema
  requireAuth user
  onControl ensureNotPaused
  claimPending user

/-- Whether a sorted list holds an address twice. -/
def hasAdjacentDuplicate : List A → Bool
  | first :: second :: rest => decide (first = second) || hasAdjacentDuplicate (second :: rest)
  | _ => false

/-- Claim the pending winnings of a bounded batch of users, each of whom must authorise it. -/
def claimMany (users : List A) : ContractM A (List ℤ) := do
  let _ ← onControl requireSupportedSchema
  onControl ensureNotPaused
  reject (users.length > maxClaimBatchSize) .claimBatchTooLarge
  reject (hasAdjacentDuplicate (sortAddresses users) = true) .duplicateClaimAddress
  foldEach users [] fun amounts user => do
    requireAuth user
    let amount ← claimPending user
    return amounts ++ [amount]

end LinearAddress

end XelmaMarket
