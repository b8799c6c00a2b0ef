import XelmaMarket.Settlement

/-!
# Payout preview

`simulatePayout` estimates the payouts of the active round at a hypothetical final price. The
source implements it apart from the settlement, with a loop of its own over the participants and
its own split of the pool, and so does this module.
-/

namespace XelmaMarket

variable {A : Type} [LinearOrder A]

/-! ## UpDown preview -/

/-- What an UpDown preview knows before it visits the participants: the winning side, its pool,
the distributable funds and the fee. -/
structure UpDownPreview where
  winningSide : BetSide
  winningPool : ℤ
  distWinning : ℤ
  distLosing : ℤ
  totalFee : ℤ

/-- The preview of the pools of a round. -/
def previewPools (bps : Option ℕ) (feeModel : FeeModel) (round : Round) (finalPrice : ℕ)
    (refunded : Bool) : Except Failure UpDownPreview :=
  if refunded then
    return ⟨.up, 0, 0, 0, 0⟩
  else if finalPrice > round.priceStart then do
    let fee ← calculateProtocolFeeUpdown bps feeModel round.poolUp round.poolDown
    return ⟨.up, round.poolUp, fee.1, fee.2.1, fee.2.2⟩
  else do
    let fee ← calculateProtocolFeeUpdown bps feeModel round.poolDown round.poolUp
    return ⟨.down, round.poolDown, fee.1, fee.2.1, fee.2.2⟩

/-- The previewed outcome of one UpDown position. -/
def previewPosition (refunded : Bool) (preview : UpDownPreview) (totalDistributable : ℤ)
    (user : A) (position : UserPosition) : Except Failure (UserRoundOutcome A) :=
  if refunded then
    return upDownOutcome user position position.amount .refund
  else if position.side = preview.winningSide then do
    let product ← payoutMul position.amount totalDistributable
    let payout ← divide product preview.winningPool
    return upDownOutcome user position payout .win
  else
    return upDownOutcome user position 0 .loss

/-- The previewed outcomes of an UpDown round, and the fee. -/
def previewUpDown (s : Storage A) (round : Round) (finalPrice : ℕ) (participants : List A) :
    Except Failure (List (UserRoundOutcome A) × ℤ) := do
  let settings := s.control.settings
  let priceUnchanged := decide (finalPrice = round.priceStart)
  let isOneSided := decide (round.poolUp = 0) != decide (round.poolDown = 0)
  let refunded := priceUnchanged || isOneSided
  let preview ← previewPools settings.protocolFeeBps settings.readFeeModel round finalPrice
    refunded
  let totalDistributable ← payoutAdd preview.distWinning preview.distLosing
  let outcomes ← participants.foldlM (fun outcomes user =>
    match s.rounds.position.get (round.roundId, user) with
    | none => return outcomes
    | some position => do
        let outcome ← previewPosition refunded preview totalDistributable user position
        return outcomes ++ [outcome]) []
  return (outcomes, preview.totalFee)

/-! ## Precision preview -/

/-- What the preview keeps of the participants of a Precision round. -/
structure PreviewScan (A : Type) where
  minDiff : Option ℕ
  winners : List (PrecisionPrediction A)
  totalPot : ℤ
  isWinnerMask : List Bool
  preds : List (PrecisionPrediction A)
  userAmounts : List ℤ

/-- Take a revealed prediction into the running minimum. -/
def PreviewScan.observe (scan : PreviewScan A) (prediction : PrecisionPrediction A)
    (finalPrice : ℕ) : PreviewScan A :=
  let diff := priceDistance prediction.predictedPrice finalPrice
  match scan.minDiff with
  | none =>
      { scan with
        minDiff := some diff
        winners := scan.winners ++ [prediction]
        isWinnerMask := scan.isWinnerMask ++ [true] }
  | some currentMin =>
      if diff < currentMin then
        { scan with
          minDiff := some diff
          winners := [prediction]
          isWinnerMask := scan.isWinnerMask.map (fun _ => false) ++ [true] }
      else if diff = currentMin then
        { scan with
          winners := scan.winners ++ [prediction]
          isWinnerMask := scan.isWinnerMask ++ [true] }
      else
        { scan with isWinnerMask := scan.isWinnerMask ++ [false] }

/-- Take one participant into the preview scan. -/
def PreviewScan.visit (rounds : Rounds A) (roundId finalPrice : ℕ) (scan : PreviewScan A)
    (user : A) : Except Failure (PreviewScan A) := do
  let prediction := rounds.precisionPosition.get (roundId, user)
  let commitment := rounds.precisionCommitment.get (roundId, user)
  let pred : PrecisionPrediction A :=
    match prediction, commitment with
    | some p, _ => p
    | none, some c => { user := user, predictedPrice := 0, amount := c.amount }
    | none, none => { user := user, predictedPrice := 0, amount := 0 }
  let totalPot ← checked (scan.totalPot + pred.amount) .overflow
  let visited :=
    { scan with
      totalPot := totalPot
      preds := scan.preds ++ [pred]
      userAmounts := scan.userAmounts ++ [pred.amount] }
  match prediction with
  | some p => return visited.observe p finalPrice
  | none => return { visited with isWinnerMask := visited.isWinnerMask ++ [false] }

/-- The preview's own split of the pool among the winners. -/
def previewPayouts (policy : PrecisionPayoutPolicy) (winners : List (PrecisionPrediction A))
    (payoutPool : ℤ) : Except Failure (List ℤ) := do
  let paid ← splitPool policy winners payoutPool
  if winners.length > 0 then
    let remainder ← checked (payoutPool - paid.2) .payoutOverflow
    giveRemainder remainder paid.1
  else
    return paid.1

/-- The pool to distribute and the fee of a Precision preview. -/
def previewFee (settings : Settings) (scan : PreviewScan A) : Except Failure (ℤ × ℤ) :=
  if scan.winners ≠ [] ∧ scan.totalPot > 0 then
    -- the preview's sum of winner stakes drops an addend that overflows
    let stakes := scan.winners.foldl (fun total winner => addOrKeep total winner.amount) 0
    calculateProtocolFeePrecision settings.protocolFeeBps settings.readFeeModel scan.totalPot
      stakes
  else
    return (0, 0)

/-- The previewed outcome of one participant, and the number of winners paid so far. -/
def previewParticipant (scan : PreviewScan A) (payouts : List ℤ)
    (seen : List (UserRoundOutcome A) × ℕ) (entry : A × ℕ) :
    List (UserRoundOutcome A) × ℕ :=
  let stake := scan.userAmounts.getD entry.2 0
  let price := (scan.preds[entry.2]?).elim 0 (·.predictedPrice)
  if scan.winners = [] then
    (seen.1 ++ [precisionOutcome entry.1 price stake stake .refund], seen.2)
  else if scan.isWinnerMask.getD entry.2 false then
    (seen.1 ++ [precisionOutcome entry.1 price stake (payouts.getD seen.2 0) .win], seen.2 + 1)
  else
    (seen.1 ++ [precisionOutcome entry.1 price stake 0 .loss], seen.2)

/-- The previewed outcomes of a Precision round, the fee and the pot. -/
def previewPrecision (s : Storage A) (round : Round) (finalPrice : ℕ) (participants : List A) :
    Except Failure (List (UserRoundOutcome A) × ℤ × ℤ) := do
  let settings := s.control.settings
  let scan ← participants.foldlM (PreviewScan.visit s.rounds round.roundId finalPrice)
    ⟨none, [], 0, [], [], []⟩
  let fee ← previewFee settings scan
  let payouts ← previewPayouts settings.readPrecisionPayoutPolicy scan.winners fee.1
  let outcomes := participants.zipIdx.foldl (previewParticipant scan payouts) ([], 0)
  return (outcomes.1, fee.2, scan.totalPot)

/-! ## The query -/

/-- Estimate the payouts of the active round at a hypothetical final price. -/
def simulatePayout (s : Storage A) (finalPrice : ℕ) : Except Failure (SimulationResult A) :=
  match s.rounds.activeRound with
  | none => throw (.err .noActiveRound)
  | some round =>
      let participants := sortAddresses (s.rounds.participants round.roundId)
      let feeModel := s.control.settings.readFeeModel
      match round.mode with
      | .upDown => do
          let preview ← previewUpDown s round finalPrice participants
          return {
            mode := round.mode
            poolUp := round.poolUp
            poolDown := round.poolDown
            precisionTotalStake := 0
            feeAmount := preview.2
            feeModel := feeModel.value
            outcomes := preview.1 }
      | .precision => do
          let preview ← previewPrecision s round finalPrice participants
          return {
            mode := round.mode
            poolUp := round.poolUp
            poolDown := round.poolDown
            precisionTotalStake := preview.2.2
            feeAmount := preview.2.1
            feeModel := feeModel.value
            outcomes := preview.1 }

end XelmaMarket
