import XelmaMarket.AccessControl
import XelmaMarket.Config

/-!
# Rounds and bets

Creating a round, the three ways to stake in it, the reveal of a committed prediction, the early
cash-out, and the initial mint of a user.
-/

namespace XelmaMarket

open Transaction

variable {A : Type}

/-! ## Checks -/

/-- The all-zero hash is a placeholder, not a commitment. -/
def isZeroBytes32 (value : BytesN 32) : Bool :=
  value.all (· == 0)

/-- Rejects clearly weak salts: all-zero or every byte identical. -/
def saltHasMinimumEntropy (salt : BytesN 32) : Bool :=
  salt.any (· != 0) && salt.any (· != salt[0])

/-- What a user has at stake in a round under any of the three position keys. -/
def userRoundExposure [DecidableEq A] (rounds : Rounds A) (roundId : ℕ) (user : A) : ℤ :=
  let position := (rounds.position.get (roundId, user)).elim 0 (·.amount)
  let prediction := (rounds.precisionPosition.get (roundId, user)).elim 0 (·.amount)
  let commitment := (rounds.precisionCommitment.get (roundId, user)).elim 0 (·.amount)
  saturatingAdd (saturatingAdd (saturatingAdd 0 position) prediction) commitment

/-- The user's cumulative exposure in the round must stay within the cap, when set. -/
def enforceUserRoundExposure [DecidableEq A] (roundId : ℕ) (user : A) (additionalAmount : ℤ) :
    ContractM A PUnit := do
  let maxUserRoundExposure ← gets (·.control.settings.maxUserRoundExposure)
  onSome maxUserRoundExposure fun maxExposure => do
    let currentExposure ← gets (userRoundExposure ·.rounds roundId user)
    let nextExposure ← checked (currentExposure + additionalAmount) .overflow
    reject (nextExposure > maxExposure) .exposureCapExceeded

/-- A stake must stay within the cap on one bet, when set. -/
def enforceMaxStake (amount : ℤ) : ContractM A PUnit := do
  let maxStake ← gets (·.control.settings.maxStake)
  onSome maxStake fun max => reject (amount > max) .stakeExceedsMax

/-- The active round, or an error. -/
def readActiveRound (error : ContractError) : ContractM A Round := do
  let activeRound ← gets (·.rounds.activeRound)
  orError activeRound error

/-- Bets close at the bet end ledger, or earlier by the close buffer. -/
def enforceBettingOpen (round : Round) : ContractM A PUnit := do
  let currentLedger ← ledgerSequence
  let closeBufferLedgers ← gets (·.control.settings.closeBufferLedgers.getD 0)
  reject (currentLedger ≥ round.betEndLedger) .roundEnded
  -- the close ledger is a saturating subtraction, as `-` on `ℕ` is
  reject (closeBufferLedgers > 0 ∧ currentLedger ≥ round.betEndLedger - closeBufferLedgers)
    .roundEnded

/-! ## Creating a round -/

/-- The round mode a number stands for. -/
def roundModeOf : ℕ → Option RoundMode
  | 0 => some .upDown
  | 1 => some .precision
  | _ => none

section DecidableAddress

variable [DecidableEq A]

/-- Create a new prediction round. -/
def createRound (startPrice : ℕ) (mode : Option ℕ) : ContractM A PUnit := do
  let _ ← onControl requireSupportedSchema
  reject (startPrice < minStartPrice) .invalidStartPrice
  reject (startPrice > maxStartPrice) .invalidStartPrice
  let roundMode ← orError (roundModeOf (mode.getD 0)) .invalidMode
  let _ ← onControl authorizedAdmin
  onControl ensureNotPaused
  assertNoActiveRound
  let betLedgers ← gets (·.control.settings.betWindowLedgers.getD defaultBetWindowLedgers)
  let runLedgers ← gets (·.control.settings.runWindowLedgers.getD defaultRunWindowLedgers)
  let startLedger ← ledgerSequence
  let reused ← gets (·.rounds.roundStartLedger.has startLedger)
  reject (reused = true) .roundStartLedgerReused
  let lastRoundId ← gets (·.rounds.lastRoundId.getD 0)
  let roundId ← checkedUint 64 (lastRoundId + 1) .overflow
  let betEndLedger ← checkedUint 32 (startLedger + betLedgers) .overflow
  let endLedger ← checkedUint 32 (startLedger + runLedgers) .overflow
  let startTimestamp ← ledgerTimestamp
  updateRounds fun rounds =>
    { rounds with
      lastRoundId := some roundId
      activeRound := some
        { roundId := roundId
          priceStart := startPrice
          startLedger := startLedger
          startTimestamp := startTimestamp
          betEndLedger := betEndLedger
          endLedger := endLedger
          poolUp := 0
          poolDown := 0
          mode := roundMode }
      roundStartLedger := rounds.roundStartLedger.set startLedger roundId }

/-- Create the next round from the configured template. -/
def createNextFromTemplate : ContractM A ℕ := do
  let _ ← onControl adminGate
  let roundTemplate ← gets (·.control.settings.roundTemplate)
  let template ← orError roundTemplate .noRoundTemplate
  createRound template.startPrice template.mode
  gets (·.rounds.lastRoundId.getD 0)

/-! ## Staking -/

/-- Debit a stake from the user's balance. -/
def debitStake (user : A) (amount : ℤ) : ContractM A PUnit := do
  let userBalance ← gets (·.vault.balanceOf user)
  let newBalance ← checked (userBalance - amount) .overflow
  setBalance user newBalance

/-- The balance must cover the stake. -/
def enforceBalance (user : A) (amount : ℤ) : ContractM A PUnit := do
  let userBalance ← gets (·.vault.balanceOf user)
  reject (userBalance < amount) .insufficientBalance

/-- Append a user to the participant list of a round. -/
def joinRound (roundId : ℕ) (user : A) : ContractM A PUnit := do
  let participants ← gets (·.rounds.participants roundId)
  let joined ← pushBack participants user
  updateRounds fun rounds =>
    { rounds with roundParticipants := rounds.roundParticipants.set roundId joined }

/-- The round with an amount added to the pool of a side. -/
def Round.addToPool (round : Round) (side : BetSide) (amount : ℤ) : Except Failure Round :=
  match side with
  | .up => do
      let poolUp ← checked (round.poolUp + amount) .overflow
      return { round with poolUp := poolUp }
  | .down => do
      let poolDown ← checked (round.poolDown + amount) .overflow
      return { round with poolDown := poolDown }

/-- Replace the active round. -/
def setActiveRound (round : Round) : ContractM A PUnit :=
  updateRounds fun rounds => { rounds with activeRound := some round }

/-- Place a bet on a side of an UpDown round. -/
def placeBet (user : A) (amount : ℤ) (side : BetSide) : ContractM A PUnit := do
  let _ ← onControl requireSupportedSchema
  requireAuth user
  onControl ensureNormalMode
  onControl (enforceAccessControl user)
  reject (amount ≤ 0) .invalidBetAmount
  enforceMinBet amount
  enforceMaxStake amount
  let round ← readActiveRound .noActiveRound
  enforceUserRoundExposure round.roundId user amount
  reject (round.mode ≠ .upDown) .wrongModeForPrediction
  enforceBettingOpen round
  enforceBalance user amount
  let placed ← gets (·.rounds.position.has (round.roundId, user))
  reject (placed = true) .alreadyBet
  debitStake user amount
  updateRounds fun rounds =>
    { rounds with
      position := rounds.position.set (round.roundId, user) { amount := amount, side := side } }
  joinRound round.roundId user
  let updatedRound ← round.addToPool side amount
  setActiveRound updatedRound

/-- A user may hold one prediction or commitment in a Precision round. -/
def enforceNotPredicted (roundId : ℕ) (user : A) : ContractM A PUnit := do
  let predicted ← gets (·.rounds.precisionPosition.has (roundId, user))
  let committed ← gets (·.rounds.precisionCommitment.has (roundId, user))
  reject (predicted = true ∨ committed = true) .alreadyBet

/-- Place a prediction in a Precision round. -/
def placePrecisionPrediction (user : A) (amount : ℤ) (predictedPrice : ℕ) :
    ContractM A PUnit := do
  let _ ← onControl requireSupportedSchema
  requireAuth user
  onControl ensureNormalMode
  onControl (enforceAccessControl user)
  reject (amount ≤ 0) .invalidBetAmount
  enforceMinBet amount
  enforceMaxStake amount
  reject (predictedPrice > 99999999) .invalidPrice
  let round ← readActiveRound .noActiveRound
  enforceUserRoundExposure round.roundId user amount
  reject (round.mode ≠ .precision) .wrongModeForPrediction
  enforceBettingOpen round
  enforceNotPredicted round.roundId user
  let participants ← gets (·.rounds.participants round.roundId)
  let maxPrecisionParticipants ← gets (·.control.settings.getMaxPrecisionParticipants)
  reject (participants.length ≥ maxPrecisionParticipants) .precisionCapExceeded
  enforceBalance user amount
  debitStake user amount
  updateRounds fun rounds =>
    { rounds with
      precisionPosition := rounds.precisionPosition.set (round.roundId, user)
        { user := user, predictedPrice := predictedPrice, amount := amount } }
  joinRound round.roundId user

def predictPrice (user : A) (guessedPrice : ℕ) (amount : ℤ) : ContractM A PUnit :=
  placePrecisionPrediction user amount guessedPrice

/-- Commit to a hidden prediction in a Precision round. -/
def commitPrediction (user : A) (hash : BytesN 32) (amount : ℤ) : ContractM A PUnit := do
  requireAuth user
  onControl ensureNormalMode
  onControl (enforceAccessControl user)
  reject (isZeroBytes32 hash = true) .invalidCommitment
  reject (amount ≤ 0) .invalidBetAmount
  enforceMinBet amount
  enforceMaxStake amount
  let round ← readActiveRound .noActiveRound
  enforceUserRoundExposure round.roundId user amount
  reject (round.mode ≠ .precision) .wrongModeForPrediction
  enforceBettingOpen round
  enforceBalance user amount
  enforceNotPredicted round.roundId user
  debitStake user amount
  updateRounds fun rounds =>
    { rounds with
      precisionCommitment := rounds.precisionCommitment.set (round.roundId, user)
        { hash := hash, amount := amount, revealed := false } }
  joinRound round.roundId user

/-- Reveal a committed prediction in the run phase of its round. -/
def revealPrediction (user : A) (predictedPrice : ℕ) (salt : BytesN 32) : ContractM A PUnit := do
  requireAuth user
  onControl ensureNormalMode
  onControl (enforceAccessControl user)
  reject (saltHasMinimumEntropy salt = false) .invalidSalt
  let round ← readActiveRound .noActiveRound
  reject (round.mode ≠ .precision) .wrongModeForPrediction
  let currentLedger ← ledgerSequence
  reject (currentLedger < round.betEndLedger ∨ currentLedger ≥ round.endLedger)
    .invalidRevealWindow
  let stored ← gets (·.rounds.precisionCommitment.get (round.roundId, user))
  let commitment ← orError stored .commitmentNotFound
  reject (commitment.revealed = true) .alreadyRevealed
  let host ← asks (·.host)
  let preimage := host.u128Xdr predictedPrice ++ host.bytes32Xdr salt
  reject (host.sha256 preimage ≠ commitment.hash) .hashMismatch
  updateRounds fun rounds =>
    { rounds with
      precisionCommitment := rounds.precisionCommitment.set (round.roundId, user)
        { commitment with revealed := true }
      precisionPosition := rounds.precisionPosition.set (round.roundId, user)
        { user := user, predictedPrice := predictedPrice, amount := commitment.amount } }

/-! ## Early cash-out -/

/-- The round with an amount taken from the pool of a side. -/
def Round.takeFromPool (round : Round) (side : BetSide) (amount : ℤ) : Except Failure Round :=
  match side with
  | .up => do
      let poolUp ← checked (round.poolUp - amount) .overflow
      return { round with poolUp := poolUp }
  | .down => do
      let poolDown ← checked (round.poolDown - amount) .overflow
      return { round with poolDown := poolDown }

/-- Leave an UpDown round in its run phase: a part of the stake is forfeited as a protocol fee,
the rest is credited, and the position leaves the round with its stake. -/
def cashOutEarly (user : A) : ContractM A PUnit := do
  let _ ← onControl requireSupportedSchema
  requireAuth user
  onControl ensureNormalMode
  onControl (enforceAccessControl user)
  let earlyCashoutBps ← gets (·.control.settings.earlyCashoutBps)
  let penaltyBps ← orError earlyCashoutBps .earlyCashoutDisabled
  reject (penaltyBps = 0 ∨ penaltyBps > 10000) .earlyCashoutDisabled
  let round ← readActiveRound .noActiveRound
  reject (round.mode ≠ .upDown) .wrongModeForCashout
  let currentLedger ← ledgerSequence
  reject (currentLedger < round.betEndLedger ∨ currentLedger ≥ round.endLedger)
    .invalidPhaseForCashout
  let stored ← gets (·.rounds.position.get (round.roundId, user))
  let position ← orError stored .positionNotFound
  let stake := position.amount
  reject (stake ≤ 0) .invalidBetAmount
  let product ← checked (stake * penaltyBps) .overflow
  let forfeit ← divide product bpsDenominator
  let cashout ← checked (stake - forfeit) .overflow
  let updatedRound ← round.takeFromPool position.side stake
  setActiveRound updatedRound
  onlyIf (cashout > 0) (accumulatePending user cashout)
  onlyIf (forfeit > 0) (collectProtocolFee forfeit)
  persistUserOutcome round.roundId
    { user := user
      roundMode := 0
      predictionSide := position.side.value
      predictedPrice := 0
      stake := stake
      payout := cashout
      outcome := .refund }
  updateRounds fun rounds =>
    { rounds with
      position := rounds.position.remove (round.roundId, user)
      roundParticipants := rounds.roundParticipants.set round.roundId
        ((rounds.participants round.roundId).filter (· ≠ user)) }

/-! ## Initial mint -/

/-- What a new user is given. -/
def initialAmount : ℤ := 10000000000

/-- The mints of one ledger stay within the configured limit, when it is positive. -/
def enforceMintLimit : ContractM A PUnit := do
  let sequence ← ledgerSequence
  let mintLimitConfig ← gets (·.control.settings.mintLimitConfig)
  onSome mintLimitConfig fun limit => onlyIf (limit > 0) do
    let currentCount ← gets (·.meter.ledgerMintCounter.getD sequence 0)
    reject (currentCount ≥ limit) .mintLimitExceeded
    update fun s =>
      { s with meter :=
        { s.meter with
          ledgerMintCounter := s.meter.ledgerMintCounter.set sequence (currentCount + 1) } }

/-- The mints of one epoch stay within the configured budget, when it is positive. -/
def enforceEpochBudget : ContractM A PUnit := do
  let sequence ← ledgerSequence
  let epochBudget ← gets (·.control.settings.epMintBgt.getD 0)
  onlyIf (epochBudget > 0) do
    let currentEpoch := sequence / epochLedgers
    let storedEpoch ← gets (·.meter.epMintEpc.getD 0)
    let stored ← gets (·.meter.epMintCsm.getD 0)
    let consumed := if storedEpoch = currentEpoch then stored else 0
    let newConsumed ← checked (consumed + initialAmount) .epochBudgetExceeded
    reject (newConsumed > epochBudget) .epochBudgetExceeded
    update fun s =>
      { s with meter :=
        { s.meter with
          epMintCsm := some newConsumed
          epMintEpc := if storedEpoch ≠ currentEpoch then some currentEpoch
            else s.meter.epMintEpc } }

/-- The mint of a user without a balance entry. -/
def mintNew (user : A) : ContractM A ℤ := do
  enforceMintLimit
  enforceEpochBudget
  setBalance user initialAmount
  return initialAmount

/-- Mint 1000 vXLM for a new user; a user with a balance entry keeps it. -/
def mintInitial (user : A) : ContractM A ℤ := do
  requireAuth user
  let _ ← onControl requireSupportedSchema
  onControl ensureNormalMode
  onControl (enforceAccessControl user)
  match ← gets (·.vault.balance.get user) with
  | some existingBalance => return existingBalance
  | none => mintNew user

end DecidableAddress

end XelmaMarket
