import XelmaMarket.Ending

/-!
# What a successful call does

One inductive says what a successful call does to the accounts, the rounds and the recorded
outcomes, together with the guards that let it through. Every invariant of the contract is proved
from it, so no later proof unfolds an entrypoint.
-/

namespace XelmaMarket

open Transaction

variable {A : Type} [DecidableEq A]

/-! ## Changes of the accounts and the rounds -/

/-- The vault after a stake or another amount is taken from a balance. -/
def Vault.debit (vault : Vault A) (user : A) (amount : ℤ) : Vault A :=
  { vault with balance := vault.balance.set user (vault.balanceOf user - amount) }

/-- The vault after an amount is added to a balance. -/
def Vault.deposit (vault : Vault A) (user : A) (amount : ℤ) : Vault A :=
  { vault with balance := vault.balance.set user (vault.balanceOf user + amount) }

/-- The vault without a user's pending winnings. -/
def Vault.clearPending (vault : Vault A) (user : A) : Vault A :=
  { vault with
    pendingWinnings := vault.pendingWinnings.remove user
    pendingWinningsUpdatedAt := vault.pendingWinningsUpdatedAt.remove user }

/-- The round with an amount added to the pool of a side. -/
def Round.withPool (round : Round) (side : BetSide) (amount : ℤ) : Round :=
  match side with
  | .up => { round with poolUp := round.poolUp + amount }
  | .down => { round with poolDown := round.poolDown + amount }

/-- The rounds after a user joined one. -/
def Rounds.join (rounds : Rounds A) (roundId : ℕ) (user : A) : Rounds A :=
  { rounds with
    roundParticipants :=
      rounds.roundParticipants.set roundId (rounds.participants roundId ++ [user]) }

/-- The rounds after a bet. -/
def Rounds.bet (rounds : Rounds A) (round : Round) (user : A) (amount : ℤ) (side : BetSide) :
    Rounds A :=
  { rounds.join round.roundId user with
    position := rounds.position.set (round.roundId, user) { amount := amount, side := side }
    activeRound := some (round.withPool side amount) }

/-- The rounds after a prediction. -/
def Rounds.predict (rounds : Rounds A) (round : Round) (user : A) (amount : ℤ)
    (predictedPrice : ℕ) : Rounds A :=
  { rounds.join round.roundId user with
    precisionPosition := rounds.precisionPosition.set (round.roundId, user)
      { user := user, predictedPrice := predictedPrice, amount := amount } }

/-- The rounds after a commitment. -/
def Rounds.commit (rounds : Rounds A) (round : Round) (user : A) (amount : ℤ)
    (hash : BytesN 32) : Rounds A :=
  { rounds.join round.roundId user with
    precisionCommitment := rounds.precisionCommitment.set (round.roundId, user)
      { hash := hash, amount := amount, revealed := false } }

/-- The rounds after a reveal. -/
def Rounds.reveal (rounds : Rounds A) (round : Round) (user : A)
    (commitment : PrecisionCommitment) (predictedPrice : ℕ) : Rounds A :=
  { rounds with
    precisionCommitment := rounds.precisionCommitment.set (round.roundId, user)
      { commitment with revealed := true }
    precisionPosition := rounds.precisionPosition.set (round.roundId, user)
      { user := user, predictedPrice := predictedPrice, amount := commitment.amount } }

/-- The rounds after an early cash-out. -/
def Rounds.leave (rounds : Rounds A) (round : Round) (user : A) (position : UserPosition) :
    Rounds A :=
  { rounds with
    activeRound := some (round.withPool position.side (-position.amount))
    position := rounds.position.remove (round.roundId, user)
    roundParticipants := rounds.roundParticipants.set round.roundId
      ((rounds.participants round.roundId).filter (· ≠ user)) }

omit [DecidableEq A] in
/-- The rounds after a round is opened. -/
def Rounds.openRound (rounds : Rounds A) (round : Round) : Rounds A :=
  { rounds with
    lastRoundId := some round.roundId
    activeRound := some round
    roundStartLedger := rounds.roundStartLedger.set round.startLedger round.roundId }

omit [DecidableEq A] in
/-- The rounds after the active round is staged into its dispute window. -/
def Rounds.stage (rounds : Rounds A) (pending : PendingDisputeSettlement) : Rounds A :=
  { rounds with
    pendingDisputes := rounds.pendingDisputes.set pending.round.roundId pending
    activeRound := none }

/-- What an early cash-out forfeits. -/
def forfeitOf (stake : ℤ) (penaltyBps : ℕ) : ℤ :=
  stake * penaltyBps / bpsDenominator

/-- The record of an early cash-out. -/
def cashOutRecord (user : A) (position : UserPosition) (forfeit : ℤ) : UserRoundOutcome A :=
  upDownOutcome user position (position.amount - forfeit) .refund

/-- The windows a round is opened for: from its start, betting for the bet window and running for
the run window. -/
def OpensFor (settings : Settings) (round : Round) : Prop :=
  round.betEndLedger =
      round.startLedger + settings.betWindowLedgers.getD defaultBetWindowLedgers ∧
    round.endLedger =
      round.startLedger + settings.runWindowLedgers.getD defaultRunWindowLedgers

/-- A round runs from its bet end ledger up to its end ledger. -/
def Round.Running (round : Round) (ledger : ℕ) : Prop :=
  round.betEndLedger ≤ ledger ∧ ledger < round.endLedger

/-- A way to stake an amount in a round, with its guards and what it does to the rounds. -/
inductive Placement (rounds : Rounds A) (round : Round) (user : A) (amount : ℤ) :
    Call A → Rounds A → Prop where
  | bet (side : BetSide) (hmode : round.mode = .upDown)
      (hnew : rounds.position.get (round.roundId, user) = none) :
      Placement rounds round user amount (.placeBet user amount side)
        (rounds.bet round user amount side)
  | predict (call : Call A) (predictedPrice : ℕ)
      (hcall : call = .placePrecisionPrediction user amount predictedPrice ∨
        call = .predictPrice user predictedPrice amount)
      (hmode : round.mode = .precision)
      (hnew : rounds.precisionPosition.get (round.roundId, user) = none ∧
        rounds.precisionCommitment.get (round.roundId, user) = none) :
      Placement rounds round user amount call (rounds.predict round user amount predictedPrice)
  | commit (hash : BytesN 32) (hmode : round.mode = .precision)
      (hnew : rounds.precisionPosition.get (round.roundId, user) = none ∧
        rounds.precisionCommitment.get (round.roundId, user) = none) :
      Placement rounds round user amount (.commitPrediction user hash amount)
        (rounds.commit round user amount hash)

/-- The accounts, the rounds and the outcomes are as they were. -/
structure SameMarket (s s' : Storage A) : Prop where
  vault : s'.vault = s.vault
  rounds : s'.rounds = s.rounds
  outcomes : s'.userRoundOutcome = s.userRoundOutcome

/-- The rounds, the outcomes and the statistics are as they were. -/
structure SameRounds (s s' : Storage A) : Prop where
  rounds : s'.rounds = s.rounds
  outcomes : s'.userRoundOutcome = s.userRoundOutcome
  stats : s'.stats = s.stats

end XelmaMarket

namespace XelmaMarket

variable {A : Type} [LinearOrder A]

/-- What a successful call does. -/
inductive Effect (env : Env A) (s : Storage A) : Call A → Storage A → Prop where
  | quiet (call : Call A) (s' : Storage A) (hsame : SameMarket s s')
      (hmint : ∀ user, call = .mintInitial user →
        ∃ balance, s.vault.balance.get user = some balance)
      (hending : call.ending s = none) (hstays : ∀ user, call ≠ .cashOutEarly user)
      (hstats : call ≠ .resetLeaderboardSeason → s'.stats = s.stats) : Effect env s call s'
  | mint (user : A) (s' : Storage A) (hnew : s.vault.balance.get user = none)
      (hsigner : user ∈ env.signers)
      (hvault : s'.vault = s.vault.deposit user initialAmount) (hsame : SameRounds s s') :
      Effect env s (.mintInitial user) s'
  | treasuryAddress (executor treasury : A) (proposalId : ℕ) (proposal : GovProposal A)
      (s' : Storage A)
      (hproposal : s.control.governance.govProposal.get proposalId = some proposal)
      (haction : proposal.action = .setTreasuryAddress treasury)
      (hvault : s'.vault = { s.vault with protocolFeeTreasury := some (.address treasury) })
      (hsame : SameRounds s s') : Effect env s (.executeGovProposal executor proposalId) s'
  | payFee (call : Call A) (recipient : A) (amount : ℤ) (s' : Storage A)
      (hcall : call = .withdrawProtocolFee recipient amount ∨
        ∃ executor proposalId, call = .executeGovProposal executor proposalId)
      (hamount : 0 < amount ∧ amount ≤ s.vault.treasury)
      (hvault : s'.vault = { s.vault.deposit recipient amount with
        protocolFeeTreasury := some (.amount (s.vault.treasury - amount)) })
      (hsame : SameRounds s s') : Effect env s call s'
  | payFund (call : Call A) (recipient : A) (amount : ℤ) (s' : Storage A)
      (hcall : call = .withdrawInsuranceFund recipient amount ∨
        ∃ executor proposalId, call = .executeGovProposal executor proposalId)
      (hamount : 0 < amount ∧ amount ≤ s.vault.insuranceFund)
      (hvault : s'.vault = { s.vault.deposit recipient amount with
        insFundBal := some (s.vault.insuranceFund - amount) })
      (hsame : SameRounds s s') : Effect env s call s'
  | topUp (admin : A) (amount : ℤ) (s' : Storage A)
      (hadmin : s.control.governance.admin = some admin) (hsigner : admin ∈ env.signers)
      (hamount : 0 < amount ∧ amount ≤ s.vault.balanceOf admin)
      (hvault : s'.vault = { s.vault.debit admin amount with
        insFundBal := some (s.vault.insuranceFund + amount) })
      (hsame : SameRounds s s') : Effect env s (.topUpInsuranceFund amount) s'
  | reclaim (user admin : A) (expiry updatedAt : ℕ) (s' : Storage A)
      (hadmin : s.control.governance.admin = some admin) (hsigner : admin ∈ env.signers)
      (hexpiry : s.control.settings.pendingWinningsExpiry = some expiry ∧ expiry ≠ 0)
      (hupdated : s.vault.pendingWinningsUpdatedAt.get user = some updatedAt)
      (hexpired : updatedAt + expiry ≤ env.ledger.sequence)
      (hvault : s'.vault =
        (s.vault.clearPending user).deposit admin (s.vault.pendingOf user))
      (hsame : SameRounds s s') : Effect env s (.reclaimExpiredPendingWinnings user) s'
  | claim (call : Call A) (users : List A) (s' : Storage A)
      (hcall : (∃ user, call = .claimWinnings user ∧ users = [user]) ∨ call = .claimMany users)
      (hsigners : ∀ user ∈ users, user ∈ env.signers)
      (hvault : s'.vault = users.foldl Vault.claim s.vault) (hsame : SameRounds s s') :
      Effect env s call s'
  | openRound (call : Call A) (round : Round) (s' : Storage A)
      (hcall : (∃ startPrice mode, call = .createRound startPrice mode) ∨
        call = .createNextFromTemplate)
      (hactive : s.rounds.activeRound = none)
      (hid : round.roundId = s.rounds.lastRoundId.getD 0 + 1)
      (hpools : round.poolUp = 0 ∧ round.poolDown = 0)
      (hstart : round.startLedger = env.ledger.sequence ∧
        s.rounds.roundStartLedger.get round.startLedger = none)
      (hvault : s'.vault = s.vault) (hrounds : s'.rounds = s.rounds.openRound round)
      (houtcomes : s'.userRoundOutcome = s.userRoundOutcome)
      (hwindows : OpensFor s.control.settings round) (hstats : s'.stats = s.stats) :
      Effect env s call s'
  | stake (call : Call A) (round : Round) (user : A) (amount : ℤ) (s' : Storage A)
      (hround : s.rounds.activeRound = some round) (hsigner : user ∈ env.signers)
      (hopen : env.ledger.sequence < round.betEndLedger)
      (hamount : 0 < amount ∧ amount ≤ s.vault.balanceOf user)
      (hroom : (s.rounds.participants round.roundId).length < maxVecLength)
      (hplaced : Placement s.rounds round user amount call s'.rounds)
      (hvault : s'.vault = s.vault.debit user amount)
      (houtcomes : s'.userRoundOutcome = s.userRoundOutcome)
      (hbuffer : 0 < s.control.settings.closeBufferLedgers.getD 0 →
        env.ledger.sequence <
          round.betEndLedger - s.control.settings.closeBufferLedgers.getD 0)
      (hstats : s'.stats = s.stats) : Effect env s call s'
  | reveal (round : Round) (user : A) (predictedPrice : ℕ) (salt : BytesN 32)
      (commitment : PrecisionCommitment) (s' : Storage A)
      (hround : s.rounds.activeRound = some round) (hmode : round.mode = .precision)
      (hcommitment :
        s.rounds.precisionCommitment.get (round.roundId, user) = some commitment)
      (hhidden : commitment.revealed = false)
      (hvault : s'.vault = s.vault)
      (hrounds : s'.rounds = s.rounds.reveal round user commitment predictedPrice)
      (houtcomes : s'.userRoundOutcome = s.userRoundOutcome)
      (hrunning : round.Running env.ledger.sequence) (hstats : s'.stats = s.stats) :
      Effect env s (.revealPrediction user predictedPrice salt) s'
  | cashOut (round : Round) (user : A) (position : UserPosition) (penaltyBps : ℕ)
      (s' : Storage A)
      (hround : s.rounds.activeRound = some round) (hmode : round.mode = .upDown)
      (hclosed : round.betEndLedger ≤ env.ledger.sequence)
      (hposition : s.rounds.position.get (round.roundId, user) = some position)
      (hpenalty : penaltyBps ≤ 10000) (hstake : 0 < position.amount)
      (hvault : s'.vault =
        (s.vault.creditAll env.ledger.sequence
          ([(user, position.amount - forfeitOf position.amount penaltyBps)].filter
            fun credit => 0 < credit.2)).collectFee
          s.control.settings.insuranceSplitBps (forfeitOf position.amount penaltyBps))
      (hrounds : s'.rounds = s.rounds.leave round user position)
      (houtcomes : s'.userRoundOutcome = recordAll s.userRoundOutcome round.roundId
        [cashOutRecord user position (forfeitOf position.amount penaltyBps)])
      (hrunning : round.Running env.ledger.sequence) (hstats : s'.stats = s.stats) :
      Effect env s (.cashOutEarly user) s'
  | stage (call : Call A) (round : Round) (pending : PendingDisputeSettlement) (s' : Storage A)
      (hprice : call.price = some pending.finalPrice)
      (hround : s.rounds.activeRound = some round) (hpending : pending.round = round)
      (hdeadline : pending.deadlineLedger =
        env.ledger.sequence + s.control.settings.getDisputeLedgers)
      (hending : call.ending s = none)
      (hvault : s'.vault = s.vault) (hrounds : s'.rounds = s.rounds.stage pending)
      (houtcomes : s'.userRoundOutcome = s.userRoundOutcome)
      (hended : round.endLedger ≤ env.ledger.sequence) (hstats : s'.stats = s.stats) :
      Effect env s call s'
  | ending (call : Call A) (ending : Ending) (s' : Storage A)
      (hending : call.ending s = some ending)
      (hends : Ends env.ledger.sequence ending s s')
      (hended : call.price ≠ none → ending.round.endLedger ≤ env.ledger.sequence) :
      Effect env s call s'

end XelmaMarket
