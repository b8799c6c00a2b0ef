import XelmaMarket.SettlementMath

/-!
# The replay engine

The offline replay tool recomputes the outcome of a round from its transcript. A transcript names
the terminal action, the prices, the pools, the fee rate and the participants; it has no field for
the fee model or the payout policy, so that every settlement is replayed with a fee on the pot and
equal shares. The transcript's modes, archive statuses and outcomes mirror those of the contract
and are modelled by them.
-/

namespace XelmaMarket

/-! ## Transcripts -/

/-- The terminal settlement path of a transcript. -/
inductive TerminalAction where
  | resolve
  | cancel
  | void
  | fallbackRefund
  deriving DecidableEq

/-- The row of a participant; the side is left out in Precision rows. -/
structure TranscriptParticipant where
  index : ℕ
  amount : ℤ
  sideUp : Option Bool
  revealed : Bool
  predictedPrice : ℕ
  deriving DecidableEq

/-- The transcript of a round, as far as the replay reads it. -/
structure RoundTranscript where
  schemaVersion : ℕ
  roundId : ℕ
  mode : RoundMode
  terminal : TerminalAction
  priceStart : ℕ
  finalPrice : ℕ
  poolUp : ℤ
  poolDown : ℤ
  feeBps : Option ℕ
  minParticipants : Option ℕ
  participantCount : ℕ
  oracleRoundId : ℕ
  participants : List TranscriptParticipant
  deriving DecidableEq

inductive TranscriptError where
  | unsupportedSchema (version : ℕ)
  | emptyParticipants
  | participantOrder (expectedIndex foundIndex : ℕ)
  | participantCountMismatch (declared actual : ℕ)
  deriving DecidableEq

/-- Why a replay fails; the settlement math may also trap. -/
inductive ReplayError where
  | transcript (error : TranscriptError)
  | settlement (failure : Failure)
  | oracleRoundMismatch (transcript oracle : ℕ)
  deriving DecidableEq

/-- The schema version the replay reads. -/
def transcriptSchemaVersion : ℕ := 1

/-- Check the version of a transcript, that it has participants, that their indices count up from
0, and their number. -/
def RoundTranscript.validateSchema (transcript : RoundTranscript) : Except TranscriptError Unit :=
  if transcript.schemaVersion ≠ transcriptSchemaVersion then
    throw (.unsupportedSchema transcript.schemaVersion)
  else if transcript.participants = [] then
    throw .emptyParticipants
  else
    match transcript.participants.zipIdx.find? fun entry => entry.1.index ≠ entry.2 with
    | some entry => throw (.participantOrder entry.2 entry.1.index)
    | none =>
        if transcript.participantCount ≠ transcript.participants.length then
          throw (.participantCountMismatch transcript.participantCount
            (transcript.participants.length % 2 ^ 32))
        else
          return ()

/-! ## Replay -/

structure ReplayPayout where
  index : ℕ
  payout : ℤ
  outcome : UserOutcomeType
  deriving DecidableEq

structure ReplayResult where
  archiveStatus : RoundArchiveStatus
  totalFee : ℤ
  payouts : List ReplayPayout
  deriving DecidableEq

/-- Every stake is paid back, and no fee is taken. -/
def replayFullRefund (transcript : RoundTranscript) (status : RoundArchiveStatus)
    (outcome : UserOutcomeType) : ReplayResult where
  archiveStatus := status
  totalFee := 0
  payouts := transcript.participants.map fun p => ⟨p.index, p.amount, outcome⟩

/-- Settle an UpDown transcript. -/
def replayUpDown (transcript : RoundTranscript) : Except Failure ReplayResult := do
  let positions := transcript.participants.map fun p =>
    (⟨p.index, p.amount, p.sideUp.getD true⟩ : UpDownPosition)
  let entries ← computeUpdownPayouts positions transcript.priceStart transcript.finalPrice
    transcript.poolUp transcript.poolDown transcript.feeBps
  let totalFee :=
    if entries.all (·.isRefund) then 0
    else
      -- a fee that cannot be computed counts as none
      (computeUpdownFee (max transcript.poolUp 0) (max transcript.poolDown 0)
        transcript.feeBps).toOption.elim 0 (·.2.2)
  return ⟨.resolved, totalFee,
    entries.map fun e => ⟨e.index, e.payout, outcomeOf e.isWinner e.isRefund⟩⟩

/-- Settle a Precision transcript. -/
def replayPrecision (transcript : RoundTranscript) : Except Failure ReplayResult := do
  let entries := transcript.participants.map fun p =>
    (⟨p.index, p.predictedPrice, p.amount, p.revealed⟩ : PrecisionEntry)
  -- the sum traps when it overflows
  let totalPot ← entries.foldlM (fun total entry =>
    if i128Min ≤ total + entry.amount ∧ total + entry.amount ≤ i128Max then
      return total + entry.amount
    else
      throw .trap) 0
  let feeAmount := (computePrecisionFee totalPot transcript.feeBps).toOption.elim 0 (·.2)
  let math ← computePrecisionPayouts entries transcript.finalPrice transcript.feeBps
  let totalFee := if math.all (·.isRefund) then 0 else feeAmount
  return ⟨.resolved, totalFee,
    math.map fun e => ⟨e.index, e.payout, outcomeOf e.isWinner e.isRefund⟩⟩

/-- Settle a transcript in its mode. -/
def replayResolve (transcript : RoundTranscript) : Except Failure ReplayResult :=
  match transcript.mode with
  | .upDown => replayUpDown transcript
  | .precision => replayPrecision transcript

/-- Recompute the outcome of a round from its transcript. -/
def replayRound (transcript : RoundTranscript) : Except ReplayError ReplayResult := do
  transcript.validateSchema.mapError .transcript
  if transcript.oracleRoundId ≠ transcript.roundId then
    throw (.oracleRoundMismatch transcript.roundId transcript.oracleRoundId)
  else
    match transcript.terminal with
    | .cancel => return replayFullRefund transcript .cancelled .void
    | .void => return replayFullRefund transcript .voided .void
    | .fallbackRefund => return replayFullRefund transcript .fallbackRefund .refund
    | .resolve =>
        if transcript.minParticipants.any fun min => transcript.participantCount < min then
          return replayFullRefund transcript .fallbackRefund .refund
        else
          (replayResolve transcript).mapError .settlement

end XelmaMarket
