import XelmaMarket.Settlement

/-!
# Oracle resolution

The two entrypoints that settle the active round at an oracle price: a single payload with its
attestation, deviation and confidence checks, and a multi-feed payload with its median, outlier
and quorum checks.
-/

namespace XelmaMarket

open Transaction

variable {A : Type}

/-! ## Recorded prices -/

/-- The recent settlement prices. -/
def Feed.loadTwapSamples (feed : Feed) : List PriceSample :=
  feed.twapSamples.getD []

/-- The mean of the last recorded prices, when enough are recorded. -/
def twapReferencePrice (samples : List PriceSample) (windowSamples : ℕ) :
    Except Failure ℕ := do
  if samples.length < windowSamples then
    throw (.err .windowOutOfRange)
  else
    let window := samples.drop (samples.length - windowSamples)
    let sum ← window.foldlM
      (fun sum sample => checkedUint 128 (sum + sample.price) .overflow) 0
    if window.length = 0 then
      throw (.err .windowOutOfRange)
    else
      return sum / window.length

/-- Append a settled price and evict the oldest beyond the largest window. -/
def recordTwapSample (price timestamp : ℕ) : ContractM A PUnit :=
  update fun s =>
    let samples := s.feed.loadTwapSamples ++ [{ price := price, timestamp := timestamp }]
    { s with feed :=
      { s.feed with twapSamples := some (samples.drop (samples.length - maxTwapWindowSamples)) } }

/-! ## Checks shared by both paths -/

/-- Whether the heartbeat health gate blocks settlement: no heartbeat, an offline oracle, or a
heartbeat older than the threshold and the grace period. -/
def checkHeartbeatHealthBlocked (settings : Settings) (config : HbGateConfig)
    (currentTime : ℕ) : Bool :=
  match settings.oracleHeartbeat with
  | none => true
  | some record =>
      let threshold := settings.oracleStaleThreshold.getD defaultOracleStaleThreshold
      let deadline :=
        saturatingAddUint 64 (saturatingAddUint 64 record.timestamp threshold) config.graceSeconds
      decide (record.status = 2) || decide (currentTime > deadline)

/-- The strict-mode heartbeat gate, which an armed override passes once. -/
def heartbeatGate : ContractM A PUnit := do
  let hbConfig ← onControl loadHbConfig
  let currentTime ← ledgerTimestamp
  let hbBlocked ← gets (checkHeartbeatHealthBlocked ·.control.settings hbConfig currentTime)
  onlyIf (hbConfig.strictMode = true ∧ hbBlocked = true) do
    reject (hbConfig.overrideArmed = false) .oracleNotLive
    let _ ← onControl consumeHbOverride

/-- The payload must be bound to the round's start ledger, the network and the contract. -/
def checkPayloadBinding [DecidableEq A] (round : Round) (payloadRoundId : ℕ)
    (networkId : BytesN 32) (contractAddr : A) : ContractM A PUnit := do
  let host ← asks (·.host)
  reject (payloadRoundId ≠ round.startLedger) .invalidOracleRound
  reject (networkId ≠ host.networkId) .oracleNetworkMismatch
  reject (contractAddr ≠ host.currentContractAddress) .oracleNetworkMismatch

/-- The payload timestamp must not lie in the future and must lie inside the round-relative
economic window. -/
def checkTimestampWindow (round : Round) (timestamp : ℕ) : ContractM A PUnit := do
  let currentTime ← ledgerTimestamp
  reject (timestamp > currentTime) .futureOracleData
  let skew ← gets (·.control.settings.oracleTimestampSkew.getD defaultOracleTimestampSkew)
  reject (round.endLedger < round.startLedger) .overflow
  let duration ← checkedUint 64 ((round.endLedger - round.startLedger) * secondsPerLedger)
    .overflow
  let roundEndEstimate ← checkedUint 64 (round.startTimestamp + duration) .overflow
  let lowerBound := round.startTimestamp - skew
  let upperBound := saturatingAddUint 64 roundEndEstimate skew
  reject (timestamp < lowerBound ∨ timestamp > upperBound) .oracleTimestampOutsideWindow

/-- The deviation of a price from a reference price in basis points. -/
def deviationBps (price reference : ℕ) : Except Failure ℕ := do
  let diff := if price ≥ reference then price - reference else reference - price
  let product ← checkedUint 128 (diff * 10000) .overflow
  checkedUint 32 (product / reference) .overflow

/-- The price must stay within the maximal deviation, which an armed override passes once. -/
def enforceDeviation (maxBps price reference : ℕ) : ContractM A PUnit := do
  reject (reference = 0) .invalidPrice
  let diffBps ← deviationBps price reference
  let overrideArmed ← gets (·.control.settings.oracleDeviationOverrideArmed.getD false)
  reject (diffBps > maxBps ∧ overrideArmed = false) .oracleDeviationExceeded
  onlyIf (diffBps > maxBps ∧ overrideArmed = true)
    (onControl (updateSettings fun settings =>
      { settings with oracleDeviationOverrideArmed := none }))

/-- A nonce settles a round once. -/
def consumeNonce (roundId nonce : ℕ) : ContractM A PUnit := do
  let consumed ← gets (·.feed.consumedOracleNonce.has (roundId, nonce))
  reject (consumed = true) .oracleNonceReused
  update fun s =>
    { s with feed :=
      { s.feed with
        consumedOracleNonce := s.feed.consumedOracleNonce.set (roundId, nonce) true } }

/-- Settlement waits for the round's end ledger. -/
def enforceRoundEnded (round : Round) : ContractM A PUnit := do
  let currentLedger ← ledgerSequence
  reject (currentLedger < round.endLedger) .roundNotEnded

section DecidableAddress

variable [DecidableEq A]

/-- The oracle must have authorised the invocation. -/
def authorizedOracle : ControlM A A := do
  let oracle ← gets (·.governance.oracle)
  let oracle ← orError oracle .oracleNotSet
  requireAuth oracle
  return oracle

/-! ## Single-oracle resolution -/

/-- The domain-separation prefix of oracle attestation messages. -/
def attestationDomainPrefix : Bytes :=
  "XELMA_ORACLE_ATTESTATION_V1".toUTF8.toList

/-- The canonical message an oracle operator signs: the prefix and every field that binds the
payload to a network, contract, round, price, timestamp and nonce. -/
def buildAttestationMessage (host : Host A) (payload : OraclePayload A) : Bytes :=
  attestationDomainPrefix ++ payload.networkId.toList ++ host.addressXdr payload.contractAddr ++
    host.u32Xdr payload.roundId ++ host.u128Xdr payload.price ++
    host.u64Xdr payload.timestamp ++ host.u64Xdr payload.nonce

/-- With an attestation key configured the payload must carry a valid signature; a bad one
traps. -/
def verifyAttestation (payload : OraclePayload A) : ContractM A PUnit := do
  let attestationConfig ← onControl loadAttestationConfig
  let host ← asks (·.host)
  onSome attestationConfig.key fun pubkey => do
    let signature ← orError payload.attestation .windowOutOfRange
    failIf (host.ed25519Verify pubkey (buildAttestationMessage host payload) signature = false)
      .trap

/-- The reference price of the deviation guardrail. -/
def referencePrice (round : Round) (config : DeviationConfig) : ContractM A ℕ := do
  match config.referenceMode with
  | .startPrice => return round.priceStart
  | .twap => do
      let samples ← gets (·.feed.loadTwapSamples)
      twapReferencePrice samples config.windowSamples

/-- The deviation guardrail of a single payload, when configured. -/
def checkDeviation (round : Round) (price : ℕ) : ContractM A PUnit := do
  let oracleMaxDeviationBps ← gets (·.control.settings.oracleMaxDeviationBps)
  onSome oracleMaxDeviationBps fun maxBps => do
    let deviationConfig ← onControl loadDeviationConfig
    let reference ← referencePrice round deviationConfig
    enforceDeviation maxBps price reference

/-- Whether the confidence guardrail rejects a payload. -/
def confidenceRejected (minConfidenceBps : ℕ) (strictMode : Bool) : Option ℕ → Bool
  | none => strictMode
  | some confidenceBps =>
      decide (confidenceBps > 10000) || decide (confidenceBps < minConfidenceBps)

/-- The confidence guardrail, when configured. -/
def checkConfidence (confidence : Option ℕ) : ContractM A PUnit := do
  let oracleMinConfidenceBps ← gets (·.control.settings.oracleMinConfidenceBps)
  let strictMode ← gets (·.control.settings.oracleStrictMode.getD false)
  onSome oracleMinConfidenceBps fun minConfidenceBps =>
    reject (confidenceRejected minConfidenceBps strictMode confidence = true) .invalidPrice

end DecidableAddress

section LinearAddress

variable [LinearOrder A]

/-- Settle the active round at the price of a single payload. -/
def resolveRound (payload : OraclePayload A) : ContractM A PUnit := do
  let _ ← onControl requireSupportedSchema
  reject (payload.price = 0) .invalidPrice
  let _ ← onControl authorizedOracle
  onControl ensureNotPaused
  let hbConfig ← onControl loadHbConfig
  let currentTime ← ledgerTimestamp
  let unhealthy ← gets (checkHeartbeatHealthBlocked ·.control.settings hbConfig currentTime)
  reject (unhealthy = true) .oracleHeartbeatUnhealthy
  let round ← readActiveRound .noActiveRound
  checkPayloadBinding round payload.roundId payload.networkId payload.contractAddr
  verifyAttestation payload
  checkTimestampWindow round payload.timestamp
  checkDeviation round payload.price
  checkConfidence payload.confidence
  consumeNonce round.roundId payload.nonce
  heartbeatGate
  enforceRoundEnded round
  recordTwapSample payload.price payload.timestamp
  settleRoundWithPrice round payload.price payload.confidence

/-! ## Multi-feed resolution -/

/-- Insert a price before the first larger one. -/
def insertPrice (price : ℕ) : List ℕ → List ℕ
  | [] => [price]
  | other :: rest => if price < other then price :: other :: rest else other :: insertPrice price rest

/-- Sort the prices by insertion. -/
def sortPrices (prices : List ℕ) : List ℕ :=
  prices.foldl (fun sorted price => insertPrice price sorted) []

/-- The median of the prices; the mean of the two middle ones for an even number. -/
def medianPrice (prices : List ℕ) : Except Failure ℕ :=
  let sorted := sortPrices prices
  let n := prices.length
  if n % 2 = 1 then
    match sorted[n / 2]? with
    | some middle => return middle
    | none => throw (.err .overflow)
  else
    match sorted[n / 2 - 1]?, sorted[n / 2]? with
    | some mid1, some mid2 => do
        let sum ← checkedUint 128 (mid1 + mid2) .overflow
        return sum / 2
    | _, _ => throw (.err .overflow)

/-- The number of prices within the outlier threshold of the median. -/
def countSurvivors (prices : List ℕ) (median outlierThresholdBps : ℕ) : Except Failure ℕ :=
  prices.foldlM (fun survivors price => do
    let diffBps ← deviationBps price median
    if diffBps ≤ outlierThresholdBps then
      checkedUint 32 (survivors + 1) .overflow
    else
      return survivors) 0

/-- Settle the active round at the median of a multi-feed payload. -/
def resolveRoundMulti (payload : MultiFeedPayload A) : ContractM A PUnit := do
  let _ ← onControl requireSupportedSchema
  reject (payload.prices = [] ∨ payload.sources = []) .tooFewObservations
  reject (payload.prices.length ≠ payload.sources.length) .tooFewObservations
  reject (0 ∈ payload.prices) .invalidPrice
  let _ ← onControl authorizedOracle
  onControl ensureNotPaused
  let oracleQuorum ← gets (·.control.settings.oracleQuorum)
  let quorumConfig ← orError oracleQuorum .oracleNotSet
  let round ← readActiveRound .noActiveRound
  checkPayloadBinding round payload.roundId payload.networkId payload.contractAddr
  checkTimestampWindow round payload.timestamp
  heartbeatGate
  consumeNonce round.roundId payload.nonce
  enforceRoundEnded round
  reject (payload.prices.length < quorumConfig.minObservations) .tooFewObservations
  reject (payload.prices.length > maxOracleObservations) .tooFewObservations
  reject (¬ payload.sources.Nodup) .duplicateOracleSource
  let median ← medianPrice payload.prices
  reject (median = 0) .invalidPrice
  let oracleMaxDeviationBps ← gets (·.control.settings.oracleMaxDeviationBps)
  onSome oracleMaxDeviationBps fun maxBps => enforceDeviation maxBps median round.priceStart
  let survivors ← countSurvivors payload.prices median quorumConfig.outlierThresholdBps
  reject (survivors < quorumConfig.quorumThreshold) .insufficientOracleQuorum
  recordTwapSample median payload.timestamp
  settleRoundWithPrice round median none

end LinearAddress

end XelmaMarket
