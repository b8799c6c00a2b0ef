import XelmaMarket.Lib.Store
import XelmaMarket.Lib.Transaction
import XelmaMarket.Types

/-!
# Contract storage and host environment

The storage of the contract, one field for each storage key, grouped by the part of the contract
that owns the keys: an entrypoint that only reconfigures the contract runs on `Control` alone, so
its type already says that it moves no value. `Env` is what the host supplies to an invocation:
the ledger, the addresses that authorised it, and the functions of the platform that the contract
calls, which are parameters. Time-to-live extensions have no effect on the values stored and are
left out.
-/

namespace XelmaMarket

/-! ## Host environment -/

/-- What the platform provides: the identity of the network and of the contract, hashing, signature
verification, the XDR encodings the contract hashes or signs, and the encoding of the three
unit-variant configuration keys. -/
structure Host (A : Type) where
  networkId : BytesN 32
  currentContractAddress : A
  sha256 : Bytes → BytesN 32
  ed25519Verify : BytesN 32 → Bytes → BytesN 64 → Bool
  addressXdr : A → Bytes
  u32Xdr : ℕ → Bytes
  u64Xdr : ℕ → Bytes
  u128Xdr : ℕ → Bytes
  bytes32Xdr : BytesN 32 → Bytes
  encodeConfigKey : ConfigKey → String

/-- A ledger: its sequence number is a `u32` and its close time a `u64`. -/
structure Ledger where
  sequence : ℕ
  timestamp : ℕ
  sequence_lt : sequence < 2 ^ 32
  timestamp_lt : timestamp < 2 ^ 64
  deriving DecidableEq

/-- The environment of one invocation: the host, the current ledger and the addresses that
authorised the invocation. -/
structure Env (A : Type) where
  host : Host A
  ledger : Ledger
  signers : List A

/-! ## Storage -/

/-- Roles, proposals and lists of the governance. -/
structure Governance (A : Type) where
  admin : Option A
  oracle : Option A
  oracleRotationProposal : Option (OracleRotationProposal A)
  govApprover : Option A
  govProposalTtlLedgers : Option ℕ
  nextGovProposalId : Option ℕ
  govProposal : Store ℕ (GovProposal A)
  constitutionMetadata : Option ConstitutionMetadata
  nextAmendmentId : Option ℕ
  amendment : Store ℕ (Amendment A)
  accessControlEnabled : Option Bool
  allowlisted : Store A Bool
  denylisted : Store A Bool

/-- Settings and oracle state. An absent key has its default where it is read. -/
structure Settings where
  schemaVersion : Option ℕ
  migratedToV3 : Option Bool
  nextSchemaVersion : Option ℕ
  paused : Option RuntimeMode
  betWindowLedgers : Option ℕ
  runWindowLedgers : Option ℕ
  closeBufferLedgers : Option ℕ
  maxStake : Option ℤ
  maxUserRoundExposure : Option ℤ
  maxPendingWinnings : Option ℤ
  minParticipants : Option ℕ
  maxPrecisionParticipants : Option ℕ
  minBet : Option ℤ
  protocolFeeBps : Option ℕ
  feeModel : Option FeeModel
  precisionPayoutPolicy : Option ℕ
  earlyCashoutBps : Option ℕ
  disputeLedgers : Option ℕ
  pendingWinningsExpiry : Option ℕ
  archiveRetention : Option ℕ
  mintLimitConfig : Option ℕ
  epMintBgt : Option ℤ
  roundTemplate : Option RoundTemplate
  pendingConfigChange : Store ConfigChangeKind PendingConfigChange
  insSplitBps : Option ℕ
  insCovBps : Option ℕ
  insEligEvt : Option (List ℕ)
  oracleHeartbeat : Option OracleHeartbeatRecord
  oracleStaleThreshold : Option ℕ
  oracleTimestampSkew : Option ℕ
  oracleMaxDeviationBps : Option ℕ
  oracleDeviationOverrideArmed : Option Bool
  oracleMinConfidenceBps : Option ℕ
  oracleStrictMode : Option Bool
  oracleQuorum : Option OracleQuorumConfig
  config : Store String ConfigEntry

/-- Everything the administration of the contract writes. -/
structure Control (A : Type) where
  governance : Governance A
  settings : Settings

/-- What the treasury key holds: the accumulated fees, or the address a governance proposal wrote
there. -/
inductive TreasuryEntry (A : Type) where
  | amount (value : ℤ)
  | address (treasury : A)
  deriving DecidableEq, Repr

/-- The accounts that hold value outside a round. -/
structure Vault (A : Type) where
  balance : Store A ℤ
  pendingWinnings : Store A ℤ
  pendingWinningsUpdatedAt : Store A ℕ
  protocolFeeTreasury : Option (TreasuryEntry A)
  insFundBal : Option ℤ

/-- Rounds, their participants and the stakes in escrow. -/
structure Rounds (A : Type) where
  activeRound : Option Round
  lastRoundId : Option ℕ
  roundStartLedger : Store ℕ ℕ
  roundParticipants : Store ℕ (List A)
  position : Store (ℕ × A) UserPosition
  precisionPosition : Store (ℕ × A) (PrecisionPrediction A)
  precisionCommitment : Store (ℕ × A) PrecisionCommitment
  pendingDisputes : Store ℕ PendingDisputeSettlement

/-- Summaries of ended rounds. -/
structure Archive (A : Type) where
  archivedRound : Store ℕ ArchivedRoundSummary
  recentArchivedRoundIds : Option (List ℕ)
  cancelledRound : Store ℕ Bool
  userArchivedRoundIds : Store A (List ℕ)

/-- User statistics and leaderboard indexes. -/
structure Stats (A : Type) where
  userStats : Store A UserStats
  leaderboardWins : Option (List A)
  leaderboardStreak : Option (List A)
  seasonId : Option ℕ
  seasonUserStats : Store (ℕ × A) UserStats
  seasonLeaderboardWins : Option (List A)
  seasonLeaderboardStreak : Option (List A)
  seasonArchive : Store ℕ (SeasonArchive A)

/-- Consumed oracle nonces and recorded prices. -/
structure Feed where
  consumedOracleNonce : Store (ℕ × ℕ) Bool
  twapSamples : Option (List PriceSample)

/-- The mint counters, which live in temporary storage. -/
structure Meter where
  ledgerMintCounter : Store ℕ ℕ
  epMintCsm : Option ℤ
  epMintEpc : Option ℕ

/-- The storage of the contract, and the round summaries it has published. -/
structure Storage (A : Type) where
  control : Control A
  vault : Vault A
  rounds : Rounds A
  userRoundOutcome : Store (ℕ × A) (UserRoundOutcome A)
  archive : Archive A
  stats : Stats A
  feed : Feed
  meter : Meter
  events : List RoundSummaryEvent

/-- The storage of a contract that was deployed and not yet initialised. -/
def Storage.empty {A : Type} : Storage A where
  control :=
    { governance :=
        { admin := none, oracle := none, oracleRotationProposal := none, govApprover := none
          govProposalTtlLedgers := none, nextGovProposalId := none, govProposal := .empty
          constitutionMetadata := none, nextAmendmentId := none, amendment := .empty
          accessControlEnabled := none, allowlisted := .empty, denylisted := .empty }
      settings :=
        { schemaVersion := none, migratedToV3 := none, nextSchemaVersion := none
          paused := none, betWindowLedgers := none, runWindowLedgers := none
          closeBufferLedgers := none, maxStake := none, maxUserRoundExposure := none
          maxPendingWinnings := none, minParticipants := none
          maxPrecisionParticipants := none, minBet := none, protocolFeeBps := none
          feeModel := none, precisionPayoutPolicy := none, earlyCashoutBps := none
          disputeLedgers := none, pendingWinningsExpiry := none, archiveRetention := none
          mintLimitConfig := none, epMintBgt := none, roundTemplate := none
          pendingConfigChange := .empty, insSplitBps := none, insCovBps := none
          insEligEvt := none, oracleHeartbeat := none, oracleStaleThreshold := none
          oracleTimestampSkew := none, oracleMaxDeviationBps := none
          oracleDeviationOverrideArmed := none, oracleMinConfidenceBps := none
          oracleStrictMode := none, oracleQuorum := none, config := .empty } }
  vault :=
    { balance := .empty, pendingWinnings := .empty, pendingWinningsUpdatedAt := .empty
      protocolFeeTreasury := none, insFundBal := none }
  rounds :=
    { activeRound := none, lastRoundId := none, roundStartLedger := .empty
      roundParticipants := .empty, position := .empty, precisionPosition := .empty
      precisionCommitment := .empty, pendingDisputes := .empty }
  userRoundOutcome := .empty
  archive :=
    { archivedRound := .empty, recentArchivedRoundIds := none, cancelledRound := .empty
      userArchivedRoundIds := .empty }
  stats :=
    { userStats := .empty, leaderboardWins := none, leaderboardStreak := none, seasonId := none
      seasonUserStats := .empty, seasonLeaderboardWins := none, seasonLeaderboardStreak := none
      seasonArchive := .empty }
  feed := { consumedOracleNonce := .empty, twapSamples := none }
  meter := { ledgerMintCounter := .empty, epMintCsm := none, epMintEpc := none }
  events := []

/-! ## Transactions of the contract -/

/-- An entrypoint or helper over the whole storage. -/
abbrev ContractM (A : Type) := Transaction (Env A) (Storage A) Failure

/-- An entrypoint or helper that touches the administration only. -/
abbrev ControlM (A : Type) := Transaction (Env A) (Control A) Failure

/-- A helper that touches the statistics only. -/
abbrev StatsM (A : Type) := Transaction (Env A) (Stats A) Failure

open Transaction

section Combinators

variable {A α σ : Type}

/-- Return an error when the condition holds. -/
def reject (condition : Prop) [Decidable condition] (error : ContractError) :
    Transaction (Env A) σ Failure PUnit :=
  failIf condition (.err error)

/-- The value of an option, or an error. -/
def orError (value : Option α) (error : ContractError) : Transaction (Env A) σ Failure α :=
  orFail value (.err error)

/-- The value of an option, or a trap of the host. -/
def orTrap (value : Option α) : Transaction (Env A) σ Failure α :=
  orFail value .trap

/-- `address.require_auth()`: the invocation must carry the address's authorisation. -/
def requireAuth [DecidableEq A] (address : A) : Transaction (Env A) σ Failure PUnit :=
  fun env s => failIf (address ∉ env.signers) .trap env s

/-- `env.ledger().sequence()`. -/
def ledgerSequence : Transaction (Env A) σ Failure ℕ :=
  asks (·.ledger.sequence)

/-- `env.ledger().timestamp()`. -/
def ledgerTimestamp : Transaction (Env A) σ Failure ℕ :=
  asks (·.ledger.timestamp)

/-- Run an administrative transaction on the administrative part of the storage. -/
def onControl (m : ControlM A α) : ContractM A α :=
  zoom ⟨(·.control), fun control s => { s with control }⟩ m

/-- Run a transaction on the statistics. -/
def onStats (m : StatsM A α) : ContractM A α :=
  zoom ⟨(·.stats), fun stats s => { s with stats }⟩ m

/-- Update the settings. -/
def updateSettings (f : Settings → Settings) : ControlM A PUnit :=
  update fun control => { control with settings := f control.settings }

/-- Update the roles, proposals and lists. -/
def updateGovernance (f : Governance A → Governance A) : ControlM A PUnit :=
  update fun control => { control with governance := f control.governance }

/-- Update the vault. -/
def updateVault (f : Vault A → Vault A) : ContractM A PUnit :=
  update fun s => { s with vault := f s.vault }

/-- Update the rounds. -/
def updateRounds (f : Rounds A → Rounds A) : ContractM A PUnit :=
  update fun s => { s with rounds := f s.rounds }

variable {env : Env A} {s : σ}

@[simp] theorem ensures_reject (condition : Prop) [Decidable condition] (error : ContractError)
    (post : PUnit → σ → Prop) :
    Ensures (reject condition error) env s post ↔ (¬ condition → post ⟨⟩ s) :=
  ensures_failIf condition _ post

@[simp] theorem ensures_orError (value : Option α) (error : ContractError)
    (post : α → σ → Prop) :
    Ensures (orError value error) env s post ↔ ∀ a, value = some a → post a s :=
  ensures_orFail value _

@[simp] theorem ensures_orTrap (value : Option α) (post : α → σ → Prop) :
    Ensures (orTrap value) env s post ↔ ∀ a, value = some a → post a s :=
  ensures_orFail value _

@[simp] theorem ensures_requireAuth [DecidableEq A] (address : A) (post : PUnit → σ → Prop) :
    Ensures (requireAuth address) env s post ↔ (address ∈ env.signers → post ⟨⟩ s) := by
  have h := (@ensures_failIf _ _ _ env s) (address ∉ env.signers) Failure.trap post
  simpa [requireAuth, Ensures] using h

@[simp] theorem ensures_ledgerSequence (post : ℕ → σ → Prop) :
    Ensures ledgerSequence env s post ↔ post env.ledger.sequence s :=
  ensures_asks _

@[simp] theorem ensures_ledgerTimestamp (post : ℕ → σ → Prop) :
    Ensures ledgerTimestamp env s post ↔ post env.ledger.timestamp s :=
  ensures_asks _

@[simp] theorem ensures_onControl (m : ControlM A α) (s : Storage A)
    (post : α → Storage A → Prop) :
    Ensures (onControl m) env s post ↔
      Ensures m env s.control fun value control => post value { s with control } :=
  ensures_zoom _ m

@[simp] theorem ensures_onStats (m : StatsM A α) (s : Storage A) (post : α → Storage A → Prop) :
    Ensures (onStats m) env s post ↔
      Ensures m env s.stats fun value stats => post value { s with stats } :=
  ensures_zoom _ m

@[simp] theorem ensures_updateSettings (f : Settings → Settings) (c : Control A)
    (post : PUnit → Control A → Prop) :
    Ensures (updateSettings f) env c post ↔ post ⟨⟩ { c with settings := f c.settings } :=
  ensures_update _ post

@[simp] theorem ensures_updateGovernance (f : Governance A → Governance A) (c : Control A)
    (post : PUnit → Control A → Prop) :
    Ensures (updateGovernance f) env c post ↔ post ⟨⟩ { c with governance := f c.governance } :=
  ensures_update _ post

@[simp] theorem ensures_updateVault (f : Vault A → Vault A) (s : Storage A)
    (post : PUnit → Storage A → Prop) :
    Ensures (updateVault f) env s post ↔ post ⟨⟩ { s with vault := f s.vault } :=
  ensures_update _ post

@[simp] theorem ensures_updateRounds (f : Rounds A → Rounds A) (s : Storage A)
    (post : PUnit → Storage A → Prop) :
    Ensures (updateRounds f) env s post ↔ post ⟨⟩ { s with rounds := f s.rounds } :=
  ensures_update _ post

@[simp] theorem returns_reject (condition : Prop) [Decidable condition] (error : ContractError)
    (post : PUnit → σ → Prop) :
    Returns (reject condition error) env s post ↔ ¬ condition ∧ post ⟨⟩ s :=
  returns_failIf condition _ post

@[simp] theorem returns_orError (value : Option α) (error : ContractError)
    (post : α → σ → Prop) :
    Returns (orError value error) env s post ↔ ∃ a, value = some a ∧ post a s :=
  returns_orFail value _

@[simp] theorem returns_requireAuth [DecidableEq A] (address : A) (post : PUnit → σ → Prop) :
    Returns (requireAuth address) env s post ↔ address ∈ env.signers ∧ post ⟨⟩ s := by
  have h := (@returns_failIf _ _ _ env s) (address ∉ env.signers) Failure.trap post
  simpa [requireAuth, Returns] using h

@[simp] theorem returns_ledgerSequence (post : ℕ → σ → Prop) :
    Returns ledgerSequence env s post ↔ post env.ledger.sequence s :=
  returns_asks _

@[simp] theorem returns_onControl (m : ControlM A α) (s : Storage A)
    (post : α → Storage A → Prop) :
    Returns (onControl m) env s post ↔
      Returns m env s.control fun value control => post value { s with control } :=
  returns_zoom _ m

@[simp] theorem returns_onStats (m : StatsM A α) (s : Storage A) (post : α → Storage A → Prop) :
    Returns (onStats m) env s post ↔
      Returns m env s.stats fun value stats => post value { s with stats } :=
  returns_zoom _ m

@[simp] theorem returns_updateVault (f : Vault A → Vault A) (s : Storage A)
    (post : PUnit → Storage A → Prop) :
    Returns (updateVault f) env s post ↔ post ⟨⟩ { s with vault := f s.vault } :=
  returns_update _ post

@[simp] theorem returns_updateRounds (f : Rounds A → Rounds A) (s : Storage A)
    (post : PUnit → Storage A → Prop) :
    Returns (updateRounds f) env s post ↔ post ⟨⟩ { s with rounds := f s.rounds } :=
  returns_update _ post

end Combinators

end XelmaMarket
