import Mathlib.Data.List.Sort
import XelmaMarket.Storage

/-!
# Shared helpers

Constants, checked payout arithmetic, and the helpers every part of the contract uses: the
balance of an account, the accumulator of pending winnings and the minimum bet.
-/

namespace XelmaMarket

open Transaction

/-! ## Limits and defaults -/

def minPendingWinningsExpiry : ℕ := 128
def maxPendingWinningsExpiry : ℕ := 1000000
def defaultPendingWinningsExpiry : ℕ := 0
def defaultGovProposalTtlLedgers : ℕ := 100
def maxDisputeLedgers : ℕ := 120960
def defaultDisputeLedgers : ℕ := 0
def minCapValue : ℤ := 1
def maxMinParticipants : ℕ := 10000
def defaultMaxPrecisionParticipants : ℕ := 1000
def maxPrecisionParticipantsLimit : ℕ := 10000
def maxClaimBatchSize : ℕ := 50
def leaderboardLimit : ℕ := 100
def defaultOracleStaleThreshold : ℕ := 3600
def minOracleStaleThreshold : ℕ := 60
def maxOracleStaleThreshold : ℕ := 86400
def defaultBetWindowLedgers : ℕ := 6
def defaultRunWindowLedgers : ℕ := 12
def defaultCloseBufferLedgers : ℕ := 0
def maxBetWindowLedgers : ℕ := 1440
def maxRunWindowLedgers : ℕ := 2880
def maxCloseBufferLedgers : ℕ := 1440
def maxOracleDeviationBps : ℕ := 100000
def secondsPerLedger : ℕ := 5
def defaultOracleTimestampSkew : ℕ := 300
def minOracleTimestampSkew : ℕ := 0
def maxOracleTimestampSkew : ℕ := 86400
def maxProtocolFeeBps : ℕ := 1000
def currentSchemaVersion : ℕ := 3
def minStartPrice : ℕ := 1
def maxStartPrice : ℕ := 1000000000000000000
def defaultArchiveRetention : ℕ := 128
def minArchiveRetention : ℕ := 1
def maxArchiveRetention : ℕ := 10000
def configTimelockLedgers : ℕ := 1440
def epochLedgers : ℕ := 1440
def defaultOracleQuorumMinObservations : ℕ := 3
def defaultOracleQuorumThreshold : ℕ := 3
def maxOracleObservations : ℕ := 32
def minTwapWindowSamples : ℕ := 2
def maxTwapWindowSamples : ℕ := 64
def bpsDenominator : ℤ := 10000

/-! ## Checked arithmetic -/

/-- The largest 128-bit signed integer. -/
def i128Max : ℤ := 2 ^ 127 - 1

/-- The smallest 128-bit signed integer. -/
def i128Min : ℤ := -(2 ^ 127)

/-- An `i128` result, or an error when it overflows. -/
def checked (x : ℤ) (error : ContractError) : Except Failure ℤ :=
  if i128Min ≤ x ∧ x ≤ i128Max then .ok x else .error (.err error)

/-- An unsigned result of some width, or an error when it overflows. -/
def checkedUint (width x : ℕ) (error : ContractError) : Except Failure ℕ :=
  if x < 2 ^ width then .ok x else .error (.err error)

/-- Checked addition for payout accumulation. -/
def payoutAdd (a b : ℤ) : Except Failure ℤ :=
  checked (a + b) .payoutOverflow

/-- Checked multiplication for payout accumulation. -/
def payoutMul (a b : ℤ) : Except Failure ℤ :=
  checked (a * b) .payoutOverflow

/-- Division of amounts with `/`, which truncates; a zero divisor and an overflow trap. -/
def divide (a b : ℤ) : Except Failure ℤ :=
  if b ≠ 0 ∧ i128Min ≤ a.tdiv b ∧ a.tdiv b ≤ i128Max then .ok (a.tdiv b) else .error .trap

/-- `saturating_add` on `i128`. -/
def saturatingAdd (a b : ℤ) : ℤ :=
  max i128Min (min i128Max (a + b))

/-- `saturating_add` on an unsigned type of some width. -/
def saturatingAddUint (width a b : ℕ) : ℕ :=
  min (2 ^ width - 1) (a + b)

@[simp] theorem checked_eq_ok {x y : ℤ} {error : ContractError} :
    checked x error = .ok y ↔ x = y ∧ i128Min ≤ x ∧ x ≤ i128Max := by
  unfold checked
  split <;> grind

@[simp] theorem checkedUint_eq_ok {width x y : ℕ} {error : ContractError} :
    checkedUint width x error = .ok y ↔ x = y ∧ x < 2 ^ width := by
  unfold checkedUint
  split <;> grind

@[simp] theorem payoutAdd_eq_ok {a b c : ℤ} :
    payoutAdd a b = .ok c ↔ a + b = c ∧ i128Min ≤ a + b ∧ a + b ≤ i128Max :=
  checked_eq_ok

@[simp] theorem payoutMul_eq_ok {a b c : ℤ} :
    payoutMul a b = .ok c ↔ a * b = c ∧ i128Min ≤ a * b ∧ a * b ≤ i128Max :=
  checked_eq_ok

@[simp] theorem divide_eq_ok {a b c : ℤ} :
    divide a b = .ok c ↔
      a.tdiv b = c ∧ b ≠ 0 ∧ i128Min ≤ a.tdiv b ∧ a.tdiv b ≤ i128Max := by
  unfold divide
  split <;> grind

/-! ## Storage helpers -/

variable {A : Type}

/-- Sort addresses into ascending order. -/
def sortAddresses [LinearOrder A] (addresses : List A) : List A :=
  addresses.insertionSort (· ≤ ·)

/-- The largest length of a host vector, whose length is a `u32`. -/
def maxVecLength : ℕ := 2 ^ 32 - 1

/-- `Vec::push_back`, which traps on a vector of the largest length. -/
def pushBack {α σ : Type} (items : List α) (item : α) :
    Transaction (Env A) σ Failure (List α) := do
  failIf (maxVecLength ≤ items.length) .trap
  return items ++ [item]

@[simp] theorem ensures_pushBack {α σ : Type} {env : Env A} {s : σ} (items : List α) (item : α)
    (post : List α → σ → Prop) :
    Ensures (pushBack items item) env s post ↔
      (items.length < maxVecLength → post (items ++ [item]) s) := by
  simp [pushBack]

/-- The balance of an account; 0 without an entry. -/
def Vault.balanceOf (vault : Vault A) (user : A) : ℤ :=
  vault.balance.getD user 0

/-- The pending winnings of an account; 0 without an entry. -/
def Vault.pendingOf (vault : Vault A) (user : A) : ℤ :=
  vault.pendingWinnings.getD user 0

/-- The insurance-fund balance; 0 when unset. -/
def Vault.insuranceFund (vault : Vault A) : ℤ :=
  vault.insFundBal.getD 0

/-- The participants of a round; none without an entry. -/
def Rounds.participants (rounds : Rounds A) (roundId : ℕ) : List A :=
  rounds.roundParticipants.getD roundId []

/-- Read the treasury as an amount. The key holds an address after a governance proposal wrote
one there, and decoding it as an amount traps. -/
def readTreasury : ContractM A ℤ := do
  match ← gets (·.vault.protocolFeeTreasury) with
  | none => return 0
  | some (.amount value) => return value
  | some (.address _) => fail .trap

section DecidableAddress

variable [DecidableEq A]

/-- Write a balance. -/
def setBalance (user : A) (amount : ℤ) : ContractM A PUnit :=
  updateVault fun vault => { vault with balance := vault.balance.set user amount }

/-- Write the treasury. -/
def setTreasury (value : ℤ) : ContractM A PUnit :=
  updateVault fun vault => { vault with protocolFeeTreasury := some (.amount value) }

/-- Write the insurance-fund balance. -/
def setInsuranceFund (value : ℤ) : ContractM A PUnit :=
  updateVault fun vault => { vault with insFundBal := some value }

/-- Accumulate an amount into a user's pending winnings, enforcing the cap if set. -/
def accumulatePending (user : A) (amount : ℤ) : ContractM A PUnit := do
  let existing ← gets (·.vault.pendingOf user)
  let newPending ← payoutAdd existing amount
  let maxPendingWinnings ← gets (·.control.settings.maxPendingWinnings)
  onSome maxPendingWinnings fun cap => reject (newPending > cap) .pendingWinningsCapExceeded
  let currentLedger ← ledgerSequence
  updateVault fun vault =>
    { vault with
      pendingWinnings := vault.pendingWinnings.set user newPending
      pendingWinningsUpdatedAt := vault.pendingWinningsUpdatedAt.set user currentLedger }

/-- Persist a user's outcome for a round; the first record stays. -/
def persistUserOutcome (roundId : ℕ) (record : UserRoundOutcome A) : ContractM A PUnit := do
  let recorded ← gets (·.userRoundOutcome.has (roundId, record.user))
  onlyIf (recorded = false) (update fun s =>
    { s with userRoundOutcome := s.userRoundOutcome.set (roundId, record.user) record })

end DecidableAddress

/-- Reject an amount below the configured minimum bet, when set. -/
def enforceMinBet (amount : ℤ) : ContractM A PUnit := do
  let minBet ← gets (·.control.settings.minBet)
  onSome minBet fun min => reject (amount < min) .belowMinBet

def assertNoActiveRound : ContractM A PUnit := do
  let activeRound ← gets (·.rounds.activeRound)
  reject (activeRound.isSome) .roundAlreadyActive

end XelmaMarket
