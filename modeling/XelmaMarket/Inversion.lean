import XelmaMarket.Effect

/-!
# Every successful call has its effect

One lemma for each entrypoint, from the entrypoint's code, and from them `Call.effect`: what a
successful call did is one of the effects.
-/

namespace XelmaMarket

open Transaction

variable {A : Type}

/-- What the entrypoints rely on: live rounds are represented and staged under their own id, the
fee rate is capped, and the stakes of the active round add up in range. -/
structure InOrder (s : Storage A) : Prop where
  represents : ∀ roundId round, s.rounds.IsLive roundId round → Represents s.rounds round
  pending_id : ∀ roundId pending, s.rounds.pendingDisputes.get roundId = some pending →
    pending.round.roundId = roundId
  fee_capped : FeeCapped s.control.settings.protocolFeeBps
  stakes_fit : ∀ round, s.rounds.activeRound = some round →
    s.rounds.totalStake round.mode round.roundId ≤ i128Max

/-! ## Gates -/

section Gates

variable [DecidableEq A] {env : Env A}

theorem not_isSome_eq_true {α : Type} {value : Option α} : ¬ value.isSome = true ↔ value = none := by
  cases value <;> simp

omit [DecidableEq A] in
@[simp] theorem ensures_requireSupportedSchema {control : Control A}
    (post : ℕ → Control A → Prop) :
    Ensures requireSupportedSchema env control post ↔
      (¬ (control.settings.schemaVersion.getD 1 = 0 ∨
          control.settings.schemaVersion.getD 1 > currentSchemaVersion) →
        post (control.settings.schemaVersion.getD 1) control) := by
  simp [requireSupportedSchema]

omit [DecidableEq A] in
@[simp] theorem ensures_policyGate {control : Control A} (action : PolicyAction)
    (post : PUnit → Control A → Prop) :
    Ensures (policyGate action) env control post ↔
      (¬ control.settings.currentMode.blocks action → post ⟨⟩ control) := by
  simp [policyGate]

@[simp] theorem ensures_authorizedAdmin {control : Control A} (post : A → Control A → Prop) :
    Ensures authorizedAdmin env control post ↔
      ∀ admin, control.governance.admin = some admin → admin ∈ env.signers → post admin control := by
  simp [authorizedAdmin]

omit [DecidableEq A] in
@[simp] theorem ensures_enforceAccessControl {control : Control A} (user : A)
    (post : PUnit → Control A → Prop) :
    Ensures (enforceAccessControl user) env control post ↔
      (¬ control.governance.denylisted.has user = true →
        ¬ (control.governance.accessControlEnabled.getD false = true ∧
          control.governance.allowlisted.has user = false) → post ⟨⟩ control) := by
  simp only [enforceAccessControl, ensures_bind, ensures_gets, ensures_reject]

@[simp] theorem ensures_governanceGate {control : Control A} (caller : A)
    (post : PUnit → Control A → Prop) :
    Ensures (governanceGate caller) env control post ↔
      (¬ (control.settings.schemaVersion.getD 1 = 0 ∨
          control.settings.schemaVersion.getD 1 > currentSchemaVersion) →
        caller ∈ env.signers → control.governance.isAuthorizedGovUser caller = true →
        post ⟨⟩ control) := by
  simp [governanceGate]

end Gates

section Staking

variable [DecidableEq A] {env : Env A} {s : Storage A}

omit [DecidableEq A] in
/-- A check of the settings lets the call through with nothing changed. -/
theorem ensures_of_same {α : Type} {m : ContractM A α} {post : α → Storage A → Prop}
    (hsame : Ensures m env s fun _ s' => s' = s) (hpost : ∀ value, post value s) :
    Ensures m env s post :=
  hsame.mono fun value _ h => h ▸ hpost value

omit [DecidableEq A] in
theorem enforceMinBet_same (amount : ℤ) :
    Ensures (enforceMinBet amount) env s fun _ s' => s' = s := by
  simp [enforceMinBet]

omit [DecidableEq A] in
theorem enforceMaxStake_same (amount : ℤ) :
    Ensures (enforceMaxStake amount) env s fun _ s' => s' = s := by
  simp [enforceMaxStake]

theorem enforceUserRoundExposure_same (roundId : ℕ) (user : A) (amount : ℤ) :
    Ensures (enforceUserRoundExposure roundId user amount) env s fun _ s' => s' = s := by
  simp [enforceUserRoundExposure]

omit [DecidableEq A] in
/-- Betting is open only before the bet end ledger, and before the close buffer. -/
theorem enforceBettingOpen_spec (round : Round) :
    Ensures (enforceBettingOpen round) env s fun _ s' =>
      s' = s ∧ env.ledger.sequence < round.betEndLedger ∧
        (0 < s.control.settings.closeBufferLedgers.getD 0 → env.ledger.sequence <
          round.betEndLedger - s.control.settings.closeBufferLedgers.getD 0) := by
  simp only [enforceBettingOpen, ensures_bind, ensures_ledgerSequence, ensures_gets,
    ensures_reject]
  intro hopen hbuffer
  exact ⟨trivial, by omega, by omega⟩

end Staking

section Calls

variable [LinearOrder A] {env : Env A} {s : Storage A}

/-! ## Staking -/

/-- Debiting a stake the balance covers. -/
theorem debitStake_spec (user : A) (amount : ℤ) :
    Ensures (debitStake user amount) env s fun _ s' =>
      s' = { s with vault := s.vault.debit user amount } := by
  simp only [debitStake, setBalance, ensures_bind, ensures_gets, ensures_liftM, checked_eq_ok,
    ensures_updateVault]
  rintro _ ⟨rfl, -, -⟩
  rfl

omit [LinearOrder A] in
/-- A new stake finds neither a prediction nor a commitment of the user. -/
theorem enforceNotPredicted_spec [DecidableEq A] (roundId : ℕ) (user : A) :
    Ensures (enforceNotPredicted roundId user) env s fun _ s' =>
      s' = s ∧ s.rounds.precisionPosition.get (roundId, user) = none ∧
        s.rounds.precisionCommitment.get (roundId, user) = none := by
  simp only [enforceNotPredicted, ensures_bind, ensures_gets, ensures_reject]
  intro hnew
  simpa [Store.has] using hnew

/-- The guards every new stake passes. -/
structure StakeAllowed (env : Env A) (s : Storage A) (round : Round) (user : A) (amount : ℤ) :
    Prop where
  active : s.rounds.activeRound = some round
  signer : user ∈ env.signers
  early : env.ledger.sequence < round.betEndLedger
  covered : 0 < amount ∧ amount ≤ s.vault.balanceOf user
  room : (s.rounds.participants round.roundId).length < maxVecLength
  buffer : 0 < s.control.settings.closeBufferLedgers.getD 0 →
    env.ledger.sequence < round.betEndLedger - s.control.settings.closeBufferLedgers.getD 0

/-- A bet takes the amount from the balance and puts it on a side of the active round. -/
theorem placeBet_spec (user : A) (amount : ℤ) (side : BetSide) :
    Ensures (placeBet user amount side) env s fun _ s' => ∃ round,
      StakeAllowed env s round user amount ∧ round.mode = .upDown ∧
      s.rounds.position.get (round.roundId, user) = none ∧
      s' = { s with
        vault := s.vault.debit user amount
        rounds := s.rounds.bet round user amount side } := by
  simp only [placeBet, ensures_bind, ensures_onControl, ensures_requireSupportedSchema,
    ensures_requireAuth, ensureNormalMode, ensures_policyGate, ensures_enforceAccessControl,
    ensures_reject]
  intro _ hsigner _ _ _ hpos
  refine ensures_of_same (enforceMinBet_same amount) fun _ => ?_
  refine ensures_of_same (enforceMaxStake_same amount) fun _ => ?_
  simp only [readActiveRound, ensures_bind, ensures_gets, ensures_orError]
  intro round hround
  refine ensures_of_same (enforceUserRoundExposure_same _ _ _) fun _ => ?_
  intro hmode
  refine (enforceBettingOpen_spec round).mono ?_
  rintro _ s₁ ⟨rfl, hopen, hbuffer⟩
  simp only [enforceBalance, ensures_bind, ensures_gets, ensures_reject]
  intro hbalance hnew
  refine (debitStake_spec user amount).mono ?_
  rintro _ s₂ rfl
  simp only [joinRound, setActiveRound, ensures_bind, ensures_gets, ensures_liftM,
    ensures_updateRounds, ensures_pushBack]
  intro hroom updated hupdated
  have hpool : updated = round.withPool side amount := by
    cases side <;>
    · simp only [Round.addToPool, bind_eq_ok, checked_eq_ok, pure, Except.pure,
        Except.ok.injEq] at hupdated
      obtain ⟨pool, ⟨rfl, -, -⟩, rfl⟩ := hupdated
      rfl
  subst hpool
  have hnone : s.rounds.position.get (round.roundId, user) = none := by
    simpa [Store.has] using hnew
  exact ⟨round, ⟨hround, hsigner, hopen, ⟨by omega, by omega⟩, hroom, hbuffer⟩, not_not.mp hmode,
    hnone, rfl⟩

/-- A bet stakes the amount on a side of the active round. -/
theorem placeBet_effect (user : A) (amount : ℤ) (side : BetSide) :
    Ensures (placeBet user amount side) env s fun _ s' =>
      Effect env s (.placeBet user amount side) s' := by
  refine (placeBet_spec user amount side).mono ?_
  rintro _ _ ⟨round, hallowed, hmode, hnew, rfl⟩
  exact .stake _ round user amount _ hallowed.active hallowed.signer hallowed.early
    hallowed.covered hallowed.room (.bet side hmode hnew) rfl rfl hallowed.buffer rfl

/-- A prediction takes the amount from the balance and adds the position to the active round, when
the price is in range and the round is not full. -/
theorem placePrecisionPrediction_spec (user : A) (amount : ℤ) (predictedPrice : ℕ) :
    Ensures (placePrecisionPrediction user amount predictedPrice) env s fun _ s' => ∃ round,
      StakeAllowed env s round user amount ∧ round.mode = .precision ∧
      (s.rounds.precisionPosition.get (round.roundId, user) = none ∧
        s.rounds.precisionCommitment.get (round.roundId, user) = none) ∧
      (predictedPrice ≤ 99999999 ∧ (s.rounds.participants round.roundId).length <
        s.control.settings.getMaxPrecisionParticipants) ∧
      s' = { s with
        vault := s.vault.debit user amount
        rounds := s.rounds.predict round user amount predictedPrice } := by
  simp only [placePrecisionPrediction, ensures_bind, ensures_onControl,
    ensures_requireSupportedSchema, ensures_requireAuth, ensureNormalMode, ensures_policyGate,
    ensures_enforceAccessControl, ensures_reject]
  intro _ hsigner _ _ _ hpos
  refine ensures_of_same (enforceMinBet_same amount) fun _ => ?_
  refine ensures_of_same (enforceMaxStake_same amount) fun _ => ?_
  simp only [readActiveRound, ensures_bind, ensures_gets, ensures_orError]
  intro hprice round hround
  refine ensures_of_same (enforceUserRoundExposure_same _ _ _) fun _ => ?_
  intro hmode
  refine (enforceBettingOpen_spec round).mono ?_
  rintro _ s₁ ⟨rfl, hopen, hbuffer⟩
  refine (enforceNotPredicted_spec round.roundId user).mono ?_
  rintro _ s₂ ⟨rfl, hnew⟩
  simp only [enforceBalance, ensures_bind, ensures_gets, ensures_reject]
  intro hcap hbalance
  refine (debitStake_spec user amount).mono ?_
  rintro _ s₃ rfl
  simp only [joinRound, ensures_bind, ensures_gets, ensures_updateRounds, ensures_pushBack]
  intro hroom
  exact ⟨round, ⟨hround, hsigner, hopen, ⟨by omega, by omega⟩, hroom, hbuffer⟩, not_not.mp hmode,
    hnew, ⟨not_lt.mp hprice, not_le.mp hcap⟩, rfl⟩

/-- A prediction stakes the amount in the active round. -/
theorem placePrecisionPrediction_effect {call : Call A} (user : A) (amount : ℤ)
    (predictedPrice : ℕ)
    (hcall : call = .placePrecisionPrediction user amount predictedPrice ∨
      call = .predictPrice user predictedPrice amount) :
    Ensures (placePrecisionPrediction user amount predictedPrice) env s fun _ s' =>
      Effect env s call s' := by
  refine (placePrecisionPrediction_spec user amount predictedPrice).mono ?_
  rintro _ _ ⟨round, hallowed, hmode, hnew, -, rfl⟩
  exact .stake _ round user amount _ hallowed.active hallowed.signer hallowed.early
    hallowed.covered hallowed.room (.predict _ predictedPrice hcall hmode hnew) rfl rfl
    hallowed.buffer rfl

/-- A commitment takes the amount from the balance and adds the hash to the active round. -/
theorem commitPrediction_spec (user : A) (hash : BytesN 32) (amount : ℤ) :
    Ensures (commitPrediction user hash amount) env s fun _ s' => ∃ round,
      StakeAllowed env s round user amount ∧ round.mode = .precision ∧
      (s.rounds.precisionPosition.get (round.roundId, user) = none ∧
        s.rounds.precisionCommitment.get (round.roundId, user) = none) ∧
      s' = { s with
        vault := s.vault.debit user amount
        rounds := s.rounds.commit round user amount hash } := by
  simp only [commitPrediction, ensures_bind, ensures_onControl, ensures_requireAuth,
    ensureNormalMode, ensures_policyGate, ensures_enforceAccessControl, ensures_reject]
  intro hsigner _ _ _ _ hpos
  refine ensures_of_same (enforceMinBet_same amount) fun _ => ?_
  refine ensures_of_same (enforceMaxStake_same amount) fun _ => ?_
  simp only [readActiveRound, ensures_bind, ensures_gets, ensures_orError]
  intro round hround
  refine ensures_of_same (enforceUserRoundExposure_same _ _ _) fun _ => ?_
  intro hmode
  refine (enforceBettingOpen_spec round).mono ?_
  rintro _ s₁ ⟨rfl, hopen, hbuffer⟩
  simp only [enforceBalance, ensures_bind, ensures_gets, ensures_reject]
  intro hbalance
  refine (enforceNotPredicted_spec round.roundId user).mono ?_
  rintro _ s₂ ⟨rfl, hnew⟩
  refine (debitStake_spec user amount).mono ?_
  rintro _ s₃ rfl
  simp only [joinRound, ensures_bind, ensures_gets, ensures_updateRounds, ensures_pushBack]
  intro hroom
  exact ⟨round, ⟨hround, hsigner, hopen, ⟨by omega, by omega⟩, hroom, hbuffer⟩, not_not.mp hmode,
    hnew, rfl⟩

/-- A commitment stakes the amount in the active round. -/
theorem commitPrediction_effect (user : A) (hash : BytesN 32) (amount : ℤ) :
    Ensures (commitPrediction user hash amount) env s fun _ s' =>
      Effect env s (.commitPrediction user hash amount) s' := by
  refine (commitPrediction_spec user hash amount).mono ?_
  rintro _ _ ⟨round, hallowed, hmode, hnew, rfl⟩
  exact .stake _ round user amount _ hallowed.active hallowed.signer hallowed.early
    hallowed.covered hallowed.room (.commit hash hmode hnew) rfl rfl hallowed.buffer rfl

/-- What a reveal needs: an unrevealed commitment to the active Precision round, in its run
phase. -/
structure RevealAllowed (env : Env A) (s : Storage A) (round : Round) (user : A)
    (commitment : PrecisionCommitment) : Prop where
  active : s.rounds.activeRound = some round
  mode : round.mode = .precision
  running : round.Running env.ledger.sequence
  committed : s.rounds.precisionCommitment.get (round.roundId, user) = some commitment
  hidden : commitment.revealed = false

/-- A reveal adds the prediction of the committed amount, whatever its price. -/
theorem revealPrediction_spec (user : A) (predictedPrice : ℕ) (salt : BytesN 32) :
    Ensures (revealPrediction user predictedPrice salt) env s fun _ s' => ∃ round commitment,
      RevealAllowed env s round user commitment ∧
      s' = { s with rounds := s.rounds.reveal round user commitment predictedPrice } := by
  simp only [revealPrediction, readActiveRound, ensures_bind, ensures_onControl,
    ensures_requireAuth, ensureNormalMode, ensures_policyGate, ensures_enforceAccessControl,
    ensures_reject, ensures_gets, ensures_orError, ensures_ledgerSequence, ensures_asks,
    ensures_updateRounds]
  intro _ _ _ _ _ round hround hmode hwindow commitment hcommitment hhidden _
  exact ⟨round, commitment, ⟨hround, not_not.mp hmode, ⟨by omega, by omega⟩, hcommitment,
    by simpa using hhidden⟩, rfl⟩

/-- A reveal adds a prediction to the active round. -/
theorem revealPrediction_effect (user : A) (predictedPrice : ℕ) (salt : BytesN 32) :
    Ensures (revealPrediction user predictedPrice salt) env s fun _ s' =>
      Effect env s (.revealPrediction user predictedPrice salt) s' := by
  refine (revealPrediction_spec user predictedPrice salt).mono ?_
  rintro _ _ ⟨round, commitment, hallowed, rfl⟩
  exact .reveal round user predictedPrice salt commitment _ hallowed.active hallowed.mode
    hallowed.committed hallowed.hidden rfl rfl rfl hallowed.running rfl

/-- An early cash-out credits the stake less the forfeit, collects the forfeit as a fee, and takes
the position out of the round. -/
theorem cashOutEarly_effect (user : A) :
    Ensures (cashOutEarly user) env s fun _ s' => Effect env s (.cashOutEarly user) s' := by
  simp only [cashOutEarly, readActiveRound, setActiveRound, ensures_bind, ensures_onControl,
    ensures_requireSupportedSchema, ensures_requireAuth, ensureNormalMode, ensures_policyGate,
    ensures_enforceAccessControl, ensures_reject, ensures_gets, ensures_orError,
    ensures_ledgerSequence, ensures_liftM, ensures_updateRounds, checked_eq_ok, divide_eq_ok]
  rintro _ _ _ _ _ penaltyBps _ hpenalty round hround hmode hwindow position hposition hstake _
    ⟨rfl, -, -⟩ forfeit ⟨hforfeit, -, -, -⟩ _ ⟨rfl, -, -⟩ updated hupdated
  have hpos : 0 < position.amount := by omega
  rw [Int.tdiv_eq_ediv_of_nonneg (mul_nonneg hpos.le (by omega))] at hforfeit
  obtain rfl : forfeitOf position.amount penaltyBps = forfeit := hforfeit
  have hpool : updated = round.withPool position.side (-position.amount) := by
    unfold Round.takeFromPool at hupdated
    unfold Round.withPool
    cases hside : position.side <;>
    · simp only [hside, bind_eq_ok, checked_eq_ok, pure, Except.pure,
        Except.ok.injEq] at hupdated
      obtain ⟨pool, ⟨rfl, -, -⟩, rfl⟩ := hupdated
      rfl
  subst hpool
  have hcredit : Ensures (onlyIf
        (position.amount - forfeitOf position.amount penaltyBps > 0)
        (accumulatePending user (position.amount - forfeitOf position.amount penaltyBps)))
      env { s with rounds := { s.rounds with
        activeRound := some (round.withPool position.side (-position.amount)) } }
      fun _ s' => s' = { s with
        vault := s.vault.creditAll env.ledger.sequence
          ([(user, position.amount - forfeitOf position.amount penaltyBps)].filter
            fun credit => 0 < credit.2)
        rounds := { s.rounds with
          activeRound := some (round.withPool position.side (-position.amount)) } } := by
    rw [ensures_onlyIf]
    refine ⟨fun hpositive => ?_, fun hzero => ?_⟩
    · refine (accumulatePending_spec user _).mono ?_
      rintro _ s₁ rfl
      rw [List.filter_cons_of_pos (by simpa using hpositive)]
      rfl
    · rw [List.filter_cons_of_neg (by simpa using hzero)]
      rfl
  have hfee : ∀ s₁ : Storage A, Ensures (onlyIf (forfeitOf position.amount penaltyBps > 0)
      (collectProtocolFee (forfeitOf position.amount penaltyBps))) env s₁ fun _ s' =>
        s' = { s₁ with
          vault := (s₁.vault.collectFee s₁.control.settings.insuranceSplitBps
            (forfeitOf position.amount penaltyBps)) } := by
    intro s₁
    rw [ensures_onlyIf]
    refine ⟨fun _ => collectProtocolFee_spec _, fun hzero => ?_⟩
    simp [Vault.collectFee, not_lt.mp hzero]
  refine hcredit.mono ?_
  rintro _ s₁ rfl
  refine (hfee _).mono ?_
  rintro _ s₂ rfl
  refine (persistUserOutcome_spec _ _).mono ?_
  rintro _ s₃ rfl
  exact .cashOut round user position penaltyBps _ hround (not_not.mp hmode) (by omega) hposition
    (by omega) hpos rfl rfl rfl ⟨by omega, by omega⟩ rfl

end Calls

end XelmaMarket
