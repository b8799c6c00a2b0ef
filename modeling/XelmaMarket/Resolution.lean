import XelmaMarket.Inversion

/-!
# Resolving the active round

What a resolving call does on the way to the settlement touches the oracle's own state only: the
recorded prices and nonces, and the two one-shot overrides. The settlement itself ends the active
round or stages it into its dispute window.
-/

namespace XelmaMarket

open Transaction

variable {A : Type}

/-! ## The oracle's own state -/

/-- The storage with another state of the oracle. -/
def Storage.withOracle (s : Storage A) (config : Store String ConfigEntry) (armed : Option Bool)
    (feed : Feed) : Storage A :=
  { s with
    control := { s.control with
      settings := { s.control.settings with
        config := config
        oracleDeviationOverrideArmed := armed } }
    feed := feed }

/-- `s'` differs from `s` in the oracle's own state at most. -/
def OracleOnly (s s' : Storage A) : Prop :=
  ∃ config armed feed, s' = s.withOracle config armed feed

theorem OracleOnly.refl (s : Storage A) : OracleOnly s s :=
  ⟨_, _, _, rfl⟩

variable {env : Env A} {s : Storage A}

/-! ## The encoded configurations -/

/-- What a load of the deviation config returns; none is a trap. -/
def Settings.deviationConfig (settings : Settings) (host : Host A) : Option DeviationConfig :=
  match settings.config.get (host.encodeConfigKey .deviationConfigKey) with
  | none => some { referenceMode := .startPrice, windowSamples := minTwapWindowSamples }
  | some (.deviation config) => some config
  | some _ => none

/-- What a load of the attestation config returns; none is a trap. -/
def Settings.attestationConfig (settings : Settings) (host : Host A) : Option AttestationConfig :=
  match settings.config.get (host.encodeConfigKey .attestationConfigKey) with
  | none => some { key := none }
  | some (.attestation config) => some config
  | some _ => none

/-- What a load of the heartbeat gate config returns; none is a trap. -/
def Settings.hbConfig (settings : Settings) (host : Host A) : Option HbGateConfig :=
  match settings.config.get (host.encodeConfigKey .hbGateKey) with
  | none => some { strictMode := false, overrideArmed := false, graceSeconds := 0 }
  | some (.hbGate config) => some config
  | some _ => none

@[simp] theorem ensures_loadDeviationConfig {control : Control A}
    (post : DeviationConfig → Control A → Prop) :
    Ensures loadDeviationConfig env control post ↔
      ∀ config, control.settings.deviationConfig env.host = some config → post config control := by
  simp only [loadDeviationConfig, readConfigEntry, Settings.deviationConfig, ensures_bind, ensures_asks,
    ensures_gets]
  cases control.settings.config.get (env.host.encodeConfigKey .deviationConfigKey) with
  | none => simp
  | some entry => cases entry <;> simp

@[simp] theorem ensures_loadAttestationConfig {control : Control A}
    (post : AttestationConfig → Control A → Prop) :
    Ensures loadAttestationConfig env control post ↔
      ∀ config, control.settings.attestationConfig env.host = some config →
        post config control := by
  simp only [loadAttestationConfig, readConfigEntry, Settings.attestationConfig, ensures_bind, ensures_asks,
    ensures_gets]
  cases control.settings.config.get (env.host.encodeConfigKey .attestationConfigKey) with
  | none => simp
  | some entry => cases entry <;> simp

@[simp] theorem ensures_loadHbConfig {control : Control A}
    (post : HbGateConfig → Control A → Prop) :
    Ensures loadHbConfig env control post ↔
      ∀ config, control.settings.hbConfig env.host = some config → post config control := by
  simp only [loadHbConfig, readConfigEntry, Settings.hbConfig, ensures_bind, ensures_asks,
    ensures_gets]
  cases control.settings.config.get (env.host.encodeConfigKey .hbGateKey) with
  | none => simp
  | some entry => cases entry <;> simp

@[simp] theorem ensures_writeConfigEntry {control : Control A} (key : ConfigKey)
    (entry : ConfigEntry) (post : PUnit → Control A → Prop) :
    Ensures (writeConfigEntry key entry) env control post ↔
      post ⟨⟩ { control with
        settings := { control.settings with
          config := control.settings.config.set (env.host.encodeConfigKey key) entry } } := by
  simp [writeConfigEntry]

/-! ## Checks -/

/-- The entries after the heartbeat gate: a strict gate that is blocked consumes the override, and
any other leaves the entries as they were. -/
def HbConsumed (env : Env A) (settings : Settings) (config : Store String ConfigEntry) : Prop :=
  ∃ hb, settings.hbConfig env.host = some hb ∧
    config =
      if hb.strictMode = true ∧
          checkHeartbeatHealthBlocked settings hb env.ledger.timestamp = true then
        settings.config.set (env.host.encodeConfigKey .hbGateKey)
          (.hbGate { hb with overrideArmed := false })
      else
        settings.config

/-- The heartbeat gate loads its config, and may consume the override. -/
theorem heartbeatGate_spec :
    Ensures heartbeatGate env s fun _ s' => s.control.settings.hbConfig env.host ≠ none ∧
      ∃ config, HbConsumed env s.control.settings config ∧
        s' = s.withOracle config s.control.settings.oracleDeviationOverrideArmed s.feed := by
  simp only [heartbeatGate, consumeHbOverride, saveHbConfig, ensures_bind, ensures_onControl,
    ensures_ledgerTimestamp, ensures_gets, ensures_onlyIf, ensures_reject,
    ensures_loadHbConfig, ensures_writeConfigEntry, ensures_pure]
  intro hb hload
  have hloads : s.control.settings.hbConfig env.host ≠ none := by simp [hload]
  refine ⟨fun hblocked harmed hb' hload' => ?_,
    fun hpasses => ⟨hloads, _, ⟨hb, hload, (if_neg hpasses).symm⟩, rfl⟩⟩
  obtain rfl := Option.some.inj (hload.symm.trans hload')
  exact ⟨fun _ => ⟨hloads, _, ⟨hb, hload, (if_pos hblocked).symm⟩, rfl⟩,
    fun hnot => absurd (by simpa using harmed) hnot⟩

/-- A nonce is consumed in the feed. -/
theorem consumeNonce_spec (roundId nonce : ℕ) :
    Ensures (consumeNonce roundId nonce) env s fun _ s' => ∃ feed, s' = { s with feed := feed } := by
  simp only [consumeNonce, ensures_bind, ensures_gets, ensures_reject, ensures_update]
  exact fun _ => ⟨_, rfl⟩

/-- A price is recorded in the feed. -/
theorem recordTwapSample_spec (price timestamp : ℕ) :
    Ensures (recordTwapSample price timestamp) env s fun _ s' =>
      ∃ feed, s' = { s with feed := feed } := by
  simp only [recordTwapSample, ensures_update]
  exact ⟨_, rfl⟩

/-- A price stays within a maximal deviation from a reference price, or the override is armed. -/
def WithinDeviation (settings : Settings) (maxBps price reference : ℕ) : Prop :=
  reference ≠ 0 ∧ ∃ diffBps, deviationBps price reference = .ok diffBps ∧
    (diffBps ≤ maxBps ∨ settings.oracleDeviationOverrideArmed.getD false = true)

/-- A price passes the guard within the deviation; the guard may consume the override. -/
theorem enforceDeviation_spec (maxBps price reference : ℕ) :
    Ensures (enforceDeviation maxBps price reference) env s fun _ s' =>
      WithinDeviation s.control.settings maxBps price reference ∧
      ∃ armed, s' = s.withOracle s.control.settings.config armed s.feed := by
  simp only [enforceDeviation, ensures_bind, ensures_reject, ensures_liftM, ensures_gets,
    ensures_onlyIf, ensures_onControl, ensures_updateSettings]
  intro hreference diffBps hdiff hallowed
  have hwithin : WithinDeviation s.control.settings maxBps price reference := by
    refine ⟨hreference, diffBps, hdiff, ?_⟩
    by_contra hnot
    simp only [not_or, not_le, Bool.not_eq_true] at hnot
    exact hallowed hnot
  exact ⟨fun _ => ⟨hwithin, _, rfl⟩, fun _ => ⟨hwithin, _, rfl⟩⟩

theorem checkDeviation_spec (round : Round) (price : ℕ) :
    Ensures (checkDeviation round price) env s fun _ s' =>
      ∃ armed, s' = s.withOracle s.control.settings.config armed s.feed := by
  simp only [checkDeviation, ensures_bind, ensures_gets, ensures_onSome, ensures_onControl,
    ensures_loadDeviationConfig]
  refine ⟨fun maxBps _ config _ => ?_, fun _ => ⟨_, rfl⟩⟩
  have hreference : Ensures (referencePrice (A := A) round config) env s fun _ s' => s' = s := by
    unfold referencePrice
    cases config.referenceMode with
    | startPrice => simp
    | twap => simp
  refine hreference.mono ?_
  rintro reference _ rfl
  exact (enforceDeviation_spec _ _ _).mono fun _ _ h => h.2

/-- A payload that passes is bound to the round's start ledger, the network and the contract. -/
theorem checkPayloadBinding_spec [DecidableEq A] (round : Round) (payloadRoundId : ℕ)
    (networkId : BytesN 32) (contractAddr : A) :
    Ensures (checkPayloadBinding round payloadRoundId networkId contractAddr) env s
      fun _ s' => s' = s ∧ round.startLedger = payloadRoundId ∧
        networkId = env.host.networkId ∧ contractAddr = env.host.currentContractAddress := by
  simp only [checkPayloadBinding, ensures_bind, ensures_asks, ensures_reject, not_not]
  exact fun hstart hnetwork hcontract => ⟨trivial, hstart.symm, hnetwork, hcontract⟩

theorem checkTimestampWindow_same (round : Round) (timestamp : ℕ) :
    Ensures (checkTimestampWindow round timestamp) env s fun _ s' => s' = s := by
  simp only [checkTimestampWindow, ensures_bind, ensures_ledgerTimestamp, ensures_gets,
    ensures_reject, ensures_liftM]
  exact fun _ _ _ _ _ _ _ => trivial

/-- With an attestation key configured, a payload carries a signature that verifies under it. -/
def Attested [DecidableEq A] (host : Host A) (settings : Settings) (payload : OraclePayload A) :
    Prop :=
  ∀ pubkey, settings.attestationConfig host = some { key := some pubkey } →
    ∃ signature, payload.attestation = some signature ∧
      host.ed25519Verify pubkey (buildAttestationMessage host payload) signature = true

/-- A payload that passes is attested. -/
theorem verifyAttestation_spec [DecidableEq A] (payload : OraclePayload A) :
    Ensures (verifyAttestation payload) env s fun _ s' =>
      s' = s ∧ Attested env.host s.control.settings payload := by
  simp only [verifyAttestation, ensures_bind, ensures_onControl, ensures_loadAttestationConfig,
    ensures_asks, ensures_onSome, ensures_orError, ensures_failIf]
  intro config hconfig
  constructor
  · intro pubkey hkey signature hsignature hverified
    refine ⟨trivial, fun other hother => ⟨signature, hsignature, ?_⟩⟩
    obtain rfl := Option.some.inj (hconfig.symm.trans hother)
    obtain rfl := Option.some.inj hkey
    simpa using hverified
  · intro hkey
    refine ⟨trivial, fun other hother => ?_⟩
    obtain rfl := Option.some.inj (hconfig.symm.trans hother)
    cases hkey

theorem checkConfidence_same (confidence : Option ℕ) :
    Ensures (checkConfidence confidence) env s fun _ s' => s' = s := by
  simp only [checkConfidence, ensures_bind, ensures_gets, ensures_onSome, ensures_reject]
  exact ⟨fun _ _ _ => trivial, fun _ => trivial⟩

/-! ## Submissions -/

/-- What the checks of a submission establish before the settlement: the payload is bound to the
active round, whose end ledger is reached, the heartbeat config loads, and only the oracle's own
state has changed. -/
structure Checked (env : Env A) (s : Storage A) (round : Round) (startLedger : ℕ)
    (s₁ : Storage A) : Prop where
  active : s.rounds.activeRound = some round
  ended : round.endLedger ≤ env.ledger.sequence
  bound : round.startLedger = startLedger
  loads : s.control.settings.hbConfig env.host ≠ none
  oracle : OracleOnly s s₁
  config : HbConsumed env s.control.settings s₁.control.settings.config

section Submissions

variable [LinearOrder A]

/-- Resolving with a single payload settles the active round when the checks let it through. -/
theorem resolveRound_checked {post : PUnit → Storage A → Prop} (payload : OraclePayload A)
    (hsettle : ∀ round s₁, Checked env s round payload.roundId s₁ →
      payload.networkId = env.host.networkId ∧
        payload.contractAddr = env.host.currentContractAddress →
      Attested env.host s.control.settings payload →
      Ensures (settleRoundWithPrice round payload.price payload.confidence) env s₁ post) :
    Ensures (resolveRound payload) env s post := by
  simp only [resolveRound, ensures_bind, ensures_onControl, ensures_requireSupportedSchema,
    ensures_reject, authorizedOracle, ensures_gets, ensures_orError, ensures_requireAuth,
    ensures_pure, ensureNotPaused, ensures_policyGate, ensures_loadHbConfig,
    ensures_ledgerTimestamp, readActiveRound]
  intro _ _ _ _ _ _ _ _ _ round hactive
  refine (checkPayloadBinding_spec _ _ _ _).mono ?_
  rintro _ _ ⟨rfl, hbound, hbinding⟩
  refine (verifyAttestation_spec _).mono ?_
  rintro _ _ ⟨rfl, hattested⟩
  refine (checkTimestampWindow_same _ _).mono ?_
  rintro _ _ rfl
  refine (checkDeviation_spec _ _).mono ?_
  rintro _ _ ⟨armed, rfl⟩
  refine (checkConfidence_same _).mono ?_
  rintro _ _ rfl
  refine (consumeNonce_spec _ _).mono ?_
  rintro _ _ ⟨feed, rfl⟩
  refine heartbeatGate_spec.mono ?_
  rintro _ _ ⟨hloads, config, hconsumed, rfl⟩
  simp only [enforceRoundEnded, ensures_bind, ensures_ledgerSequence, ensures_reject]
  intro hended
  refine (recordTwapSample_spec _ _).mono ?_
  rintro _ _ ⟨feed', rfl⟩
  exact hsettle round _ ⟨hactive, not_lt.mp hended, hbound, hloads, ⟨_, _, _, rfl⟩, hconsumed⟩
    hbinding hattested

/-- Resolving with several feeds settles the active round at their median when the checks let it
through; the deviation guard compares the median with the start price. -/
theorem resolveRoundMulti_checked {post : PUnit → Storage A → Prop} (payload : MultiFeedPayload A)
    (hsettle : ∀ round median s₁, Checked env s round payload.roundId s₁ →
      medianPrice payload.prices = .ok median →
      (∀ maxBps, s.control.settings.oracleMaxDeviationBps = some maxBps →
        WithinDeviation s.control.settings maxBps median round.priceStart) →
      Ensures (settleRoundWithPrice round median none) env s₁ post) :
    Ensures (resolveRoundMulti payload) env s post := by
  simp only [resolveRoundMulti, ensures_bind, ensures_onControl, ensures_requireSupportedSchema,
    ensures_reject, authorizedOracle, ensures_gets, ensures_orError, ensures_requireAuth,
    ensures_pure, ensureNotPaused, ensures_policyGate, readActiveRound]
  intro _ _ _ _ _ _ _ _ _ _ round hactive
  refine (checkPayloadBinding_spec _ _ _ _).mono ?_
  rintro _ _ ⟨rfl, hbound, -⟩
  refine (checkTimestampWindow_same _ _).mono ?_
  rintro _ _ rfl
  refine heartbeatGate_spec.mono ?_
  rintro _ _ ⟨hloads, config, hconsumed, rfl⟩
  refine (consumeNonce_spec _ _).mono ?_
  rintro _ _ ⟨feed, rfl⟩
  simp only [enforceRoundEnded, ensures_bind, ensures_ledgerSequence, ensures_reject,
    ensures_liftM, ensures_onSome]
  intro hended _ _ _ median hmedian _
  constructor
  · intro maxBps hmaxBps
    refine (enforceDeviation_spec _ _ _).mono ?_
    rintro _ _ ⟨hwithin, armed, rfl⟩ survivors _ _
    refine (recordTwapSample_spec _ _).mono ?_
    rintro _ _ ⟨feed', rfl⟩
    refine hsettle round median _
      ⟨hactive, not_lt.mp hended, hbound, hloads, ⟨_, _, _, rfl⟩, hconsumed⟩ hmedian ?_
    intro other hother
    obtain rfl := Option.some.inj (hmaxBps.symm.trans hother)
    exact hwithin
  · intro hnone survivors _ _
    refine (recordTwapSample_spec _ _).mono ?_
    rintro _ _ ⟨feed', rfl⟩
    refine hsettle round median _
      ⟨hactive, not_lt.mp hended, hbound, hloads, ⟨_, _, _, rfl⟩, hconsumed⟩ hmedian ?_
    intro other hother
    cases hnone.symm.trans hother

end Submissions

/-! ## The settlement of the active round -/

variable [LinearOrder A]

/-- What settling the active round at a price does: it ends the round as `resolution` says, with
arithmetic in range, or stages it. -/
structure Settled (env : Env A) (s : Storage A) (round : Round) (finalPrice : ℕ)
    (s' : Storage A) : Prop where
  active : s.rounds.activeRound = some round
  ends : ∀ ending, s.resolution finalPrice = some ending → Ends env.ledger.sequence ending s s'
  computes : s.resolution finalPrice = some ⟨round, .resolved finalPrice⟩ →
    Computes s.control.settings.terms s.rounds round finalPrice
  staged : s.resolution finalPrice = none → ∃ pending : PendingDisputeSettlement,
    pending.finalPrice = finalPrice ∧ pending.round = round ∧
    pending.deadlineLedger = env.ledger.sequence + s.control.settings.getDisputeLedgers ∧
    s'.vault = s.vault ∧ s'.rounds = s.rounds.stage pending ∧
    s'.userRoundOutcome = s.userRoundOutcome ∧ s'.stats = s.stats

/-- The settlement does not depend on the oracle's own state. -/
theorem Settled.of_oracleOnly {round : Round} {finalPrice : ℕ} {s₁ s' : Storage A}
    (honly : OracleOnly s s₁) (hsettled : Settled env s₁ round finalPrice s') :
    Settled env s round finalPrice s' := by
  obtain ⟨config, armed, feed, rfl⟩ := honly
  constructor
  · exact hsettled.active
  · intro ending hending
    have hends := hsettled.ends ending hending
    exact ⟨hends.vault, hends.outcomes, hends.rounds, hends.stats⟩
  · exact hsettled.computes
  · exact hsettled.staged

theorem settleRoundWithPrice_spec {round : Round} (hactive : s.rounds.activeRound = some round)
    (hbook : Represents s.rounds round) (hcap : FeeCapped s.control.settings.protocolFeeBps)
    (finalPrice : ℕ) (confidence : Option ℕ) :
    Ensures (settleRoundWithPrice round finalPrice confidence) env s fun _ s' =>
      Settled env s round finalPrice s' := by
  have hresolution : s.resolution finalPrice =
      if s.control.settings.belowMinimum (s.rounds.participants round.roundId).length then
        some ⟨round, .fallbackRefund⟩
      else if s.control.settings.getDisputeLedgers > 0 then none
      else some ⟨round, .resolved finalPrice⟩ := by
    simp [Storage.resolution, hactive]
  simp only [settleRoundWithPrice, ensures_bind, ensures_gets, ensures_ite]
  refine ⟨fun hbelow => ?_, fun habove => ⟨fun hwindow => ?_, fun hnow => ?_⟩⟩
  · rw [if_pos hbelow] at hresolution
    refine (archiveRound_spec _ _ _ _ _ _).mono ?_
    rintro _ s₁ ⟨archive, events, rfl⟩
    refine (refundUnderThreshold_spec (s := { s with archive := archive, events := events })
      hbook).mono ?_
    intro _ s' hends
    constructor
    · exact hactive
    · rintro ending hending
      obtain rfl := Option.some.inj (hresolution.symm.trans hending)
      exact ⟨hends.vault, hends.outcomes, hends.rounds, hends.stats⟩
    · intro hending
      simp [hresolution] at hending
    · intro hnone
      simp [hresolution] at hnone
  · rw [if_neg habove, if_pos hwindow] at hresolution
    simp only [stageSettlement, ensures_bind, ensures_ledgerSequence, ensures_liftM,
      checkedUint_eq_ok, ensures_updateRounds]
    rintro deadline ⟨rfl, -⟩
    constructor
    · exact hactive
    · intro ending hending
      simp [hresolution] at hending
    · intro hending
      simp [hresolution] at hending
    · refine fun _ => ⟨{
        round := round
        finalPrice := finalPrice
        confidence := confidence
        resolvedAtLedger := env.ledger.sequence
        deadlineLedger := env.ledger.sequence + s.control.settings.getDisputeLedgers },
        rfl, rfl, rfl, rfl, rfl, rfl, rfl⟩
  · rw [if_neg habove, if_neg hnow] at hresolution
    refine (completeSettlement_spec hbook hcap finalPrice confidence).mono ?_
    rintro _ s' ⟨-, hcomputes, hends⟩
    rw [ensures_pure]
    constructor
    · exact hactive
    · intro ending hending
      obtain rfl := Option.some.inj (hresolution.symm.trans hending)
      exact hends
    · exact fun _ => hcomputes
    · intro hnone
      simp [hresolution] at hnone

/-- The settlement after the oracle's checks. -/
theorem settle_after_checks {round : Round} {s₁ : Storage A} (honly : OracleOnly s s₁)
    (hinorder : InOrder s) (hactive : s.rounds.activeRound = some round) (finalPrice : ℕ)
    (confidence : Option ℕ) :
    Ensures (settleRoundWithPrice round finalPrice confidence) env s₁ fun _ s' =>
      Settled env s round finalPrice s' := by
  have hspec : Ensures (settleRoundWithPrice round finalPrice confidence) env s₁ fun _ s' =>
      Settled env s₁ round finalPrice s' := by
    obtain ⟨config, armed, feed, rfl⟩ := honly
    exact settleRoundWithPrice_spec (s := s.withOracle config armed feed) hactive
      (hinorder.represents round.roundId round (.inl ⟨hactive, rfl⟩)) hinorder.fee_capped
      finalPrice confidence
  exact hspec.mono fun _ s' hsettled => .of_oracleOnly honly hsettled

/-- The start ledger a submission of the oracle is bound to. -/
def Call.boundTo : Call A → Option ℕ
  | .resolveRound payload => some payload.roundId
  | .resolveRoundMulti payload => some payload.roundId
  | _ => none

/-- A submission settles the active round, which started in the ledger the payload is bound to, at
the submitted price, when the checks let it through. -/
theorem Call.ensures_checked {call : Call A} {startLedger : ℕ} {post : PUnit → Storage A → Prop}
    (hbound : call.boundTo = some startLedger)
    (hsettle : ∀ round finalPrice confidence s₁, call.price = some finalPrice →
      Checked env s round startLedger s₁ →
      Ensures (settleRoundWithPrice round finalPrice confidence) env s₁ post) :
    Ensures call.exec env s post := by
  cases call with
  | resolveRound payload =>
      obtain rfl := Option.some.inj hbound
      exact resolveRound_checked payload fun round s₁ hchecked _ _ => hsettle _ _ _ _ rfl hchecked
  | resolveRoundMulti payload =>
      obtain rfl := Option.some.inj hbound
      refine resolveRoundMulti_checked payload fun round median s₁ hchecked hmedian _ => ?_
      exact hsettle _ _ _ _ (by simp [Call.price, hmedian, Except.toOption]) hchecked
  | _ => cases hbound

/-- A successful submission settles the active round at the submitted price. -/
theorem Call.ensures_settled (hinorder : InOrder s) {call : Call A} {startLedger : ℕ}
    (hbound : call.boundTo = some startLedger) :
    Ensures call.exec env s fun _ s' => ∃ round finalPrice, round.startLedger = startLedger ∧
      round.endLedger ≤ env.ledger.sequence ∧ call.price = some finalPrice ∧
      Settled env s round finalPrice s' := by
  refine Call.ensures_checked hbound fun round finalPrice confidence s₁ hprice hchecked => ?_
  refine (settle_after_checks hchecked.oracle hinorder hchecked.active _ _).mono fun _ s' h => ?_
  exact ⟨round, finalPrice, hchecked.bound, hchecked.ended, hprice, h⟩

end XelmaMarket
