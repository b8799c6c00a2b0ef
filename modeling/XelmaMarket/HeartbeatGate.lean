import XelmaMarket.MarketReads
import XelmaMarket.OracleGuards
import XelmaMarket.SettlementErrors

/-!
# The heartbeat gate

When the health of the oracle's heartbeat decides whether a submission settles: as the strict mode
and the override say for several feeds, and from a first check that asks neither of them for a
single payload.
-/

namespace XelmaMarket

open Transaction

variable {A : Type}

/-! ## The gate config of a reachable chain -/

section Loads

variable [LinearOrder A] {host : Host A} {chain : Chain A}

/-- The heartbeat gate config is stored under a key of its own. -/
def StoresHbApart (host : Host A) : Prop :=
  ∀ key, key ≠ .hbGateKey → host.encodeConfigKey key ≠ host.encodeConfigKey .hbGateKey

/-- What is stored under its key is a heartbeat gate config. -/
theorem History.hb_stored {trace : List (Transition (Chain A) (Action A))}
    (hhistory : History host trace chain) (hapart : StoresHbApart host) :
    ∀ entry, chain.storage.control.settings.config.get (host.encodeConfigKey .hbGateKey) =
      some entry → entry.key = .hbGateKey := by
  obtain ⟨ledger, hrun⟩ := hhistory
  refine hrun.invariant (fun chain => ∀ entry, chain.storage.control.settings.config.get
    (host.encodeConfigKey .hbGateKey) = some entry → entry.key = .hbGateKey) nofun ?_
  intro transition _ hstep hstored entry hentry
  rcases hstep.administration with ⟨_, _, -, hchange⟩ | ⟨-, hsame⟩
  · rcases hchange.config_cases with ⟨hconfig, -⟩ | ⟨new, hconfig, -⟩
    · exact hstored entry (hconfig ▸ hentry)
    · by_cases hkey : new.key = .hbGateKey
      · rw [hconfig, hkey, Store.get_set_self] at hentry
        exact Option.some.inj hentry ▸ hkey
      · rw [hconfig, Store.get_set_of_ne _ _ (hapart new.key hkey).symm] at hentry
        exact hstored entry hentry
  · exact hstored entry (hsame ▸ hentry)

/-- With the key of its own the heartbeat gate config loads. -/
theorem Reachable.hb_loads (hreachable : Reachable host chain) (hapart : StoresHbApart host) :
    ∃ hb, chain.storage.control.settings.hbConfig host = some hb := by
  obtain ⟨trace, hhistory⟩ := hreachable
  have hstored := hhistory.hb_stored hapart
  unfold Settings.hbConfig
  cases hentry : chain.storage.control.settings.config.get (host.encodeConfigKey .hbGateKey) with
  | none => exact ⟨_, rfl⟩
  | some entry =>
      have hkey := hstored entry hentry
      cases entry with
      | hbGate config => exact ⟨config, rfl⟩
      | deviation | attestation => cases hkey

end Loads

/-! ## What the gate promises -/

/-- The storage with another heartbeat, staleness threshold and heartbeat gate config. -/
def Storage.withHealth (s : Storage A) (host : Host A) (heartbeat : Option OracleHeartbeatRecord)
    (staleThreshold : Option ℕ) (hb : HbGateConfig) : Storage A :=
  { s with control := { s.control with settings := { s.control.settings with
      oracleHeartbeat := heartbeat
      oracleStaleThreshold := staleThreshold
      config := s.control.settings.config.set (host.encodeConfigKey .hbGateKey) (.hbGate hb) } } }

/-- The same as a mask. -/
def healthMask (host : Host A) (heartbeat : Option OracleHeartbeatRecord)
    (staleThreshold : Option ℕ) (hb : HbGateConfig) : Mask A where
  amendment := id
  nextAmendmentId := id
  heartbeat := fun _ => heartbeat
  staleThreshold := fun _ => staleThreshold
  config := fun config => config.set (host.encodeConfigKey .hbGateKey) (.hbGate hb)

@[simp] theorem Storage.withHealth_hbConfig (s : Storage A) (host : Host A)
    (heartbeat : Option OracleHeartbeatRecord) (staleThreshold : Option ℕ) (hb : HbGateConfig) :
    (s.withHealth host heartbeat staleThreshold hb).control.settings.hbConfig host = some hb := by
  simp [Storage.withHealth, Settings.hbConfig]

/-- The storage with a heartbeat of this moment. -/
def Storage.withLiveHeartbeat (s : Storage A) (ledger : Ledger) : Storage A :=
  { s with control := { s.control with settings := { s.control.settings with
      oracleHeartbeat := some { timestamp := ledger.timestamp, status := 0 } } } }

/-- The heartbeat is missing, offline or too old. -/
def Unhealthy (env : Env A) (s : Storage A) (hb : HbGateConfig) : Prop :=
  checkHeartbeatHealthBlocked s.control.settings hb env.ledger.timestamp = true

/-- A call passes all checks other than those of the heartbeat: it returns when the heartbeat is
live. -/
def Call.PassesOtherChecks [LinearOrder A] (call : Call A) (env : Env A) (s : Storage A) : Prop :=
  Returns call.exec env (s.withLiveHeartbeat env.ledger) fun _ _ => True

/-- A heartbeat of this moment is healthy. -/
theorem not_unhealthy_of_live {env : Env A} {s : Storage A} {hb : HbGateConfig}
    (hlive : s.control.settings.oracleHeartbeat =
      some { timestamp := env.ledger.timestamp, status := 0 }) : ¬ Unhealthy env s hb := by
  have hle := Nat.le_sub_one_of_lt env.ledger.timestamp_lt
  simp only [Unhealthy, checkHeartbeatHealthBlocked, hlive, saturatingAddUint, Bool.or_eq_true,
    not_or]
  refine ⟨by simp, fun hlate => absurd (of_decide_eq_true hlate) (not_lt.mpr (le_min hle ?_))⟩
  exact (le_min hle (Nat.le_add_right _ _)).trans (Nat.le_add_right _ _)

/-- A strict gate config is stored. -/
theorem stored_of_strict {host : Host A} {settings : Settings} {hb : HbGateConfig}
    (hload : settings.hbConfig host = some hb) (hstrict : hb.strictMode = true) :
    settings.config.get (host.encodeConfigKey .hbGateKey) = some (.hbGate hb) := by
  unfold Settings.hbConfig at hload
  split at hload
  · cases hload
    cases hstrict
  · next config hstored =>
      cases hload
      exact hstored
  · cases hload

/-- With a strict gate a live heartbeat is all that a live storage differs in. -/
theorem Storage.withLiveHeartbeat_eq {s : Storage A} {ledger : Ledger} {host : Host A}
    {hb : HbGateConfig} (hload : s.control.settings.hbConfig host = some hb)
    (hstrict : hb.strictMode = true) :
    s.withLiveHeartbeat ledger = s.withHealth host (some ⟨ledger.timestamp, 0⟩)
      s.control.settings.oracleStaleThreshold hb := by
  simp only [Storage.withLiveHeartbeat, Storage.withHealth,
    Store.set_of_get (stored_of_strict hload hstrict)]

/-- What the heartbeat gate promises of a submission. -/
structure KeepsHeartbeatGate [LinearOrder A] (call : Call A) (env : Env A) (s : Storage A) (hb : HbGateConfig) :
    Prop where
  lenient : hb.strictMode = false → ∀ heartbeat staleThreshold graceSeconds,
    IgnoresAt (·.withHealth env.host heartbeat staleThreshold
      { hb with graceSeconds := graceSeconds }) call.exec env s
  overridden : hb.strictMode = true → Unhealthy env s hb →
    (Returns call.exec env s (fun _ _ => True) ↔
      hb.overrideArmed = true ∧ call.PassesOtherChecks env s)
  consumed : hb.strictMode = true → Unhealthy env s hb → Ensures call.exec env s fun _ s' =>
    s'.control.settings.hbConfig env.host = some { hb with overrideArmed := false }
  kept : hb.strictMode = true → ¬ Unhealthy env s hb → Ensures call.exec env s fun _ s' =>
    s'.control.settings.hbConfig env.host = some hb

section Gate

variable {env : Env A} {s : Storage A} {hb : HbGateConfig} {call : Call A} {startLedger : ℕ}

/-- A submission leaves the gate config behind as the gate does. -/
theorem Call.ensures_hbConfig [LinearOrder A] (hbound : call.boundTo = some startLedger)
    (hload : s.control.settings.hbConfig env.host = some hb) :
    Ensures call.exec env s fun _ s' => s'.control.settings.hbConfig env.host =
      some (hb.settle s.control.settings env.ledger.timestamp) := by
  refine Call.ensures_checked hbound fun round finalPrice confidence s₁ _ hchecked => ?_
  refine (ensures_same_control _).mono fun _ s' hsame => ?_
  obtain ⟨hb', hload', hconfig⟩ := hchecked.config
  obtain rfl := Option.some.inj (hload.symm.trans hload')
  rw [hsame]
  unfold HbGateConfig.settle
  split
  · next hblocked =>
      rw [if_pos hblocked] at hconfig
      simp only [Settings.hbConfig, hconfig, Store.get_set_self]
  · next hpasses =>
      rw [if_neg hpasses] at hconfig
      unfold Settings.hbConfig at hload ⊢
      rw [hconfig]
      exact hload

theorem onControl_loadHbConfig (hload : s.control.settings.hbConfig env.host = some hb) :
    onControl loadHbConfig env s = .ok (hb, s) := by
  simp only [onControl, zoom, loadHbConfig_eq, hload]

/-- The gate of a config that loads. -/
theorem heartbeatGate_eq (hload : s.control.settings.hbConfig env.host = some hb) :
    heartbeatGate env s =
      (onlyIf (hb.strictMode = true ∧ checkHeartbeatHealthBlocked s.control.settings hb
          env.ledger.timestamp = true) (do
        reject (hb.overrideArmed = false) .oracleNotLive
        let _ ← onControl consumeHbOverride) : ContractM A PUnit) env s := by
  unfold heartbeatGate
  rw [bind_run (onControl_loadHbConfig hload)]
  rfl

/-- A gate that is not strict, or whose heartbeat is healthy, does nothing. -/
theorem heartbeatGate_passes (hload : s.control.settings.hbConfig env.host = some hb)
    (hpasses : hb.strictMode = true → ¬ Unhealthy env s hb) :
    heartbeatGate env s = .ok (⟨⟩, s) := by
  rw [heartbeatGate_eq hload]
  unfold onlyIf
  rw [if_neg fun h => hpasses h.1 h.2]
  rfl

/-- An armed override passes a strict gate and is consumed. -/
theorem heartbeatGate_consumes (hload : s.control.settings.hbConfig env.host = some hb)
    (hstrict : hb.strictMode = true) (hunhealthy : Unhealthy env s hb)
    (harmed : hb.overrideArmed = true) :
    heartbeatGate env s = .ok (⟨⟩, s.withHealth env.host s.control.settings.oracleHeartbeat
      s.control.settings.oracleStaleThreshold { hb with overrideArmed := false }) := by
  have hconsumed : consumeHbOverride env s.control = .ok (true, (s.withHealth env.host
      s.control.settings.oracleHeartbeat s.control.settings.oracleStaleThreshold
      { hb with overrideArmed := false }).control) := by
    show Transaction.bind loadHbConfig _ env s.control = _
    unfold Transaction.bind
    simp only [loadHbConfig_eq, hload, harmed]
    unfold onlyIf
    rw [if_pos harmed]
    rfl
  rw [heartbeatGate_eq hload]
  unfold onlyIf reject failIf
  rw [if_pos ⟨hstrict, hunhealthy⟩, if_neg (by simp [harmed])]
  show (zoom _ consumeHbOverride >>= fun _ => pure PUnit.unit) env s = _
  show Transaction.bind (zoom _ consumeHbOverride) _ env s = _
  unfold Transaction.bind zoom
  simp only [hconsumed]
  rfl

/-- With an armed override a strict gate does not see whether the heartbeat is live, but for the
override it leaves behind. -/
theorem heartbeatGate_ignoresAt_live (hload : s.control.settings.hbConfig env.host = some hb)
    (hstrict : hb.strictMode = true) (harmed : hb.overrideArmed = true) :
    IgnoresAt (Storage.mask (healthMask env.host (some ⟨env.ledger.timestamp, 0⟩)
      s.control.settings.oracleStaleThreshold hb)) heartbeatGate env s := by
  have hlive := @heartbeatGate_passes _ env (s.withHealth env.host (some ⟨env.ledger.timestamp, 0⟩)
    s.control.settings.oracleStaleThreshold hb) _ (Storage.withHealth_hbConfig _ _ _ _ _)
    fun _ => not_unhealthy_of_live rfl
  refine hlive.trans ?_
  by_cases hunhealthy : Unhealthy env s hb
  · rw [heartbeatGate_consumes hload hstrict hunhealthy harmed]
    simp [Except.map, Storage.mask, Control.mask, healthMask, Storage.withHealth]
  · rw [heartbeatGate_passes hload fun _ => hunhealthy]
    rfl

/-- Without an armed override a strict gate stops an unhealthy heartbeat. -/
theorem heartbeatGate_stops (hload : s.control.settings.hbConfig env.host = some hb)
    (hstrict : hb.strictMode = true) (hunhealthy : Unhealthy env s hb)
    (harmed : hb.overrideArmed = false) : Ensures heartbeatGate env s fun _ _ => False := by
  intro _ _ hrun
  rw [heartbeatGate_eq hload] at hrun
  unfold onlyIf reject failIf at hrun
  rw [if_pos ⟨hstrict, hunhealthy⟩, if_pos harmed] at hrun
  cases hrun

end Gate

/-! ## Several feeds -/

section Feeds

variable {env : Env A} {s : Storage A} {hb : HbGateConfig} {mask : Mask A}

instance [DecidableEq A] : Ignores (Control.mask mask) (authorizedOracle : ControlM A A) := by
  refine .bind (.gets fun _ => rfl) fun _ => ?_
  infer_instance

instance [DecidableEq A] (round : Round) (payloadRoundId : ℕ) (networkId : BytesN 32)
    (contractAddr : A) : Ignores (Storage.mask mask)
      (checkPayloadBinding round payloadRoundId networkId contractAddr) := by
  unfold checkPayloadBinding
  infer_instance

instance (round : Round) (timestamp : ℕ) :
    Ignores (Storage.mask mask) (checkTimestampWindow round timestamp : ContractM A PUnit) := by
  unfold checkTimestampWindow
  refine .bind inferInstance fun _ => .bind inferInstance fun _ => ?_
  exact .bind (.gets fun _ => rfl) inferInstance

instance (maxBps price reference : ℕ) : Ignores (Storage.mask mask)
    (enforceDeviation maxBps price reference : ContractM A PUnit) := by
  unfold enforceDeviation
  refine .bind inferInstance fun _ => .bind inferInstance fun _ => .bind (.gets fun _ => rfl) ?_
  exact fun _ => .bind inferInstance fun _ => .onlyIf (ignores_onControl (.update fun _ => rfl))

instance (roundId nonce : ℕ) :
    Ignores (Storage.mask mask) (consumeNonce roundId nonce : ContractM A PUnit) :=
  .bind (.gets fun _ => rfl) fun _ => .bind inferInstance fun _ => .update fun _ => rfl

instance (round : Round) :
    Ignores (Storage.mask mask) (enforceRoundEnded round : ContractM A PUnit) := by
  unfold enforceRoundEnded
  infer_instance

instance (price timestamp : ℕ) :
    Ignores (Storage.mask mask) (recordTwapSample price timestamp : ContractM A PUnit) :=
  .update fun _ => rfl

variable [LinearOrder A]

/-- Settling several feeds ignores what the gate ignores. -/
theorem resolveRoundMulti_ignoresAt (payload : MultiFeedPayload A)
    (hgate : IgnoresAt (Storage.mask mask) heartbeatGate env s) :
    IgnoresAt (Storage.mask mask) (resolveRoundMulti payload) env s := by
  unfold resolveRoundMulti ensureNotPaused
  refine .check inferInstance (by simp) fun _ => .check inferInstance (by simp) fun _ => ?_
  refine .check inferInstance (by simp) fun _ => .check inferInstance (by simp) fun _ => ?_
  refine .check inferInstance (by simp [authorizedOracle]) fun _ => ?_
  refine .check inferInstance (by simp) fun _ => .check (.gets fun _ => rfl) (by simp) fun _ => ?_
  refine .check inferInstance (by simp) fun _ => ?_
  refine .check inferInstance (by simp [readActiveRound]) fun round => ?_
  refine .check inferInstance
    ((checkPayloadBinding_spec _ _ _ _).mono fun _ _ h => h.1) fun _ => ?_
  refine .check inferInstance (checkTimestampWindow_same _ _) fun _ => ?_
  refine hgate.bind (fun _ _ _ => trivial) fun _ s' _ => Ignores.ignoresAt ?_
  repeat' first
    | infer_instance
    | exact .gets fun _ => rfl
    | refine .bind ?_ fun _ => ?_

/-- Settling several feeds stops where the gate stops. -/
theorem resolveRoundMulti_stops (payload : MultiFeedPayload A)
    (hgate : Ensures heartbeatGate env s fun _ _ => False) :
    Ensures (resolveRoundMulti payload) env s fun _ _ => False := by
  simp only [resolveRoundMulti, ensures_bind, ensures_onControl, ensures_requireSupportedSchema,
    ensures_reject, authorizedOracle, ensures_gets, ensures_orError, ensures_requireAuth,
    ensures_pure, ensureNotPaused, ensures_policyGate, readActiveRound]
  intro _ _ _ _ _ _ _ _ _ _ round _
  refine (checkPayloadBinding_spec _ _ _ _).mono ?_
  rintro _ _ ⟨rfl, -⟩
  refine (checkTimestampWindow_same _ _).mono ?_
  rintro _ _ rfl
  exact hgate.mono fun _ _ hfalse => hfalse.elim

/-- Settling several feeds keeps what the gate promises. -/
theorem resolveRoundMulti_keeps (payload : MultiFeedPayload A)
    (hload : s.control.settings.hbConfig env.host = some hb) :
    KeepsHeartbeatGate (.resolveRoundMulti payload) env s hb where
  lenient hlenient heartbeat staleThreshold graceSeconds := by
    refine @resolveRoundMulti_ignoresAt _ _ _ (healthMask env.host heartbeat staleThreshold
      { hb with graceSeconds := graceSeconds }) _ payload ?_
    have hpasses : hb.strictMode = true → ¬ Unhealthy env s hb := by simp [hlenient]
    have hpasses' := @heartbeatGate_passes _ env (s.withHealth env.host heartbeat staleThreshold
      { hb with graceSeconds := graceSeconds }) _ (Storage.withHealth_hbConfig _ _ _ _ _)
      (by simp [hlenient])
    exact hpasses'.trans (by rw [heartbeatGate_passes hload hpasses]; rfl)
  overridden hstrict hunhealthy := by
    cases harmed : hb.overrideArmed with
    | false =>
        have hstops := resolveRoundMulti_stops payload
          (heartbeatGate_stops hload hstrict hunhealthy harmed)
        refine ⟨fun hreturns => ?_, fun hpasses => absurd hpasses.1 (by simp)⟩
        obtain ⟨_, _, -, -, hfalse⟩ := Returns.and hreturns hstops
        exact hfalse.elim
    | true =>
        have hgate := (heartbeatGate_ignoresAt_live hload hstrict harmed)
        have hignores := resolveRoundMulti_ignoresAt payload hgate
        simp only [Call.PassesOtherChecks, Storage.withLiveHeartbeat_eq hload hstrict, true_and]
        exact hignores.returns_iff.symm
  consumed hstrict hunhealthy := by
    refine (Call.ensures_hbConfig rfl hload).mono fun _ s' hconfig => ?_
    rw [hconfig, HbGateConfig.settle, if_pos ⟨hstrict, hunhealthy⟩]
  kept hstrict hhealthy := by
    refine (Call.ensures_hbConfig rfl hload).mono fun _ s' hconfig => ?_
    rw [hconfig, HbGateConfig.settle, if_neg fun h => hhealthy h.2]

end Feeds

/-! ## A single payload -/

section Single

variable [LinearOrder A] {env : Env A} {s : Storage A} {hb : HbGateConfig}

/-- A single payload passes what stands before the first heartbeat check. -/
structure ReachesHeartbeatCheck (payload : OraclePayload A) (env : Env A) (s : Storage A) :
    Prop where
  supported : SchemaSupported s.control.settings.schemaVersion
  priced : payload.price ≠ 0
  signed : ∃ oracle ∈ env.signers, s.control.governance.oracle = some oracle
  running : s.control.settings.currentMode ≠ .fullyPaused

/-- An unhealthy heartbeat stops a single payload, whatever the strict mode and the override. -/
theorem resolveRound_stops (payload : OraclePayload A)
    (hload : s.control.settings.hbConfig env.host = some hb) (hunhealthy : Unhealthy env s hb) :
    Ensures (resolveRound payload) env s fun _ _ => False := by
  simp only [resolveRound, ensures_bind, ensures_onControl, ensures_requireSupportedSchema,
    ensures_reject, authorizedOracle, ensures_gets, ensures_orError, ensures_requireAuth,
    ensures_pure, ensureNotPaused, ensures_policyGate, ensures_loadHbConfig,
    ensures_ledgerTimestamp]
  intro _ _ _ _ _ _ hb' hload' hhealthy
  obtain rfl := Option.some.inj (hload.symm.trans hload')
  exact absurd hunhealthy hhealthy

/-- A payload that reaches the check reports the unhealthy heartbeat. -/
theorem ReachesHeartbeatCheck.resolveRound_eq {payload : OraclePayload A}
    (hreaches : ReachesHeartbeatCheck payload env s)
    (hload : s.control.settings.hbConfig env.host = some hb) (hunhealthy : Unhealthy env s hb) :
    resolveRound payload env s = .error heartbeatUnhealthy := by
  obtain ⟨oracle, hsigner, horacle⟩ := hreaches.signed
  have hschema : Returns (onControl requireSupportedSchema) env s fun _ s' => s' = s := by
    simpa [requireSupportedSchema, SchemaSupported] using hreaches.supported
  have horacle : Returns (onControl authorizedOracle) env s fun _ s' => s' = s := by
    simp [authorizedOracle, horacle, hsigner]
  have hrunning : Returns (onControl ensureNotPaused) env s fun _ s' => s' = s := by
    have hmode : ¬ s.control.settings.currentMode.blocks .adminConfig := hreaches.running
    simp only [ensureNotPaused, policyGate, returns_onControl, returns_bind, returns_gets,
      returns_reject]
    exact ⟨hmode, trivial⟩
  have hpriced : Returns (reject (payload.price = 0) .invalidPrice : ContractM A PUnit) env s
      fun _ s' => s' = s := by simp [hreaches.priced]
  unfold resolveRound
  refine hschema.bind_check fun _ => hpriced.bind_check fun _ => horacle.bind_check fun _ => ?_
  refine hrunning.bind_check fun _ => ?_
  rw [bind_run (onControl_loadHbConfig hload), @bind_run _ _ _ _ _ ledgerTimestamp _ env s s _ rfl,
    @bind_run _ _ _ _ _ (gets _) _ env s s _ rfl, show checkHeartbeatHealthBlocked _ _ _ = true from hunhealthy]
  rfl

/-- A healthy heartbeat is never reported as unhealthy. -/
theorem resolveRound_avoids (payload : OraclePayload A)
    (hload : s.control.settings.hbConfig env.host = some hb) (hhealthy : ¬ Unhealthy env s hb) :
    AvoidsAt heartbeatUnhealthy (resolveRound payload) env s := by
  have hschema : Avoids heartbeatUnhealthy (requireSupportedSchema : ControlM A ℕ) :=
    .bind inferInstance fun _ => .bind (avoids_reject (by simp)) inferInstance
  have hpriced : Avoids heartbeatUnhealthy
      (reject (payload.price = 0) .invalidPrice : ContractM A PUnit) := avoids_reject (by simp)
  have horacle : Avoids heartbeatUnhealthy (authorizedOracle : ControlM A A) :=
    .bind inferInstance fun _ => .bind (avoids_orError (by simp)) fun _ =>
      .bind (avoids_requireAuth _) inferInstance
  have hrunning : Avoids heartbeatUnhealthy (ensureNotPaused : ControlM A PUnit) :=
    .bind inferInstance fun _ => avoids_reject (by simp)
  unfold resolveRound
  refine .check inferInstance (by simp) fun _ => .check hpriced (by simp) fun _ => ?_
  refine .check inferInstance (by simp [authorizedOracle]) fun _ => ?_
  refine .check inferInstance (by simp [ensureNotPaused]) fun _ => ?_
  unfold AvoidsAt
  rw [bind_run (onControl_loadHbConfig hload), @bind_run _ _ _ _ _ ledgerTimestamp _ env s s _ rfl,
    @bind_run _ _ _ _ _ (gets _) _ env s s _ rfl,
    show checkHeartbeatHealthBlocked _ _ _ = false from Bool.eq_false_iff.mpr hhealthy,
    @bind_run _ _ _ _ _ (reject (false = true) _) _ env s s _ rfl]
  have hrest : ∀ rest : ContractM A PUnit, Avoids heartbeatUnhealthy rest →
      AvoidsAt heartbeatUnhealthy rest env s := fun rest havoids => havoids.avoidsAt env s
  refine hrest _ ?_
  repeat' first
    | infer_instance
    | refine .bind ?_ fun _ => ?_

/-- A payload that does not reach the check is turned down whatever the heartbeat. -/
theorem resolveRound_ignoresAt {payload : OraclePayload A} (mask : Mask A)
    (hshort : ¬ ReachesHeartbeatCheck payload env s) :
    IgnoresAt (Storage.mask mask) (resolveRound payload) env s := by
  have hschema : Ensures (onControl requireSupportedSchema) env s fun _ s' =>
      SchemaSupported s.control.settings.schemaVersion ∧ s' = s := by
    simp [SchemaSupported]
  have hpriced : Ensures (reject (payload.price = 0) .invalidPrice : ContractM A PUnit) env s
      fun _ s' => payload.price ≠ 0 ∧ s' = s := by simp
  have hsigned : Ensures (onControl authorizedOracle) env s fun _ s' =>
      (∃ oracle ∈ env.signers, s.control.governance.oracle = some oracle) ∧ s' = s := by
    simp only [authorizedOracle, ensures_onControl, ensures_bind, ensures_gets, ensures_orError,
      ensures_requireAuth, ensures_pure]
    exact fun oracle horacle hsigner => ⟨⟨oracle, hsigner, horacle⟩, trivial⟩
  have hrunning : Ensures (onControl ensureNotPaused) env s fun _ s' =>
      s.control.settings.currentMode ≠ .fullyPaused ∧ s' = s := by
    simp [ensureNotPaused, RuntimeMode.blocks]
  unfold resolveRound
  refine .bind (Ignores.ignoresAt inferInstance) hschema fun _ _ hsupported => hsupported.2 ▸ ?_
  refine .bind (Ignores.ignoresAt inferInstance) hpriced fun _ _ hpositive => hpositive.2 ▸ ?_
  refine .bind (Ignores.ignoresAt inferInstance) hsigned fun _ _ horacle => horacle.2 ▸ ?_
  refine .bind (Ignores.ignoresAt ?_) hrunning fun _ _ hopen => hopen.2 ▸ ?_
  · unfold ensureNotPaused
    infer_instance
  · exact absurd ⟨hsupported.1, hpositive.1, horacle.1, hopen.1⟩ hshort

/-- The first heartbeat check decides nothing that the gate would decide otherwise: without the strict
mode the payload is turned down before it, and with it no override stands against it. -/
structure FirstCheckAgrees (payload : OraclePayload A) (env : Env A) (s : Storage A)
    (hb : HbGateConfig) : Prop where
  lenient : hb.strictMode = false → ¬ ReachesHeartbeatCheck payload env s
  strict : hb.strictMode = true → Unhealthy env s hb → hb.overrideArmed = true →
    ¬ (Call.resolveRound payload).PassesOtherChecks env s

/-- Settling a single payload keeps what the gate promises when the first check agrees with it. -/
theorem FirstCheckAgrees.keeps {payload : OraclePayload A}
    (hagrees : FirstCheckAgrees payload env s hb)
    (hload : s.control.settings.hbConfig env.host = some hb) :
    KeepsHeartbeatGate (.resolveRound payload) env s hb where
  lenient hlenient heartbeat staleThreshold graceSeconds :=
    resolveRound_ignoresAt (healthMask env.host heartbeat staleThreshold
      { hb with graceSeconds := graceSeconds }) (hagrees.lenient hlenient)
  overridden hstrict hunhealthy := by
    refine ⟨fun hreturns => ?_, fun hpasses => ?_⟩
    · obtain ⟨_, _, -, -, hfalse⟩ :=
        Returns.and hreturns (resolveRound_stops payload hload hunhealthy)
      exact hfalse.elim
    · exact absurd hpasses.2 (hagrees.strict hstrict hunhealthy hpasses.1)
  consumed _ hunhealthy :=
    (resolveRound_stops payload hload hunhealthy).mono fun _ _ hfalse => hfalse.elim
  kept _ hhealthy := by
    refine (Call.ensures_hbConfig rfl hload).mono fun _ s' hconfig => ?_
    rw [hconfig, HbGateConfig.settle, if_neg fun h => hhealthy h.2]

/-- The first check agrees with the gate when settling a single payload keeps what it promises. -/
theorem KeepsHeartbeatGate.agrees {payload : OraclePayload A}
    (hkeeps : KeepsHeartbeatGate (.resolveRound payload) env s hb)
    (hload : s.control.settings.hbConfig env.host = some hb) :
    FirstCheckAgrees payload env s hb where
  lenient hlenient hreaches := by
    have hnone := hkeeps.lenient hlenient none none hb.graceSeconds
    have hlive := hkeeps.lenient hlenient (some ⟨env.ledger.timestamp, 0⟩) none hb.graceSeconds
    -- without a heartbeat the payload fails with the error of the check, so it always does
    have hreached : ReachesHeartbeatCheck payload env (s.withHealth env.host none none hb) :=
      ⟨hreaches.supported, hreaches.priced, hreaches.signed, hreaches.running⟩
    have herror := hreached.resolveRound_eq (Storage.withHealth_hbConfig _ _ _ _ _) rfl
    have hfails : resolveRound payload env s = .error heartbeatUnhealthy := by
      have hmap := hnone.symm.trans herror
      have hexec : (Call.resolveRound payload).exec env s = resolveRound payload env s := rfl
      rw [hexec] at hmap
      cases hrun : resolveRound payload env s with
      | error failure =>
          rw [hrun] at hmap
          exact congrArg Except.error (Except.error.inj hmap)
      | ok result =>
          rw [hrun] at hmap
          cases hmap
    refine resolveRound_avoids payload (Storage.withHealth_hbConfig _ _ _ _ _)
      (not_unhealthy_of_live rfl) (hlive.trans ?_)
    show (resolveRound payload env s).map _ = _
    rw [hfails]
    rfl
  strict hstrict hunhealthy harmed hpasses := by
    obtain ⟨_, _, -, -, hfalse⟩ := Returns.and
      ((hkeeps.overridden hstrict hunhealthy).mpr ⟨harmed, hpasses⟩)
      (resolveRound_stops payload hload hunhealthy)
    exact hfalse.elim

end Single

/-- For either submission the heartbeat gate keeps its promises in a reachable state if and only if
the first heartbeat check of the single payload agrees with it. -/
theorem heartbeat_gate_iff [LinearOrder A] {host : Host A} {chain : Chain A}
    (hapart : StoresHbApart host) (hreachable : Reachable host chain) (signers : List A)
    (payload : OraclePayload A) (feeds : MultiFeedPayload A) :
    ∃ hb, chain.storage.control.settings.hbConfig host = some hb ∧
      (KeepsHeartbeatGate (.resolveRound payload) ⟨host, chain.ledger, signers⟩ chain.storage hb ∧
          KeepsHeartbeatGate (.resolveRoundMulti feeds) ⟨host, chain.ledger, signers⟩
            chain.storage hb ↔
        FirstCheckAgrees payload ⟨host, chain.ledger, signers⟩ chain.storage hb) := by
  obtain ⟨hb, hload⟩ := hreachable.hb_loads hapart
  refine ⟨hb, hload, fun hkeeps => hkeeps.1.agrees hload, fun hagrees => ⟨hagrees.keeps hload, ?_⟩⟩
  exact resolveRoundMulti_keeps feeds hload

/-- A host that stores the three configurations apart. -/
def apartHost : Host ℕ :=
  { trialHost with
    encodeConfigKey := fun
      | .deviationConfigKey => "Deviation"
      | .attestationConfigKey => "Attestation"
      | .hbGateKey => "HbGate" }

theorem apartHost_storesHbApart : StoresHbApart apartHost := by
  intro key hkey
  cases key with
  | hbGateKey => exact absurd rfl hkey
  | deviationConfigKey | attestationConfigKey => decide

/-- The gate is strict and its override armed, and the run of a round is over. -/
def strictRound : List (Action ℕ) := trialSetup ++ [
  .invoke [1] (.control (.setHbStrictMode true)),
  .invoke [1] (.control .armHbOverride),
  .invoke [1] (.createRound 100 (some 0)),
  .invoke [3] (.placeBet 3 70 .up),
  .invoke [4] (.placeBet 4 30 .down),
  .closeLedger (ledgerAt 20)]

/-- With a heartbeat of this moment both submissions of the trial round keep what the gate
promises. -/
theorem live_heartbeat_keeps : ∃ chain hb, Reachable apartHost chain ∧
    chain.storage.control.settings.hbConfig apartHost = some hb ∧ hb.strictMode = true ∧
    KeepsHeartbeatGate (.resolveRound (trialPayload 1 101 100))
      ⟨apartHost, chain.ledger, [2]⟩ chain.storage hb ∧
    KeepsHeartbeatGate (.resolveRoundMulti (trialFeeds 1 101 100))
      ⟨apartHost, chain.ledger, [2]⟩ chain.storage hb := by
  obtain ⟨trace, chain, hhistory, -, hfits⟩ := exists_history apartHost
    (strictRound ++ [.invoke [2] (.control (.updateOracleHeartbeat 0))])
    (fun chain => decide (chain.storage.control.settings.hbConfig apartHost =
        some ⟨true, true, 0⟩ ∧
      chain.storage.control.settings.oracleHeartbeat = some ⟨chain.ledger.timestamp, 0⟩))
    (by decide +kernel)
  obtain ⟨hstrict, hlive⟩ := of_decide_eq_true hfits
  obtain ⟨hb, hload, hiff⟩ := heartbeat_gate_iff apartHost_storesHbApart ⟨trace, hhistory⟩ [2]
    (trialPayload 1 101 100) (trialFeeds 1 101 100)
  obtain rfl := Option.some.inj (hstrict.symm.trans hload)
  refine ⟨chain, _, ⟨trace, hhistory⟩, hload, rfl, hiff.mpr ⟨nofun, fun _ hunhealthy => ?_⟩⟩
  exact absurd hunhealthy (not_unhealthy_of_live hlive)

/-- The armed override does not pass a payload that only lacks a heartbeat. -/
theorem override_never_consumed : ¬ ∀ (host : Host ℕ) chain signers payload hb,
    StoresHbApart host → Reachable host chain →
    chain.storage.control.settings.hbConfig host = some hb →
    KeepsHeartbeatGate (.resolveRound payload) ⟨host, chain.ledger, signers⟩ chain.storage hb := by
  intro hclaim
  obtain ⟨trace, chain, hhistory, -, hfits⟩ := exists_history apartHost strictRound
    (fun chain => decide (chain.storage.control.settings.hbConfig apartHost =
        some ⟨true, true, 0⟩ ∧
      chain.storage.control.settings.oracleHeartbeat = none ∧
      (resolveRound (trialPayload 1 101 100) ⟨apartHost, chain.ledger, [2]⟩
        (chain.storage.withLiveHeartbeat chain.ledger)).toOption.isSome = true))
    (by decide +kernel)
  obtain ⟨hload, hnone, hpasses⟩ := of_decide_eq_true hfits
  have hunhealthy : Unhealthy ⟨apartHost, chain.ledger, [2]⟩ chain.storage ⟨true, true, 0⟩ := by
    simp [Unhealthy, checkHeartbeatHealthBlocked, hnone]
  have hreturns : (Call.resolveRound (trialPayload 1 101 100)).PassesOtherChecks
      ⟨apartHost, chain.ledger, [2]⟩ chain.storage := by
    cases hrun : resolveRound (trialPayload 1 101 100) ⟨apartHost, chain.ledger, [2]⟩
        (chain.storage.withLiveHeartbeat chain.ledger) with
    | ok result => exact ⟨result.1, result.2, hrun, trivial⟩
    | error failure =>
        rw [hrun] at hpasses
        cases hpasses
  have hkeeps := hclaim apartHost chain [2] (trialPayload 1 101 100) _ apartHost_storesHbApart
    ⟨trace, hhistory⟩ hload
  exact (hkeeps.agrees hload).strict rfl hunhealthy rfl hreturns

end XelmaMarket
