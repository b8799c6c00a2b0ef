import XelmaMarket.ConfigKeys

/-!
# The guards of a submission

What the two resolving calls demand of a submission: the attestation of a single payload, and the
deviation guard of both. On a host that encodes the three configuration keys alike, an attestation
or deviation config that is stored keeps every submission out, since the heartbeat gate config does
not load.
-/

namespace XelmaMarket

open Transaction

variable {A : Type} [LinearOrder A]

/-! ## Submissions that do not load the heartbeat gate config -/

section Calls

variable {env : Env A} {s : Storage A}

/-- No submission returns when the heartbeat gate config does not load. -/
theorem Call.ensures_loads {call : Call A} {startLedger : ℕ}
    (hbound : call.boundTo = some startLedger) :
    Ensures call.exec env s fun _ _ => s.control.settings.hbConfig env.host ≠ none :=
  Call.ensures_checked hbound fun _ _ _ _ _ hchecked _ _ _ => hchecked.loads

omit [LinearOrder A] in
/-- With the keys encoded alike, a stored entry of another type does not load as a heartbeat gate
config. -/
theorem hbConfig_eq_none {host : Host A} {settings : Settings} {key : ConfigKey}
    {entry : ConfigEntry} (hencodes : EncodesVariants host)
    (hstored : settings.config.get (host.encodeConfigKey key) = some entry)
    (hother : entry.key ≠ .hbGateKey) : settings.hbConfig host = none := by
  unfold Settings.hbConfig
  rw [hencodes.alike key .hbGateKey, hstored]
  cases entry with
  | hbGate config => exact absurd rfl hother
  | deviation | attestation => rfl

omit [LinearOrder A] in
/-- A configured attestation key is stored. -/
theorem stored_of_attestationKey {host : Host A} {settings : Settings} {pubkey : BytesN 32}
    (hkey : settings.attestationConfig host = some { key := some pubkey }) :
    settings.config.get (host.encodeConfigKey .attestationConfigKey) =
      some (.attestation { key := some pubkey }) := by
  unfold Settings.attestationConfig at hkey
  split at hkey
  · cases hkey
  · next config hstored =>
      cases hkey
      exact hstored
  · cases hkey

/-- A single payload that settles the active round is bound to it, to the network and to the
contract, and attested. -/
theorem resolveRound_attested (payload : OraclePayload A) :
    Ensures (resolveRound payload) env s fun _ _ => ∃ round,
      s.rounds.activeRound = some round ∧ payload.roundId = round.startLedger ∧
      payload.networkId = env.host.networkId ∧
      payload.contractAddr = env.host.currentContractAddress ∧
      Attested env.host s.control.settings payload :=
  resolveRound_checked payload fun round _ hchecked hbinding hattested _ _ _ =>
    ⟨round, hchecked.active, hchecked.bound.symm, hbinding.1, hbinding.2, hattested⟩

end Calls

/-! ## The deviation guard -/

section Deviation

variable {env : Env A} {s : Storage A} {round : Round} {price maxBps : ℕ}

/-- The deviation guard of a single payload accepts a price. -/
def AcceptsDeviation (env : Env A) (s : Storage A) (round : Round) (price : ℕ) : Prop :=
  Returns (checkDeviation round price) env s fun _ _ => True

omit [LinearOrder A] in
/-- The guard accepts nothing when the deviation config does not load. -/
theorem AcceptsDeviation.loads (haccepts : AcceptsDeviation env s round price)
    (hmax : s.control.settings.oracleMaxDeviationBps = some maxBps) :
    s.control.settings.deviationConfig env.host ≠ none := by
  have hensures : Ensures (checkDeviation round price) env s fun _ _ =>
      s.control.settings.deviationConfig env.host ≠ none := by
    simp only [checkDeviation, ensures_bind, ensures_gets, ensures_onSome, ensures_onControl,
      ensures_loadDeviationConfig]
    refine ⟨fun _ _ config hload _ _ _ _ _ _ => by simp [hload], fun hnone => ?_⟩
    cases hnone.symm.trans hmax
  obtain ⟨_, _, -, -, hloads⟩ := Returns.and haccepts hensures
  exact hloads

omit [LinearOrder A] in
/-- Against the start price the guard accepts what is within the deviation. -/
theorem acceptsDeviation_of_within {windowSamples : ℕ}
    (hload : s.control.settings.deviationConfig env.host =
      some { referenceMode := .startPrice, windowSamples := windowSamples })
    (hmax : s.control.settings.oracleMaxDeviationBps = some maxBps)
    (harmed : s.control.settings.oracleDeviationOverrideArmed.getD false = false)
    (hwithin : WithinDeviation s.control.settings maxBps price round.priceStart) :
    AcceptsDeviation env s round price := by
  obtain ⟨hreference, diffBps, hdiff, hallowed⟩ := hwithin
  have hle : diffBps ≤ maxBps := by simpa [harmed] using hallowed
  have hreturns : Returns (enforceDeviation maxBps price round.priceStart) env s
      fun _ _ => True := by
    simp only [enforceDeviation, returns_bind, returns_reject, returns_liftM, returns_gets,
      returns_onlyIf]
    exact ⟨hreference, diffBps, hdiff, fun hbad => absurd hbad.1 (not_lt.mpr hle),
      fun hbad => absurd hbad.1 (not_lt.mpr hle), fun _ => trivial⟩
  have hloads : Returns (onControl loadDeviationConfig) env s fun config s' =>
      config = { referenceMode := .startPrice, windowSamples := windowSamples } ∧ s' = s := by
    refine (returns_onControl _ _ _).mpr ⟨_, s.control, ?_, rfl, rfl⟩
    rw [loadDeviationConfig_eq, hload]
  simp only [AcceptsDeviation, checkDeviation, returns_bind, returns_gets, returns_onSome]
  refine ⟨fun other hother => ?_, fun hnone => ?_⟩
  · obtain rfl := Option.some.inj (hmax.symm.trans hother)
    refine hloads.mono ?_
    rintro _ _ ⟨rfl, rfl⟩
    exact (returns_pure _).mpr hreturns
  · cases hmax.symm.trans hnone

/-- What a submission of several feeds that settles the active round passed. -/
theorem resolveRoundMulti_within (payload : MultiFeedPayload A) :
    Ensures (resolveRoundMulti payload) env s fun _ _ => ∃ round median,
      s.rounds.activeRound = some round ∧ medianPrice payload.prices = .ok median ∧
      s.control.settings.hbConfig env.host ≠ none ∧
      ∀ maxBps, s.control.settings.oracleMaxDeviationBps = some maxBps →
        WithinDeviation s.control.settings maxBps median round.priceStart :=
  resolveRoundMulti_checked payload fun round median _ hchecked hmedian hwithin _ _ _ =>
    ⟨round, median, hchecked.active, hmedian, hchecked.loads, hwithin⟩

end Deviation

/-- With the deviation guard configured and no override armed, the guard of a single payload accepts
the median of the feeds that settle the active round if and only if no heartbeat gate config is
stored. -/
theorem multi_deviation_iff {host : Host A} {chain chain' : Chain A}
    (hencodes : EncodesVariants host) {maxBps : ℕ}
    (hmax : chain.storage.control.settings.oracleMaxDeviationBps = some maxBps)
    (harmed : chain.storage.control.settings.oracleDeviationOverrideArmed.getD false = false)
    {signers : List A} {payload : MultiFeedPayload A}
    (hstep : Step host chain (.invoke signers (.resolveRoundMulti payload)) chain')
    {round : Round} (hactive : chain.storage.rounds.activeRound = some round) {median : ℕ}
    (hmedian : medianPrice payload.prices = .ok median) :
    AcceptsDeviation ⟨host, chain.ledger, signers⟩ chain.storage round median ↔
      chain.storage.control.settings.config.get (host.encodeConfigKey .hbGateKey) = none := by
  obtain ⟨round', median', hactive', hmedian', hloads, hwithin⟩ :=
    hstep.ensured (resolveRoundMulti_within payload)
  obtain rfl := Option.some.inj (hactive.symm.trans hactive')
  obtain rfl := Except.ok.inj (hmedian.symm.trans hmedian')
  have halike := hencodes.alike .deviationConfigKey .hbGateKey
  constructor
  · intro haccepts
    have hdeviation := haccepts.loads hmax
    -- the one entry would have to be of both types
    cases hstored : chain.storage.control.settings.config.get
        (host.encodeConfigKey .hbGateKey) with
    | none => rfl
    | some entry =>
        simp only [Settings.hbConfig, Settings.deviationConfig, ← halike, hstored]
          at hloads hdeviation
        cases entry <;> simp_all
  · intro hnone
    refine @acceptsDeviation_of_within _ _ _ _ _ _ minTwapWindowSamples ?_ hmax harmed
      (hwithin maxBps hmax)
    simp only [Settings.deviationConfig, ← halike, hnone]

/-- Feeds of three sources for the round opened at a ledger. -/
def trialFeeds (startLedger price timestamp : ℕ) : MultiFeedPayload ℕ where
  prices := [price, price, price]
  sources := [1, 2, 3]
  roundId := startLedger
  nonce := 1
  networkId := Vector.replicate 32 1
  contractAddr := 1000
  timestamp := timestamp

/-- A round is open, and several feeds may settle it once its run is over. -/
def feedRound : List (Action ℕ) := trialSetup ++ [
  .invoke [1] (.control (.setOracleQuorumConfig (some ⟨3, 3, 500⟩))),
  .invoke [1] (.control (.scheduleOracleDeviationBps (some 500))),
  .closeLedger (ledgerAt 1500),
  .invoke [] (.control (.applyScheduledChanges .oracleMaxDeviationBps)),
  .invoke [1] (.createRound 100 (some 0)),
  .invoke [3] (.placeBet 3 70 .up),
  .invoke [4] (.placeBet 4 30 .down),
  .closeLedger (ledgerAt 1520),
  .invoke [2] (.control (.updateOracleHeartbeat 0))]

/-- The guard of a single payload accepts the median that settles the trial round. -/
theorem multi_deviation_accepts : ∃ chain round, Reachable trialHost chain ∧
    chain.storage.rounds.activeRound = some round ∧
    AcceptsDeviation ⟨trialHost, chain.ledger, [2]⟩ chain.storage round 101 := by
  obtain ⟨trace, chain, chain', hhistory, hfits⟩ := exists_trial feedRound
    (.invoke [2] (.resolveRoundMulti (trialFeeds 1500 101 7600)))
    (fun chain _ => decide (chain.storage.control.settings.oracleMaxDeviationBps = some 500 ∧
      chain.storage.control.settings.oracleDeviationOverrideArmed.getD false = false ∧
      chain.storage.control.settings.config.get (trialHost.encodeConfigKey .hbGateKey) = none ∧
      chain.storage.rounds.activeRound.isSome = true)) (by decide +kernel)
  obtain ⟨hmax, harmed, hnone, hsome⟩ := of_decide_eq_true hfits
  obtain ⟨round, hactive⟩ := Option.isSome_iff_exists.mp hsome
  obtain ⟨hreachable, hstep⟩ := hhistory.last
  exact ⟨chain, round, hreachable, hactive, (multi_deviation_iff trialHost_encodesVariants hmax
    harmed hstep hactive (by decide)).mpr hnone⟩

/-- Once the strict mode of the heartbeat gate was set, feeds settle the trial round at a price the
guard of a single payload does not accept. -/
theorem multi_evades_deviation : ¬ ∀ (chain chain' : Chain ℕ) maxBps signers payload round median,
    Reachable trialHost chain →
    chain.storage.control.settings.oracleMaxDeviationBps = some maxBps →
    chain.storage.control.settings.oracleDeviationOverrideArmed.getD false = false →
    Step trialHost chain (.invoke signers (.resolveRoundMulti payload)) chain' →
    chain.storage.rounds.activeRound = some round → medianPrice payload.prices = .ok median →
    AcceptsDeviation ⟨trialHost, chain.ledger, signers⟩ chain.storage round median := by
  intro hclaim
  obtain ⟨trace, chain, chain', hhistory, hfits⟩ := exists_trial
    (feedRound ++ [.invoke [1] (.control (.setHbStrictMode true))])
    (.invoke [2] (.resolveRoundMulti (trialFeeds 1500 101 7600)))
    (fun chain _ => decide (chain.storage.control.settings.oracleMaxDeviationBps = some 500 ∧
      chain.storage.control.settings.oracleDeviationOverrideArmed.getD false = false ∧
      chain.storage.control.settings.deviationConfig trialHost = none ∧
      chain.storage.rounds.activeRound.isSome = true)) (by decide +kernel)
  obtain ⟨hmax, harmed, htraps, hsome⟩ := of_decide_eq_true hfits
  obtain ⟨round, hactive⟩ := Option.isSome_iff_exists.mp hsome
  obtain ⟨hreachable, hstep⟩ := hhistory.last
  exact (hclaim chain chain' 500 [2] _ round 101 hreachable hmax harmed hstep hactive
    (by decide)).loads hmax htraps

/-! ## The attestation key over a history -/

section Histories

variable {host : Host A} {chain chain' : Chain A} {trace : List (Transition (Chain A) (Action A))}

/-- A submission fails from a chain whose heartbeat gate config does not load. -/
theorem submit_eq_of_hb_traps (htraps : chain.storage.control.settings.hbConfig host = none)
    {call : Call A} {startLedger : ℕ} (hbound : call.boundTo = some startLedger)
    (signers : List A) : chain.submit host (.invoke signers call) = chain :=
  submit_eq_of_failed fun _ hstep => hstep.ensured (Call.ensures_loads hbound) htraps

/-- With the keys encoded alike, a heartbeat gate config that does not load never does again. -/
theorem Step.hb_traps {action : Action A} (hstep : Step host chain action chain')
    (hencodes : EncodesVariants host)
    (htraps : chain.storage.control.settings.hbConfig host = none) :
    chain'.storage.control.settings.hbConfig host = none := by
  rcases hstep.administration with ⟨signers, call, rfl, hchange⟩ | ⟨-, hsame⟩
  · rcases hchange.config_cases with ⟨hconfig, -⟩ | ⟨entry, hconfig, hloads, -⟩
    · unfold Settings.hbConfig
      rw [hconfig]
      exact htraps
    · refine @hbConfig_eq_none _ _ _ entry.key entry hencodes ?_
        fun hkey => hloads hkey htraps
      rw [hconfig, Store.get_set_self]
  · rw [hsame]
    exact htraps

/-- With the keys encoded alike, the heartbeat gate config does not load any more once another of
the three settings was saved. -/
theorem History.hb_traps (hhistory : History host trace chain) (hencodes : EncodesVariants host)
    {transition : Transition (Chain A) (Action A)} (hmem : transition ∈ trace) {key : ConfigKey}
    (hsaves : SavesKey transition key) (hother : key ≠ .hbGateKey) :
    chain.storage.control.settings.hbConfig host = none := by
  obtain ⟨earlier, later, rfl⟩ := List.append_of_mem hmem
  obtain ⟨-, hstep, hlater⟩ := hhistory.cut
  obtain ⟨signers, control, hlabel, hkey⟩ := hsaves
  rw [hlabel] at hstep
  refine hlater.invariant (fun chain => chain.storage.control.settings.hbConfig host = none) ?_
    fun _ _ hstep htraps => hstep.hb_traps hencodes htraps
  rcases hstep.controlChange.config_cases with ⟨-, hnothing⟩ | ⟨entry, hconfig, -, hsaved⟩
  · cases (hnothing control rfl).symm.trans hkey
  · obtain rfl := Option.some.inj ((hsaved control rfl).symm.trans hkey)
    refine @hbConfig_eq_none _ _ _ entry.key entry hencodes ?_ hother
    rw [hconfig, Store.get_set_self]

omit [LinearOrder A] in
/-- An attestation key that was last saved was saved. -/
theorem exists_savesKey_of_attestation {trace : List (Transition (Chain A) (Action A))}
    {pubkey : BytesN 32} (hkey : (lastSaved trace).attestation.key = some pubkey) :
    ∃ transition ∈ trace, SavesKey transition .attestationConfigKey := by
  induction trace using List.reverseRec with
  | nil => cases hkey
  | append_singleton earlier last ih =>
      by_cases hsaves : SavesKey last .attestationConfigKey
      · exact ⟨last, by simp, hsaves⟩
      · have hkept : (lastSaved (earlier ++ [last])).attestation =
            (lastSaved earlier).attestation := by
          have hrecord : lastSaved (earlier ++ [last]) = (lastSaved earlier).record last := by
            simp [lastSaved]
          rw [hrecord]
          unfold SavedConfigs.record
          split
          · next signers call hlabel =>
              cases call with
              | control call =>
                  cases call with
                  | setAttestationKey key => exact absurd ⟨signers, _, hlabel, rfl⟩ hsaves
                  | _ => rfl
              | _ => rfl
          · rfl
        rw [hkept] at hkey
        obtain ⟨transition, hmem, hsaved⟩ := ih hkey
        exact ⟨transition, List.mem_append_left _ hmem, hsaved⟩

/-- With an attestation key configured, be it the one last set or the one the contract loads, a
submission leaves the chain as it was, or it is a single payload bound to the active round, the
network and the contract whose signature verifies under that key. -/
theorem attestation_not_bypassed (hhistory : History host trace chain)
    (hencodes : EncodesVariants host) {pubkey : BytesN 32}
    (hkey : (lastSaved trace).attestation.key = some pubkey ∨
      chain.storage.control.settings.attestationConfig host = some { key := some pubkey })
    {call : Call A} {startLedger : ℕ} (hbound : call.boundTo = some startLedger)
    (signers : List A) :
    chain.submit host (.invoke signers call) = chain ∨
      ∃ payload round signature, call = .resolveRound payload ∧
        chain.storage.rounds.activeRound = some round ∧ payload.roundId = round.startLedger ∧
        payload.networkId = host.networkId ∧
        payload.contractAddr = host.currentContractAddress ∧
        payload.attestation = some signature ∧
        host.ed25519Verify pubkey (buildAttestationMessage host payload) signature = true := by
  rcases hkey with hkey | hkey
  · obtain ⟨transition, hmem, hsaves⟩ := exists_savesKey_of_attestation hkey
    exact .inl (submit_eq_of_hb_traps (hhistory.hb_traps hencodes hmem hsaves nofun) hbound signers)
  · cases call with
    | resolveRound payload =>
        by_cases hsettles : ∃ chain', Step host chain (.invoke signers (.resolveRound payload)) chain'
        · obtain ⟨chain', hstep⟩ := hsettles
          obtain ⟨round, hactive, hround, hnetwork, hcontract, hattested⟩ :=
            hstep.ensured (resolveRound_attested payload)
          obtain ⟨signature, hsignature, hverified⟩ := hattested pubkey hkey
          exact .inr ⟨payload, round, signature, rfl, hactive, hround, hnetwork, hcontract,
            hsignature, hverified⟩
        · exact .inl (submit_eq_of_failed fun chain' hstep => hsettles ⟨chain', hstep⟩)
    | resolveRoundMulti payload =>
        -- several feeds carry no signature, but with the key stored the heartbeat config traps
        exact .inl (submit_eq_of_hb_traps
          (hbConfig_eq_none hencodes (stored_of_attestationKey hkey) nofun) hbound signers)
    | _ => cases hbound

end Histories

/-- Feeds submitted after an attestation key was set leave the trial round open. -/
theorem attestation_not_bypassed_feeds : ∃ chain, Reachable trialHost chain ∧
    chain.submit trialHost (.invoke [2] (.resolveRoundMulti (trialFeeds 1500 101 7600))) =
      chain := by
  obtain ⟨trace, chain, hhistory, -, hfits⟩ := exists_trial_history
    (feedRound ++ [.invoke [1] (.control (.setAttestationKey (some (Vector.replicate 32 7))))])
    (fun chain => decide (chain.storage.control.settings.attestationConfig trialHost =
      some { key := some (Vector.replicate 32 7) }))
    (by decide +kernel)
  refine ⟨chain, ⟨trace, hhistory⟩, ?_⟩
  have hbound : (Call.resolveRoundMulti (trialFeeds 1500 101 7600)).boundTo = some 1500 := rfl
  rcases attestation_not_bypassed hhistory trialHost_encodesVariants
    (.inr (of_decide_eq_true hfits)) hbound [2] with hsame | ⟨payload, _, _, hcall, -⟩
  · exact hsame
  · cases hcall

end XelmaMarket
