import XelmaMarket.Lib.TypedStore
import XelmaMarket.Script

/-!
# The encoded configuration keys

The deviation, attestation and heartbeat gate configs are stored under keys of three types, which
are encoded by the name of their variant alone. Which value was last saved through each of the three
settings, and when the loads return it.
-/

namespace XelmaMarket

open Transaction

variable {A : Type}

/-! ## The encoding -/

/-- The name of a key's variant. -/
def ConfigKey.variantName : ConfigKey → String
  | .deviationConfigKey => "Config"
  | .attestationConfigKey => "Config"
  | .hbGateKey => "Config"

/-- The host stores a unit-variant key under the name of its variant, without the name of the
enumeration. -/
def EncodesVariants (host : Host A) : Prop :=
  ∀ key, host.encodeConfigKey key = key.variantName

/-- Such a host stores the three keys alike. -/
theorem EncodesVariants.alike {host : Host A} (hencodes : EncodesVariants host)
    (key other : ConfigKey) : host.encodeConfigKey other = host.encodeConfigKey key := by
  rw [hencodes key, hencodes other]
  cases key <;> cases other <;> rfl

/-- The key whose type an entry has. -/
def ConfigEntry.key : ConfigEntry → ConfigKey
  | .deviation _ => .deviationConfigKey
  | .attestation _ => .attestationConfigKey
  | .hbGate _ => .hbGateKey

/-! ## The values last saved -/

/-- A value of each of the three settings. -/
structure SavedConfigs where
  deviation : DeviationConfig
  attestation : AttestationConfig
  hbGate : HbGateConfig
  deriving DecidableEq

/-- The defaults of the three settings. -/
def SavedConfigs.default : SavedConfigs where
  deviation := { referenceMode := .startPrice, windowSamples := minTwapWindowSamples }
  attestation := { key := none }
  hbGate := { strictMode := false, overrideArmed := false, graceSeconds := 0 }

/-- The value of a setting as an entry. -/
def SavedConfigs.entry (saved : SavedConfigs) : ConfigKey → ConfigEntry
  | .deviationConfigKey => .deviation saved.deviation
  | .attestationConfigKey => .attestation saved.attestation
  | .hbGateKey => .hbGate saved.hbGate

/-- The key an administrative call saves under. -/
def ControlCall.savesKey : ControlCall A → Option ConfigKey
  | .setDeviationRefMode .. => some .deviationConfigKey
  | .setAttestationKey _ => some .attestationConfigKey
  | .setHbStrictMode _ | .armHbOverride | .setHbGraceSeconds _ => some .hbGateKey
  | _ => none

/-- The values after an administrative call, each setter changing its own. -/
def SavedConfigs.save (saved : SavedConfigs) : ControlCall A → SavedConfigs
  | .setDeviationRefMode mode windowSamples =>
      { saved with deviation := { referenceMode := mode, windowSamples := windowSamples } }
  | .setAttestationKey key => { saved with attestation := { key := key } }
  | .setHbStrictMode enabled => { saved with hbGate := { saved.hbGate with strictMode := enabled } }
  | .armHbOverride => { saved with hbGate := { saved.hbGate with overrideArmed := true } }
  | .setHbGraceSeconds seconds =>
      { saved with hbGate := { saved.hbGate with graceSeconds := seconds } }
  | _ => saved

/-- The heartbeat gate config after a settlement: a strict gate that is blocked consumes the
override. -/
def HbGateConfig.settle (config : HbGateConfig) (settings : Settings) (currentTime : ℕ) :
    HbGateConfig :=
  if config.strictMode = true ∧ checkHeartbeatHealthBlocked settings config currentTime = true then
    { config with overrideArmed := false }
  else
    config

/-- The values after a call. -/
def SavedConfigs.after (saved : SavedConfigs) (settings : Settings) (currentTime : ℕ) :
    Call A → SavedConfigs
  | .control call => saved.save call
  | .resolveRound _ | .resolveRoundMulti _ =>
      { saved with hbGate := saved.hbGate.settle settings currentTime }
  | _ => saved

/-- The values after a transition. -/
def SavedConfigs.record (saved : SavedConfigs) (transition : Transition (Chain A) (Action A)) :
    SavedConfigs :=
  match transition.label with
  | .invoke _ call =>
      saved.after transition.before.storage.control.settings
        transition.before.ledger.timestamp call
  | _ => saved

/-- The values last saved through the three settings. -/
def lastSaved (trace : List (Transition (Chain A) (Action A))) : SavedConfigs :=
  trace.foldl SavedConfigs.record .default

/-- A transition that saves under a key. -/
def SavesKey (transition : Transition (Chain A) (Action A)) (key : ConfigKey) : Prop :=
  ∃ signers call, transition.label = .invoke signers (.control call) ∧ call.savesKey = some key

/-- Each of the three loads returns the given value, in whatever ledger and whoever signs. -/
structure Loads (host : Host A) (control : Control A) (saved : SavedConfigs) : Prop where
  deviation : ∀ ledger signers,
    loadDeviationConfig ⟨host, ledger, signers⟩ control = .ok (saved.deviation, control)
  attestation : ∀ ledger signers,
    loadAttestationConfig ⟨host, ledger, signers⟩ control = .ok (saved.attestation, control)
  hbGate : ∀ ledger signers,
    loadHbConfig ⟨host, ledger, signers⟩ control = .ok (saved.hbGate, control)

/-! ## The loads -/

/-- The entries hold the given value of each setting. -/
abbrev ConfigHolds (host : Host A) (config : Store String ConfigEntry) (saved : SavedConfigs) :
    Prop :=
  TypedStore.Holds host.encodeConfigKey ConfigEntry.key SavedConfigs.default.entry config
    saved.entry

section Loads

variable {host : Host A} {control : Control A} {saved : SavedConfigs}

/-- An entry is read where the host keeps it. -/
theorem readConfigEntry_run (key : ConfigKey) (env : Env A) (control : Control A) :
    readConfigEntry key env control =
      .ok (control.settings.config.get (env.host.encodeConfigKey key), control) :=
  rfl

/-- A load of the deviation config returns what it decodes, and traps otherwise. -/
theorem loadDeviationConfig_eq (env : Env A) (control : Control A) :
    loadDeviationConfig env control =
      match control.settings.deviationConfig env.host with
      | some config => .ok (config, control)
      | none => .error .trap := by
  unfold loadDeviationConfig Settings.deviationConfig
  rw [bind_run (readConfigEntry_run _ env control)]
  cases control.settings.config.get (env.host.encodeConfigKey .deviationConfigKey) with
  | none => rfl
  | some entry => cases entry <;> rfl

theorem loadAttestationConfig_eq (env : Env A) (control : Control A) :
    loadAttestationConfig env control =
      match control.settings.attestationConfig env.host with
      | some config => .ok (config, control)
      | none => .error .trap := by
  unfold loadAttestationConfig Settings.attestationConfig
  rw [bind_run (readConfigEntry_run _ env control)]
  cases control.settings.config.get (env.host.encodeConfigKey .attestationConfigKey) with
  | none => rfl
  | some entry => cases entry <;> rfl

theorem loadHbConfig_eq (env : Env A) (control : Control A) :
    loadHbConfig env control =
      match control.settings.hbConfig env.host with
      | some config => .ok (config, control)
      | none => .error .trap := by
  unfold loadHbConfig Settings.hbConfig
  rw [bind_run (readConfigEntry_run _ env control)]
  cases control.settings.config.get (env.host.encodeConfigKey .hbGateKey) with
  | none => rfl
  | some entry => cases entry <;> rfl

/-- What a load decodes, as an entry. -/
theorem load_eq (settings : Settings) (host : Host A) (key : ConfigKey) :
    TypedStore.load host.encodeConfigKey ConfigEntry.key SavedConfigs.default.entry
        settings.config key =
      match key with
      | .deviationConfigKey => (settings.deviationConfig host).map .deviation
      | .attestationConfigKey => (settings.attestationConfig host).map .attestation
      | .hbGateKey => (settings.hbConfig host).map .hbGate := by
  cases key with
  | deviationConfigKey =>
      unfold TypedStore.load Settings.deviationConfig
      cases settings.config.get (host.encodeConfigKey .deviationConfigKey) with
      | none => rfl
      | some entry => cases entry <;> rfl
  | attestationConfigKey =>
      unfold TypedStore.load Settings.attestationConfig
      cases settings.config.get (host.encodeConfigKey .attestationConfigKey) with
      | none => rfl
      | some entry => cases entry <;> rfl
  | hbGateKey =>
      unfold TypedStore.load Settings.hbConfig
      cases settings.config.get (host.encodeConfigKey .hbGateKey) with
      | none => rfl
      | some entry => cases entry <;> rfl

/-- The entries hold the values that the loads decode. -/
theorem configHolds_iff : ConfigHolds host control.settings.config saved ↔
    control.settings.deviationConfig host = some saved.deviation ∧
      control.settings.attestationConfig host = some saved.attestation ∧
      control.settings.hbConfig host = some saved.hbGate := by
  constructor
  · intro hholds
    have hdeviation := hholds .deviationConfigKey
    have hattestation := hholds .attestationConfigKey
    have hhb := hholds .hbGateKey
    rw [load_eq] at hdeviation hattestation hhb
    exact ⟨by simpa [SavedConfigs.entry] using hdeviation,
      by simpa [SavedConfigs.entry] using hattestation, by simpa [SavedConfigs.entry] using hhb⟩
  · rintro ⟨hdeviation, hattestation, hhb⟩ key
    rw [load_eq]
    cases key <;> simp [SavedConfigs.entry, *]

/-- The three loads return the values that the entries hold. -/
theorem loads_iff : Loads host control saved ↔ ConfigHolds host control.settings.config saved := by
  rw [configHolds_iff]
  constructor
  · intro hloads
    let ledger : Ledger := ⟨0, 0, by decide, by decide⟩
    have hdeviation := hloads.deviation ledger []
    have hattestation := hloads.attestation ledger []
    have hhb := hloads.hbGate ledger []
    rw [loadDeviationConfig_eq] at hdeviation
    rw [loadAttestationConfig_eq] at hattestation
    rw [loadHbConfig_eq] at hhb
    refine ⟨?_, ?_, ?_⟩
    · split at hdeviation
      · next hload => rw [hload]; cases hdeviation; rfl
      · cases hdeviation
    · split at hattestation
      · next hload => rw [hload]; cases hattestation; rfl
      · cases hattestation
    · split at hhb
      · next hload => rw [hload]; cases hhb; rfl
      · cases hhb
  · rintro ⟨hdeviation, hattestation, hhb⟩
    constructor
    · intro ledger signers
      rw [loadDeviationConfig_eq, hdeviation]
    · intro ledger signers
      rw [loadAttestationConfig_eq, hattestation]
    · intro ledger signers
      rw [loadHbConfig_eq, hhb]

end Loads

/-! ## One call -/

/-- A call without an effect on the three settings saves nothing. -/
theorem save_eq_of_plain {call : ControlCall A} (hplain : call.hasOwnEffect = false)
    (saved : SavedConfigs) : saved.save call = saved := by
  cases call <;> first | rfl | cases hplain

/-- The keys other than the one saved keep their values. -/
theorem save_entry_of_ne {call : ControlCall A} {key other : ConfigKey}
    (hsaves : call.savesKey = some key) (hother : other ≠ key) (saved : SavedConfigs) :
    (saved.save call).entry other = saved.entry other := by
  cases call <;> cases hsaves <;> cases other <;> first | rfl | exact absurd rfl hother

/-- A call that rewrites the heartbeat gate config saves the rewritten one. -/
theorem RewritesHb.save {call : ControlCall A} {change : HbGateConfig → HbGateConfig}
    (hrewrites : RewritesHb call change) (saved : SavedConfigs) :
    call.savesKey = some .hbGateKey ∧
      (saved.save call).entry .hbGateKey = .hbGate (change saved.hbGate) := by
  cases hrewrites with
  | strict | arm | grace => exact ⟨rfl, rfl⟩

section Calls

variable [LinearOrder A] {env : Env A} {s s' : Storage A} {call : Call A} {saved : SavedConfigs}

/-- The entries hold the values last saved after a call whose key is encoded like no other. -/
theorem ControlChange.holds (hchange : ControlChange env s call s')
    (hholds : ConfigHolds env.host s.control.settings.config saved)
    (halone : ∀ control key, call = .control control → control.savesKey = some key →
      ∀ other, other ≠ key → env.host.encodeConfigKey other ≠ env.host.encodeConfigKey key) :
    ConfigHolds env.host s'.control.settings.config
      (saved.after s.control.settings env.ledger.timestamp call) := by
  cases hchange with
  | administered call _ heffect =>
      have hset : ∀ key entry, call.savesKey = some key → (saved.save call).entry key = entry →
          entry.key = key → ConfigHolds env.host
            (s.control.withEntry env.host key entry).settings.config (saved.save call) :=
        fun key entry hsaves hentry hkey => hholds.set (halone call key rfl hsaves) hkey hentry
          fun other hother => save_entry_of_ne hsaves hother saved
      show ConfigHolds _ _ (saved.save call)
      generalize s'.control = control at heffect
      cases heffect with
      | deviation mode windowSamples => exact hset _ _ rfl rfl rfl
      | attestation key => exact hset _ _ rfl rfl rfl
      | heartbeat _ change hrewrites config hload =>
          obtain ⟨hsaves, hentry⟩ := hrewrites.save saved
          have hconfig : config = saved.hbGate :=
            Option.some.inj (hload.symm.trans (configHolds_iff.mp hholds).2.2)
          exact hset _ _ hsaves (hconfig ▸ hentry) rfl
      | switched _ mode hswitches =>
          rw [Control.withMode_config]
          cases hswitches <;> exact hholds
      | configured _ payload hplain =>
          rw [save_eq_of_plain hplain]
          cases payload <;> exact hholds
      | other _ _ hplain hsame =>
          rw [save_eq_of_plain hplain, hsame.config]
          exact hholds
      | initialized | approver | proposed | approved | cancelled => exact hholds
  | executed _ _ _ _ hexecutes =>
      rw [hexecutes.control]
      show ConfigHolds _ (Control.enact _ _).settings.config saved
      rw [Control.enact_config]
      exact hholds
  | submitted _ startLedger config armed _ hbound hconsumed hcontrol =>
      rw [hcontrol]
      have hafter : saved.after s.control.settings env.ledger.timestamp call =
          { saved with hbGate :=
            saved.hbGate.settle s.control.settings env.ledger.timestamp } := by
        cases call <;> first | rfl | cases hbound
      rw [hafter]
      obtain ⟨hb, hload, rfl⟩ := hconsumed
      obtain rfl : hb = saved.hbGate :=
        Option.some.inj (hload.symm.trans (configHolds_iff.mp hholds).2.2)
      unfold HbGateConfig.settle
      show ConfigHolds _ (ite _ _ _) _
      split
      · next hblocked =>
          -- a strict gate is not the default, so its entry is stored
          cases hstored : s.control.settings.config.get
              (env.host.encodeConfigKey .hbGateKey) with
          | none =>
              have hdefault := hload
              rw [Settings.hbConfig, hstored] at hdefault
              rw [← Option.some.inj hdefault] at hblocked
              exact absurd hblocked.1 (by decide)
          | some entry =>
              have hsingle : ∀ other, other ≠ ConfigKey.hbGateKey →
                  env.host.encodeConfigKey other ≠ env.host.encodeConfigKey .hbGateKey :=
                fun other hother => hholds.alone hstored hother
              refine hholds.set hsingle rfl rfl ?_
              intro other hother
              cases other <;> first | rfl | exact absurd rfl hother
      · exact hholds
  | kept _ _ hplain hsame =>
      have hafter : saved.after s.control.settings env.ledger.timestamp call = saved := by
        cases call <;> first | rfl | cases hplain
      rw [hsame.config, hafter]
      exact hholds

/-- A call stores at most one entry, of the type of its key; a setting does so under its own key. The
heartbeat gate config is only rewritten when it loads. -/
theorem ControlChange.config_cases (hchange : ControlChange env s call s') :
    (s'.control.settings.config = s.control.settings.config ∧
      ∀ control, call = .control control → control.savesKey = none) ∨
    ∃ entry : ConfigEntry, s'.control.settings.config =
        s.control.settings.config.set (env.host.encodeConfigKey entry.key) entry ∧
      (entry.key = .hbGateKey → s.control.settings.hbConfig env.host ≠ none) ∧
      ∀ control, call = .control control → control.savesKey = some entry.key := by
  have hplainSaves : ∀ control : ControlCall A, control.hasOwnEffect = false →
      control.savesKey = none := by
    intro control hplain
    cases control <;> first | rfl | cases hplain
  cases hchange with
  | administered call _ heffect =>
      have hnothing : call.savesKey = none → ∀ control, Call.control call = .control control →
          control.savesKey = none := fun hnone control hcall => by cases hcall; exact hnone
      have hsaved : ∀ key, call.savesKey = some key → ∀ control,
          Call.control call = .control control → control.savesKey = some key :=
        fun key hsaves control hcall => by cases hcall; exact hsaves
      generalize s'.control = control at heffect
      cases heffect with
      | deviation mode windowSamples =>
          exact .inr ⟨.deviation ⟨mode, windowSamples⟩, rfl, nofun, hsaved _ rfl⟩
      | attestation key => exact .inr ⟨.attestation ⟨key⟩, rfl, nofun, hsaved _ rfl⟩
      | heartbeat _ change hrewrites config hload =>
          exact .inr ⟨.hbGate (change config), rfl, fun _ => by simp [hload],
            hsaved _ (hrewrites.save SavedConfigs.default).1⟩
      | switched _ mode hswitches =>
          refine .inl ⟨Control.withMode_config _ _, hnothing ?_⟩
          cases hswitches <;> rfl
      | configured _ payload hplain =>
          refine .inl ⟨?_, hnothing (hplainSaves _ hplain)⟩
          cases payload <;> rfl
      | other _ _ hplain hsame => exact .inl ⟨hsame.config, hnothing (hplainSaves _ hplain)⟩
      | initialized | approver | proposed | approved | cancelled => exact .inl ⟨rfl, hnothing rfl⟩
  | executed _ _ _ _ hexecutes =>
      refine .inl ⟨?_, nofun⟩
      rw [hexecutes.control]
      exact Control.enact_config _ _
  | submitted _ _ config _ _ hbound hconsumed hcontrol =>
      have hcall : ∀ control, call ≠ .control control := by
        rintro control rfl
        cases hbound
      obtain ⟨hb, hload, rfl⟩ := hconsumed
      rw [hcontrol]
      by_cases hblocked : hb.strictMode = true ∧
          checkHeartbeatHealthBlocked s.control.settings hb env.ledger.timestamp = true
      · exact .inr ⟨.hbGate { hb with overrideArmed := false }, if_pos hblocked,
          fun _ => by simp [hload], fun control h => absurd h (hcall control)⟩
      · exact .inl ⟨if_neg hblocked, fun control h => absurd h (hcall control)⟩
  | kept _ _ hplain hsame =>
      refine .inl ⟨hsame.config, ?_⟩
      rintro control rfl
      cases hplain

end Calls

/-! ## Histories -/

section Histories

variable [LinearOrder A] {host : Host A} {chain : Chain A}
  {trace : List (Transition (Chain A) (Action A))}

/-- A stored entry is replaced at most. -/
theorem Step.config_kept {action : Action A} {chain' : Chain A} (hstep : Step host chain action chain')
    {encoded : String} (hstored : chain.storage.control.settings.config.get encoded ≠ none) :
    chain'.storage.control.settings.config.get encoded ≠ none := by
  rcases hstep.administration with ⟨signers, call, rfl, hchange⟩ | ⟨-, hsame⟩
  · rcases hchange.config_cases with ⟨hconfig, -⟩ | ⟨entry, hconfig, -⟩
    · rw [hconfig]
      exact hstored
    · rw [hconfig, Store.get_set]
      split
      · nofun
      · exact hstored
  · rw [hsame]
    exact hstored

/-- A setting stores an entry under its key. -/
theorem Step.config_saved {signers : List A} {control : ControlCall A} {chain' : Chain A}
    {key : ConfigKey} (hstep : Step host chain (.invoke signers (.control control)) chain')
    (hsaves : control.savesKey = some key) :
    chain'.storage.control.settings.config.get (host.encodeConfigKey key) ≠ none := by
  rcases hstep.controlChange.config_cases with ⟨-, hnothing⟩ | ⟨entry, hconfig, -, hsaved⟩
  · cases (hnothing control rfl).symm.trans hsaves
  · obtain rfl := Option.some.inj ((hsaved control rfl).symm.trans hsaves)
    rw [hconfig, Store.get_set_self]
    nofun

/-- What was saved under a key stays stored. -/
theorem History.config_stored (hhistory : History host trace chain)
    {transition : Transition (Chain A) (Action A)} (hmem : transition ∈ trace) {key : ConfigKey}
    (hsaves : SavesKey transition key) :
    chain.storage.control.settings.config.get (host.encodeConfigKey key) ≠ none := by
  obtain ⟨earlier, later, rfl⟩ := List.append_of_mem hmem
  obtain ⟨-, hstep, hlater⟩ := hhistory.cut
  obtain ⟨signers, control, hlabel, hkey⟩ := hsaves
  rw [hlabel] at hstep
  exact hlater.invariant (fun chain =>
    chain.storage.control.settings.config.get (host.encodeConfigKey key) ≠ none)
    (hstep.config_saved hkey) fun _ _ hstep hstored => hstep.config_kept hstored

/-- Every key saved under is encoded like no other of the three. -/
def SavesApart (host : Host A) (trace : List (Transition (Chain A) (Action A))) : Prop :=
  ∀ transition ∈ trace, ∀ key other, SavesKey transition key → other ≠ key →
    host.encodeConfigKey other ≠ host.encodeConfigKey key

/-- In a history that saves under keys encoded apart the entries hold what was last saved. -/
theorem History.configHolds (hhistory : History host trace chain) (hapart : SavesApart host trace) :
    ConfigHolds host chain.storage.control.settings.config (lastSaved trace) := by
  obtain ⟨ledger, hrun⟩ := hhistory
  revert hapart
  refine hrun.invariant_of_trace (fun trace chain => SavesApart host trace →
    ConfigHolds host chain.storage.control.settings.config (lastSaved trace))
    (fun _ => TypedStore.holds_empty) ?_
  intro earlier last _ hstep hinv hapart
  have hholds := hinv fun transition hmem => hapart transition (List.mem_append_left _ hmem)
  have hrecord : lastSaved (earlier ++ [last]) = (lastSaved earlier).record last := by
    simp [lastSaved]
  rw [hrecord]
  rcases hstep.administration with ⟨signers, call, hlabel, hchange⟩ | ⟨hidle, hsame⟩
  · simp only [SavedConfigs.record, hlabel]
    refine hchange.holds hholds ?_
    rintro control key rfl hkey other hother
    exact hapart last (by simp) key other ⟨signers, control, hlabel, hkey⟩ hother
  · rw [hsame]
    cases hlabel : last.label with
    | invoke signers call => exact absurd hlabel (hidle signers call)
    | closeLedger | expire =>
        simp only [SavedConfigs.record, hlabel]
        exact hholds

/-- At the end of a history each of the three loads returns the value last saved through its own
setting, without a trap, if and only if every key the history saved under is encoded like no other
of the three. A host that encodes the keys by the names of their variants encodes all three alike:
there it must have saved nothing. -/
theorem config_loads_iff (hhistory : History host trace chain) :
    (Loads host chain.storage.control (lastSaved trace) ↔ SavesApart host trace) ∧
      (EncodesVariants host → (Loads host chain.storage.control (lastSaved trace) ↔
        ∀ transition ∈ trace, ∀ key, ¬ SavesKey transition key)) := by
  have hiff : Loads host chain.storage.control (lastSaved trace) ↔ SavesApart host trace := by
    rw [loads_iff]
    refine ⟨fun hholds transition hmem key other hsaves hother => ?_, hhistory.configHolds⟩
    obtain ⟨entry, hentry⟩ := Option.ne_none_iff_exists'.mp (hhistory.config_stored hmem hsaves)
    exact hholds.alone hentry hother
  refine ⟨hiff, fun hencodes => hiff.trans ⟨fun hapart transition hmem key hsaves => ?_,
    fun hnothing transition hmem key other hsaves => absurd hsaves (hnothing transition hmem key)⟩⟩
  obtain ⟨other, hother⟩ : ∃ other : ConfigKey, other ≠ key := by
    cases key with
    | deviationConfigKey => exact ⟨.hbGateKey, nofun⟩
    | attestationConfigKey | hbGateKey => exact ⟨.deviationConfigKey, nofun⟩
  exact hapart transition hmem key other hsaves hother (hencodes.alike key other)

end Histories

/-- The trial host stores the three keys under one name. -/
theorem trialHost_encodesVariants : EncodesVariants trialHost := by
  intro key
  cases key <;> rfl

/-- A trial history with settlements that never touches the three settings loads the defaults. -/
theorem config_loads_default : ∃ trace chain, History trialHost trace chain ∧
    Loads trialHost chain.storage.control (lastSaved trace) := by
  obtain ⟨trace, chain, hhistory, hlabels, -⟩ := exists_trial_history overlappingRounds
    (fun _ => true) (by decide +kernel)
  refine ⟨trace, chain, hhistory,
    ((config_loads_iff hhistory).2 trialHost_encodesVariants).mpr ?_⟩
  rintro transition hmem key ⟨signers, control, hlabel, hkey⟩
  have hlisted : transition.label ∈ overlappingRounds := hlabels ▸ List.mem_map_of_mem hmem
  rw [hlabel] at hlisted
  simp only [overlappingRounds, trialSetup, List.cons_append, List.nil_append, List.mem_cons,
    Action.invoke.injEq, Call.control.injEq, reduceCtorEq, and_false, List.not_mem_nil, or_false,
    false_or] at hlisted
  rcases hlisted with ⟨-, rfl⟩ | ⟨-, rfl⟩ | ⟨-, rfl⟩ <;> cases hkey

/-- After the administrator has set an attestation key, the heartbeat gate config does not load. -/
theorem attestation_blocks_heartbeat :
    ¬ ∀ (trace : List (Transition (Chain ℕ) (Action ℕ))) chain, History trialHost trace chain →
      Loads trialHost chain.storage.control (lastSaved trace) := by
  intro hclaim
  obtain ⟨trace, chain, hhistory, -, hfits⟩ := exists_trial_history
    (trialSetup ++ [.invoke [1] (.control (.setAttestationKey (some (Vector.replicate 32 7))))])
    (fun chain => decide (chain.storage.control.settings.hbConfig trialHost = none))
    (by decide +kernel)
  have htraps := loadHbConfig_eq ⟨trialHost, chain.ledger, []⟩ chain.storage.control
  rw [show chain.storage.control.settings.hbConfig trialHost = none from
    of_decide_eq_true hfits] at htraps
  cases htraps.symm.trans ((hclaim trace chain hhistory).hbGate chain.ledger [])

end XelmaMarket
