import XelmaMarket.Feeds

/-!
# The deviation override

An armed override lets one price through that is beyond the maximal deviation. The deviation is
computed before the override is looked at, so a price whose deviation is out of range is not let
through, and is not reported as a deviation either.
-/

namespace XelmaMarket

open Transaction

variable {A : Type}

/-- The storage with no override armed. -/
def Storage.disarmed (s : Storage A) : Storage A :=
  { s with control := { s.control with
      settings := { s.control.settings with oracleDeviationOverrideArmed := none } } }

/-- The override is armed. -/
def Settings.armed (settings : Settings) : Bool :=
  settings.oracleDeviationOverrideArmed.getD false

/-- The deviation sections of the two settlement functions: that of a single payload measures its
price against the configured reference, that of several feeds their median against the start
price. -/
inductive DeviationSection (env : Env A) (s : Storage A) : ContractM A PUnit → ℕ → ℕ → Prop where
  | single (round : Round) (price reference : ℕ) (config : DeviationConfig)
      (hload : s.control.settings.deviationConfig env.host = some config)
      (hreference : referencePrice round config env s = .ok (reference, s)) :
      DeviationSection env s (checkDeviation round price) price reference
  | several (round : Round) (median : ℕ) :
      DeviationSection env s (checkMedian round median) median round.priceStart

/-- What an override is for: an armed one lets every price through and is consumed by a price beyond
the limit alone, and without one a price beyond the limit is rejected as that. -/
structure OverrideLaw (env : Env A) (s : Storage A) (guard : ContractM A PUnit)
    (maxBps price reference : ℕ) : Prop where
  armed : s.control.settings.armed = true → Returns guard env s fun _ s' =>
    s' = if maxBps < bpsFrom price reference then s.disarmed else s
  unarmed : s.control.settings.armed = false → maxBps < bpsFrom price reference →
    guard env s = .error (.err .oracleDeviationExceeded)

section Guards

variable {env : Env A} {s : Storage A} {guard : ContractM A PUnit} {maxBps price reference : ℕ}

/-- A check stops the sequence with its error, or lets it go on. -/
theorem reject_bind {σ α : Type} {s : σ} {condition : Prop} [Decidable condition]
    {error : ContractError} {next : PUnit → Transaction (Env A) σ Failure α} :
    (reject condition error >>= next) env s =
      if condition then .error (.err error) else next ⟨⟩ env s := by
  unfold reject failIf
  split
  · rfl
  · rfl

/-- The guard fails with an overflow, with a deviation, or lets the price through. -/
theorem enforceDeviation_eq (hreference : reference ≠ 0) :
    enforceDeviation maxBps price reference env s =
      if ¬ DistanceFits price reference then .error (.err .overflow)
      else if maxBps < bpsFrom price reference then
        if s.control.settings.armed then .ok (⟨⟩, s.disarmed)
        else .error (.err .oracleDeviationExceeded)
      else .ok (⟨⟩, s) := by
  unfold enforceDeviation
  rw [reject_bind, if_neg hreference, deviationBps_eq]
  by_cases hfits : DistanceFits price reference
  · rw [if_pos hfits, if_neg (not_not.mpr hfits)]
    show (reject (bpsFrom price reference > maxBps ∧ s.control.settings.armed = false)
      .oracleDeviationExceeded >>= fun _ =>
        onlyIf (bpsFrom price reference > maxBps ∧ s.control.settings.armed = true)
          (onControl (updateSettings fun settings =>
            { settings with oracleDeviationOverrideArmed := none }))) env s = _
    rw [reject_bind]
    unfold onlyIf
    by_cases hexceeds : maxBps < bpsFrom price reference
    · cases harmed : s.control.settings.armed with
      | true =>
          simp only [gt_iff_lt, hexceeds, reduceCtorEq, and_false, and_true, if_true, if_false]
          rfl
      | false => simp only [gt_iff_lt, hexceeds, and_true, if_true, Bool.false_eq_true, if_false]
    · simp only [gt_iff_lt, hexceeds, false_and, if_false]
      rfl
  · rw [if_neg hfits, if_pos hfits]
    rfl

/-- With a maximal deviation configured, a deviation section is the guard of its price. -/
theorem DeviationSection.eq (hsection : DeviationSection env s guard price reference)
    (hmax : s.control.settings.oracleMaxDeviationBps = some maxBps) :
    guard env s = enforceDeviation maxBps price reference env s := by
  cases hsection with
  | single round price reference config hload hreference =>
      have hreturns : Returns (onControl loadDeviationConfig) env s fun value s' =>
          value = config ∧ s' = s := by
        refine (returns_onControl _ _ _).mpr ⟨config, s.control, ?_, rfl, rfl⟩
        rw [loadDeviationConfig_eq, hload]
      obtain ⟨value, s', hloads, hvalue, hsame⟩ := hreturns
      rw [hvalue, hsame] at hloads
      unfold checkDeviation
      show (onSome s.control.settings.oracleMaxDeviationBps fun maxBps => do
        let deviationConfig ← onControl loadDeviationConfig
        let reference ← referencePrice round deviationConfig
        enforceDeviation maxBps price reference) env s = _
      rw [hmax]
      show (onControl loadDeviationConfig >>= fun deviationConfig =>
        referencePrice round deviationConfig >>= fun reference =>
          enforceDeviation maxBps price reference) env s = _
      rw [bind_run hloads, bind_run hreference]
  | several round median =>
      unfold checkMedian
      show (onSome s.control.settings.oracleMaxDeviationBps fun maxBps =>
        enforceDeviation maxBps price round.priceStart) env s = _
      rw [hmax]
      rfl

/-- The override does what it is for if and only if the deviation of the price can be computed,
unless none is armed and the price is within the limit. -/
theorem override_law_iff (hsection : DeviationSection env s guard price reference)
    (hmax : s.control.settings.oracleMaxDeviationBps = some maxBps) (hreference : 0 < reference) :
    OverrideLaw env s guard maxBps price reference ↔
      DistanceFits price reference ∨
        s.control.settings.armed = false ∧ bpsFrom price reference ≤ maxBps := by
  have hguard := (hsection.eq hmax).trans (enforceDeviation_eq hreference.ne')
  by_cases hfits : DistanceFits price reference
  · rw [if_neg (not_not.mpr hfits)] at hguard
    refine iff_of_true ⟨fun harmed => ?_, fun hunarmed hexceeds => ?_⟩ (.inl hfits)
    · rw [if_pos harmed] at hguard
      refine ⟨⟨⟩, if maxBps < bpsFrom price reference then s.disarmed else s, ?_, rfl⟩
      rw [hguard]
      split <;> rfl
    · rw [hguard, if_pos hexceeds, hunarmed]
      rfl
  · rw [if_pos hfits] at hguard
    constructor
    · intro hlaw
      refine .inr ⟨?_, ?_⟩
      · by_contra harmed
        obtain ⟨_, _, hrun, -⟩ := hlaw.armed (by simpa using harmed)
        rw [hguard] at hrun
        cases hrun
      · by_contra hexceeds
        cases harmed : s.control.settings.armed with
        | true =>
            obtain ⟨_, _, hrun, -⟩ := hlaw.armed harmed
            rw [hguard] at hrun
            cases hrun
        | false =>
            have hrejected := hlaw.unarmed harmed (not_le.mp hexceeds)
            rw [hguard] at hrejected
            cases hrejected
    · rintro (hfits' | ⟨hunarmed, hwithin⟩)
      · exact absurd hfits' hfits
      · refine ⟨fun harmed => ?_, fun _ hexceeds => absurd hexceeds (not_lt.mpr hwithin)⟩
        rw [hunarmed] at harmed
        cases harmed

end Guards

/-! ## The trial round -/

/-- The trial round with an override armed. -/
def overrideRound : List (Action ℕ) := feedRound ++ [
  .invoke [1] (.control .armOracleDeviationOverride)]

/-- The armed override lets twice the start price of the trial round through. -/
theorem armed_override_passes : ∃ (chain : Chain ℕ) (round : Round), Reachable trialHost chain ∧
    OverrideLaw ⟨trialHost, chain.ledger, [2]⟩ chain.storage (checkMedian round 200) 500 200
      round.priceStart := by
  obtain ⟨trace, chain, hhistory, -, hfits⟩ := exists_trial_history overrideRound
    (fun chain => decide (chain.storage.control.settings.oracleMaxDeviationBps = some 500) &&
      chain.storage.rounds.activeRound.any fun round : Round => decide (round.priceStart = 100))
    (by decide +kernel)
  rw [Bool.and_eq_true, decide_eq_true_eq] at hfits
  obtain ⟨round, -, hstart⟩ := (Option.any_eq_true _ _).mp hfits.2
  have hprice : round.priceStart = 100 := of_decide_eq_true hstart
  refine ⟨chain, round, ⟨trace, hhistory⟩, ?_⟩
  exact (override_law_iff (.several round 200) hfits.1 (by omega)).mpr
    (.inl (by rw [hprice]; decide +kernel))

/-- The armed override does not let a hundred million times the start price of the trial round
through. -/
theorem armed_override_blocks : ¬ ∀ (chain : Chain ℕ) signers guard maxBps price reference,
    Reachable trialHost chain →
    DeviationSection ⟨trialHost, chain.ledger, signers⟩ chain.storage guard price reference →
    chain.storage.control.settings.oracleMaxDeviationBps = some maxBps →
    0 < reference → 0 < price →
    OverrideLaw ⟨trialHost, chain.ledger, signers⟩ chain.storage guard maxBps price reference := by
  intro hclaim
  obtain ⟨trace, chain, hhistory, -, hfits⟩ := exists_trial_history overrideRound
    (fun chain => decide (chain.storage.control.settings.oracleMaxDeviationBps = some 500) &&
      chain.storage.control.settings.armed &&
      chain.storage.rounds.activeRound.any fun round : Round => decide (0 < round.priceStart) &&
        !(checkMedian round 10000000000 ⟨trialHost, chain.ledger, [2]⟩ chain.storage).toBool)
    (by decide +kernel)
  rw [Bool.and_eq_true, Bool.and_eq_true, decide_eq_true_eq] at hfits
  obtain ⟨⟨hmax, harmed⟩, hround⟩ := hfits
  obtain ⟨round, -, hstart⟩ := (Option.any_eq_true _ _).mp hround
  rw [Bool.and_eq_true, decide_eq_true_eq, Bool.not_eq_true'] at hstart
  obtain ⟨_, _, hrun, -⟩ := (hclaim chain [2] _ 500 _ _ ⟨trace, hhistory⟩
    (.several round 10000000000) hmax hstart.1 (by decide)).armed harmed
  rw [hrun] at hstart
  cases hstart.2

end XelmaMarket
