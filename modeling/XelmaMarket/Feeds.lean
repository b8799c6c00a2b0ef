import Mathlib.Data.List.GetD
import XelmaMarket.Arithmetic
import XelmaMarket.Lib.OrderStatistic
import XelmaMarket.OracleGuards

/-!
# Several feeds

A submission of several feeds settles the round at the median of their prices. The median stays
within every interval that holds most of the prices, and enough of them are close to it. How far a
price is from the median is computed in checked arithmetic, so a price that is far enough stops
the submission instead of being left out.
-/

namespace XelmaMarket

open Transaction

/-! ## The median -/

section Median

variable {prices sorted : List ℕ} {price median : ℕ}

theorem insertPrice_perm (price : ℕ) (sorted : List ℕ) :
    (insertPrice price sorted).Perm (price :: sorted) := by
  induction sorted with
  | nil => exact .refl _
  | cons other rest ih =>
      unfold insertPrice
      split
      · exact .refl _
      · exact (ih.cons other).trans (.swap price other rest)

theorem insertPrice_sorted (hsorted : sorted.Pairwise (· ≤ ·)) :
    (insertPrice price sorted).Pairwise (· ≤ ·) := by
  induction sorted with
  | nil => exact List.pairwise_singleton _ _
  | cons other rest ih =>
      obtain ⟨hother, hrest⟩ := List.pairwise_cons.mp hsorted
      unfold insertPrice
      split
      · next hlt =>
          refine List.pairwise_cons.mpr ⟨fun a hmem => ?_, hsorted⟩
          rcases List.mem_cons.mp hmem with rfl | hmem
          · exact hlt.le
          · exact hlt.le.trans (hother a hmem)
      · next hge =>
          refine List.pairwise_cons.mpr ⟨fun a hmem => ?_, ih hrest⟩
          rcases List.mem_cons.mp ((insertPrice_perm price rest).mem_iff.mp hmem) with rfl | hmem
          · exact not_lt.mp hge
          · exact hother a hmem

/-- Sorting by insertion gives the prices in ascending order. -/
theorem sortPrices_sorted (prices : List ℕ) :
    (sortPrices prices).Perm prices ∧ (sortPrices prices).Pairwise (· ≤ ·) := by
  induction prices using List.reverseRec with
  | nil => exact ⟨.refl _, List.Pairwise.nil⟩
  | append_singleton prices price ih =>
      rw [sortPrices, List.foldl_append]
      refine ⟨?_, insertPrice_sorted ih.2⟩
      exact (insertPrice_perm price _).trans ((ih.1.cons price).trans
        (List.perm_append_singleton price prices).symm)

/-- The median as a number: the mean of the two middle prices, which are one for an odd number. -/
def exactMedian (prices : List ℕ) : ℕ :=
  ((sortPrices prices).getD ((prices.length - 1) / 2) 0 +
    (sortPrices prices).getD (prices.length / 2) 0) / 2

/-- The sum of the two middle prices of an even number of prices is an amount of the price type. -/
def MiddlesFit (prices : List ℕ) : Prop :=
  prices.length % 2 = 0 → (sortPrices prices).getD ((prices.length - 1) / 2) 0 +
    (sortPrices prices).getD (prices.length / 2) 0 < 2 ^ 128

instance (prices : List ℕ) : Decidable (MiddlesFit prices) :=
  inferInstanceAs (Decidable (_ → _))

/-- The median is computed when the sum of the middle prices fits. -/
theorem medianPrice_eq (hne : prices ≠ []) :
    medianPrice prices =
      if MiddlesFit prices then .ok (exactMedian prices) else .error (.err .overflow) := by
  have hlength := (sortPrices_sorted prices).1.length_eq
  have hpos : 0 < prices.length := List.length_pos_iff.mpr hne
  have hget : ∀ i, i < prices.length → (sortPrices prices)[i]? =
      some ((sortPrices prices).getD i 0) := by
    intro i hi
    rw [List.getElem?_eq_getElem (by omega), List.getD_eq_getElem _ _ (by omega)]
  unfold medianPrice
  by_cases hodd : prices.length % 2 = 1
  · have hsame : (prices.length - 1) / 2 = prices.length / 2 := by omega
    have hfits : MiddlesFit prices := fun heven => by omega
    simp only [if_pos hodd, hget (prices.length / 2) (by omega), if_pos hfits]
    refine congrArg Except.ok ?_
    unfold exactMedian
    rw [hsame]
    omega
  · have hbefore : prices.length / 2 - 1 = (prices.length - 1) / 2 := by omega
    simp only [if_neg hodd, hbefore, hget ((prices.length - 1) / 2) (by omega),
      hget (prices.length / 2) (by omega), checkedUint]
    have hfits : MiddlesFit prices ↔ (sortPrices prices).getD ((prices.length - 1) / 2) 0 +
        (sortPrices prices).getD (prices.length / 2) 0 < 2 ^ 128 :=
      ⟨fun h => h (by omega), fun h _ => h⟩
    by_cases hsum : MiddlesFit prices
    · rw [if_pos hsum, if_pos (hfits.mp hsum)]
      rfl
    · rw [if_neg hsum, if_neg fun h => hsum (hfits.mpr h)]
      rfl

/-- The median lies in every interval that most prices lie in. -/
theorem exactMedian_within {lo hi : ℕ} (hmost : MostWithin prices lo hi) :
    lo ≤ exactMedian prices ∧ exactMedian prices ≤ hi := by
  obtain ⟨hperm, hsorted⟩ := sortPrices_sorted prices
  have hlength := hperm.length_eq
  have hpos : 0 < prices.length := by
    have hle : (prices.countP fun a => lo ≤ a ∧ a ≤ hi) ≤ prices.length := List.countP_le_length
    unfold MostWithin at hmost
    omega
  have hmiddle : ∀ i, i < prices.length → prices.length ≤ 2 * i + 2 → 2 * i ≤ prices.length →
      lo ≤ (sortPrices prices).getD i 0 ∧ (sortPrices prices).getD i 0 ≤ hi := by
    intro i hi hlower hupper
    rw [List.getD_eq_getElem _ _ (by omega)]
    exact hmost.middle hperm hsorted (by omega) (by omega) (by omega)
  have hfirst := hmiddle ((prices.length - 1) / 2) (by omega) (by omega) (by omega)
  have hsecond := hmiddle (prices.length / 2) (by omega) (by omega) (by omega)
  unfold exactMedian
  omega

end Median

/-! ## Distances -/

section Distances

variable {prices : List ℕ} {price reference threshold : ℕ}

/-- How far a price is from a reference, in basis points of the reference rounded down. -/
def bpsFrom (price reference : ℕ) : ℕ :=
  priceDistance price reference * 10000 / reference

/-- How far a price is from a reference can be computed: the product fits the price type, and the
quotient the type of a rate. -/
def DistanceFits (price reference : ℕ) : Prop :=
  priceDistance price reference * 10000 < 2 ^ 128 ∧ bpsFrom price reference < 2 ^ 32

instance (price reference : ℕ) : Decidable (DistanceFits price reference) :=
  inferInstanceAs (Decidable (_ ∧ _))

/-- The deviation of a price is its distance, when that can be computed. -/
theorem deviationBps_eq (price reference : ℕ) :
    deviationBps price reference =
      if DistanceFits price reference then .ok (bpsFrom price reference)
      else .error (.err .overflow) := by
  have hdistance : (if price ≥ reference then price - reference else reference - price) =
      priceDistance price reference := rfl
  simp only [deviationBps, hdistance, DistanceFits, bpsFrom, checkedUint]
  by_cases hproduct : priceDistance price reference * 10000 < 2 ^ 128
  · simp only [hproduct, if_true, ok_bind, true_and]
  · simp only [hproduct, false_and, if_false]
    rfl

/-- The survivors are counted when the distances of all prices can be computed. -/
theorem countSurvivors_eq (hfew : prices.length < 2 ^ 32) (median threshold : ℕ) :
    countSurvivors prices median threshold =
      if ∀ price ∈ prices, DistanceFits price median then
        .ok (prices.countP fun price => bpsFrom price median ≤ threshold)
      else .error (.err .overflow) := by
  induction prices using List.reverseRec with
  | nil => rfl
  | append_singleton prices price ih =>
      rw [List.length_append, List.length_singleton] at hfew
      have hfits : (∀ other ∈ prices ++ [price], DistanceFits other median) ↔
          (∀ other ∈ prices, DistanceFits other median) ∧ DistanceFits price median := by
        simp only [List.mem_append, List.mem_singleton, or_imp, forall_and, forall_eq]
      have hcount : (prices.countP fun price => bpsFrom price median ≤ threshold) ≤
          prices.length := List.countP_le_length
      unfold countSurvivors at ih ⊢
      rw [List.foldlM_append, ih (by omega)]
      simp only [hfits, List.foldlM_cons, List.foldlM_nil, deviationBps_eq]
      by_cases hearlier : ∀ other ∈ prices, DistanceFits other median
      · simp only [if_pos hearlier, ok_bind]
        by_cases hlast : DistanceFits price median
        · simp only [if_pos hlast, ok_bind, if_pos (And.intro hearlier hlast),
            List.countP_append, List.countP_singleton, decide_eq_true_eq]
          split
          · rw [checkedUint_eq_ok.mpr ⟨rfl, by omega⟩]
            rfl
          · rfl
        · rw [if_neg hlast, if_neg fun h => hlast h.2]
          rfl
      · have hnot : ¬ ((∀ other ∈ prices, DistanceFits other median) ∧
            DistanceFits price median) := fun h => hearlier h.1
        simp only [if_neg hearlier, if_neg hnot]
        rfl

end Distances

/-! ## A submission in parts -/

variable {A : Type}

/-- The deviation guard of several feeds, which compares their median with the start price. -/
def checkMedian (round : Round) (median : ℕ) : ContractM A PUnit := do
  let oracleMaxDeviationBps ← gets (·.control.settings.oracleMaxDeviationBps)
  onSome oracleMaxDeviationBps fun maxBps => enforceDeviation maxBps median round.priceStart

/-- The settlement price of several feeds: their median, within the deviation and with a quorum. -/
def aggregatePrices (quorumConfig : OracleQuorumConfig) (round : Round) (prices : List ℕ) :
    ContractM A ℕ := do
  let median ← medianPrice prices
  reject (median = 0) .invalidPrice
  checkMedian round median
  let survivors ← countSurvivors prices median quorumConfig.outlierThresholdBps
  reject (survivors < quorumConfig.quorumThreshold) .insufficientOracleQuorum
  return median

section Submissions

variable [LinearOrder A]

/-- The checks before the prices of several feeds are aggregated. -/
def checkFeeds (payload : MultiFeedPayload A) : ContractM A (OracleQuorumConfig × Round) := do
  let _ ← onControl requireSupportedSchema
  reject (payload.prices = [] ∨ payload.sources = []) .tooFewObservations
  reject (payload.prices.length ≠ payload.sources.length) .tooFewObservations
  reject (0 ∈ payload.prices) .invalidPrice
  let _ ← onControl authorizedOracle
  onControl ensureNotPaused
  let oracleQuorum ← gets (·.control.settings.oracleQuorum)
  let quorumConfig ← orError oracleQuorum .oracleNotSet
  let round ← readActiveRound .noActiveRound
  checkPayloadBinding round payload.roundId payload.networkId payload.contractAddr
  checkTimestampWindow round payload.timestamp
  heartbeatGate
  consumeNonce round.roundId payload.nonce
  enforceRoundEnded round
  reject (payload.prices.length < quorumConfig.minObservations) .tooFewObservations
  reject (payload.prices.length > maxOracleObservations) .tooFewObservations
  reject (¬ payload.sources.Nodup) .duplicateOracleSource
  return (quorumConfig, round)

/-- A submission of several feeds is its checks, the aggregation of the prices and the settlement at
their median. -/
theorem resolveRoundMulti_eq (payload : MultiFeedPayload A) :
    resolveRoundMulti payload = (do
      let checked ← checkFeeds payload
      let median ← aggregatePrices checked.1 checked.2 payload.prices
      recordTwapSample median payload.timestamp
      settleRoundWithPrice checked.2 median none) := by
  simp only [resolveRoundMulti, checkFeeds, aggregatePrices, checkMedian, bind_bind, return_bind]

/-- What the checks before the aggregation establish. -/
theorem checkFeeds_spec {env : Env A} {s : Storage A} (payload : MultiFeedPayload A) :
    Ensures (checkFeeds payload) env s fun checked _ =>
      s.control.settings.oracleQuorum = some checked.1 ∧ payload.prices ≠ [] ∧
      0 ∉ payload.prices ∧ payload.prices.length ≤ maxOracleObservations ∧
      payload.sources.Nodup := by
  simp only [checkFeeds, ensures_bind, ensures_onControl, ensures_requireSupportedSchema,
    ensures_reject, authorizedOracle, ensures_gets, ensures_orError, ensures_requireAuth,
    ensures_pure, ensureNotPaused, ensures_policyGate, readActiveRound]
  intro _ hnonempty _ hpositive _ _ _ _ config hconfig round _
  refine (checkPayloadBinding_spec _ _ _ _).mono ?_
  rintro _ _ ⟨rfl, -, -⟩
  refine (checkTimestampWindow_same _ _).mono ?_
  rintro _ _ rfl
  refine heartbeatGate_spec.mono ?_
  rintro _ _ ⟨-, _, -, rfl⟩
  refine (consumeNonce_spec _ _).mono ?_
  rintro _ _ ⟨_, rfl⟩
  simp only [enforceRoundEnded, ensures_bind, ensures_ledgerSequence, ensures_reject]
  intro _ _ hfew hnodup
  exact ⟨hconfig, fun hempty => hnonempty (.inl hempty), hpositive, not_lt.mp hfew,
    not_not.mp hnodup⟩

end Submissions

/-! ## The aggregation -/

section Aggregation

variable {env : Env A} {s : Storage A} {quorumConfig : OracleQuorumConfig} {round : Round}
  {prices : List ℕ}

/-- The guard of the median may consume the override and touches nothing else. -/
theorem checkMedian_spec (round : Round) (median : ℕ) :
    Ensures (checkMedian round median) env s fun _ s' => OracleOnly s s' := by
  simp only [checkMedian, ensures_bind, ensures_gets, ensures_onSome]
  refine ⟨fun maxBps _ => (enforceDeviation_spec _ _ _).mono ?_, fun _ => .refl s⟩
  rintro _ _ ⟨-, armed, rfl⟩
  exact ⟨_, _, _, rfl⟩

/-- The prices that settle a round have a median, and a quorum of them is close to it. -/
theorem aggregatePrices_spec (hne : prices ≠ []) (hfew : prices.length < 2 ^ 32) :
    Ensures (aggregatePrices quorumConfig round prices) env s fun _ _ =>
      MiddlesFit prices ∧ quorumConfig.quorumThreshold ≤ prices.countP fun price =>
        bpsFrom price (exactMedian prices) ≤ quorumConfig.outlierThresholdBps := by
  simp only [aggregatePrices, ensures_bind, ensures_liftM, ensures_reject, ensures_pure,
    medianPrice_eq hne, countSurvivors_eq hfew]
  intro median hmedian _
  refine (checkMedian_spec round median).mono fun _ s' _ survivors hsurvivors henough => ?_
  split at hmedian
  · next hfits =>
      cases hmedian
      split at hsurvivors
      · cases hsurvivors
        exact ⟨hfits, not_lt.mp henough⟩
      · cases hsurvivors
  · cases hmedian

/-- Positive prices have a positive median. -/
theorem exactMedian_pos (hne : prices ≠ []) (hpositive : 0 ∉ prices) : 0 < exactMedian prices := by
  have hmost : MostWithin prices 1 prices.sum := by
    have hall : (prices.countP fun price => 1 ≤ price ∧ price ≤ prices.sum) = prices.length := by
      refine List.countP_eq_length.mpr fun price hmem => decide_eq_true ⟨?_, ?_⟩
      · exact Nat.one_le_iff_ne_zero.mpr fun hzero => hpositive (hzero ▸ hmem)
      · exact List.single_le_sum (fun _ _ => Nat.zero_le _) _ hmem
    have hpos := List.length_pos_iff.mpr hne
    unfold MostWithin
    omega
  exact (exactMedian_within hmost).1

/-- A quorate submission whose median passes the guard has a settlement price if and only if the
sum of its middle prices and the distances of all its prices can be computed. -/
theorem aggregatePrices_returns_iff (hne : prices ≠ []) (hfew : prices.length < 2 ^ 32)
    (hpositive : 0 ∉ prices)
    (hguard : Returns (checkMedian round (exactMedian prices)) env s fun _ _ => True)
    (hquorum : quorumConfig.quorumThreshold ≤ prices.countP fun price =>
      bpsFrom price (exactMedian prices) ≤ quorumConfig.outlierThresholdBps) :
    (Returns (aggregatePrices quorumConfig round prices) env s fun median _ =>
        median = exactMedian prices) ↔
      MiddlesFit prices ∧ ∀ price ∈ prices, DistanceFits price (exactMedian prices) := by
  have hpos := exactMedian_pos hne hpositive
  simp only [aggregatePrices, returns_bind, returns_liftM, returns_reject, returns_pure,
    medianPrice_eq hne, countSurvivors_eq hfew]
  constructor
  · rintro ⟨median, hmedian, -, _, s', -, survivors, hsurvivors, -, -⟩
    split at hmedian
    · next hfits =>
        cases hmedian
        split at hsurvivors
        · next hdistances => exact ⟨hfits, hdistances⟩
        · cases hsurvivors
    · cases hmedian
  · rintro ⟨hfits, hdistances⟩
    refine ⟨_, if_pos hfits, hpos.ne', hguard.mono fun _ _ _ => ?_⟩
    exact ⟨_, if_pos hdistances, not_lt.mpr hquorum, rfl⟩

end Aggregation

/-! ## The claims of a submission -/

section Histories

variable [LinearOrder A] {host : Host A}

/-- Feeds that settle the active round come from different sources and settle it at a price within
every interval that most of their prices lie in, and a quorum of the prices is close to it. -/
theorem feeds_settle_robustly {chain chain' : Chain A} {signers : List A}
    {payload : MultiFeedPayload A} (hreachable : Reachable host chain)
    (hstep : Step host chain (.invoke signers (.resolveRoundMulti payload)) chain') :
    ∃ quorumConfig round median,
      chain.storage.control.settings.oracleQuorum = some quorumConfig ∧
      Settled ⟨host, chain.ledger, signers⟩ chain.storage round median chain'.storage ∧
      payload.sources.Nodup ∧
      (∀ lo hi, MostWithin payload.prices lo hi → lo ≤ median ∧ median ≤ hi) ∧
      quorumConfig.quorumThreshold ≤ payload.prices.countP fun price =>
        bpsFrom price median ≤ quorumConfig.outlierThresholdBps := by
  have hensures : Ensures (resolveRoundMulti payload) ⟨host, chain.ledger, signers⟩ chain.storage
      fun _ _ => ∃ quorumConfig,
        chain.storage.control.settings.oracleQuorum = some quorumConfig ∧
        (medianPrice payload.prices).toOption = some (exactMedian payload.prices) ∧
        payload.sources.Nodup ∧ quorumConfig.quorumThreshold ≤ payload.prices.countP fun price =>
          bpsFrom price (exactMedian payload.prices) ≤ quorumConfig.outlierThresholdBps := by
    rw [resolveRoundMulti_eq]
    refine (checkFeeds_spec payload).bind fun checked s₁ hchecked => ?_
    obtain ⟨hconfig, hne, -, hfew, hnodup⟩ := hchecked
    have hlength : payload.prices.length < 2 ^ 32 := by
      unfold maxOracleObservations at hfew
      omega
    refine (aggregatePrices_spec hne hlength).bind fun median s₂ haggregated => ?_
    have hmedian : (medianPrice payload.prices).toOption = some (exactMedian payload.prices) := by
      rw [medianPrice_eq hne, if_pos haggregated.1]
      rfl
    exact fun _ _ _ => ⟨checked.1, hconfig, hmedian, hnodup, haggregated.2⟩
  obtain ⟨quorumConfig, hconfig, hmedian, hnodup, hquorum⟩ := hstep.ensured hensures
  obtain ⟨round, -, hsettled⟩ := hreachable.healthy.settled hstep hmedian
  exact ⟨quorumConfig, round, _, hconfig, hsettled, hnodup,
    fun _ _ hmost => exactMedian_within hmost, hquorum⟩

/-- The feeds of the trial round settle it between 101 and 101. -/
theorem feed_round_settles_robustly : ∃ (chain chain' : Chain ℕ) (median : ℕ),
    Step trialHost chain (.invoke [2] (.resolveRoundMulti (trialFeeds 1500 101 7600))) chain' ∧
    101 ≤ median ∧ median ≤ 101 := by
  obtain ⟨trace, chain, chain', hhistory, -⟩ := exists_trial feedRound
    (.invoke [2] (.resolveRoundMulti (trialFeeds 1500 101 7600))) (fun _ _ => true)
    (by decide +kernel)
  obtain ⟨hreachable, hstep⟩ := hhistory.last
  obtain ⟨_, _, median, -, -, -, hwithin, -⟩ := feeds_settle_robustly hreachable hstep
  exact ⟨chain, chain', median, hstep, hwithin 101 101 (by decide)⟩

end Histories

/-! ## Outliers -/

section Outliers

variable [LinearOrder A] {env : Env A} {s s₁ : Storage A} {payload : MultiFeedPayload A}
  {checked : OracleQuorumConfig × Round}

/-- A submission of several feeds gets as far as the settlement, at the median. -/
def ProceedsToSettlement (env : Env A) (s : Storage A) (payload : MultiFeedPayload A) : Prop :=
  Returns (do
    let checked ← checkFeeds payload
    aggregatePrices checked.1 checked.2 payload.prices) env s
      fun median _ => median = exactMedian payload.prices

/-- A submission that proceeds ends as the settlement at the median does. -/
theorem ProceedsToSettlement.run (hproceeds : ProceedsToSettlement env s payload) :
    ∃ round s₂, resolveRoundMulti payload env s = (do
      recordTwapSample (exactMedian payload.prices) payload.timestamp
      settleRoundWithPrice round (exactMedian payload.prices) none) env s₂ := by
  obtain ⟨checked, s₁, hchecked, _, s₂, haggregated, rfl⟩ := (returns_bind _ _).mp hproceeds
  refine ⟨checked.2, s₂, ?_⟩
  rw [resolveRoundMulti_eq, bind_run hchecked, bind_run haggregated]

/-- A quorate submission whose median passes the deviation guard proceeds to the settlement if and
only if the middle prices and the distances of all prices are in range. -/
theorem outliers_dropped_iff (hchecked : checkFeeds payload env s = .ok (checked, s₁))
    (hguard : Returns (checkMedian checked.2 (exactMedian payload.prices)) env s₁ fun _ _ => True)
    (hquorum : checked.1.quorumThreshold ≤ payload.prices.countP fun price =>
      bpsFrom price (exactMedian payload.prices) ≤ checked.1.outlierThresholdBps) :
    ProceedsToSettlement env s payload ↔ MiddlesFit payload.prices ∧
      ∀ price ∈ payload.prices, DistanceFits price (exactMedian payload.prices) := by
  obtain ⟨-, hne, hpositive, hfew, -⟩ := (checkFeeds_spec payload).elim hchecked
  have hlength : payload.prices.length < 2 ^ 32 := by
    unfold maxOracleObservations at hfew
    omega
  refine Iff.trans ?_ (aggregatePrices_returns_iff hne hlength hpositive hguard hquorum)
  unfold ProceedsToSettlement Returns
  rw [bind_run hchecked]

/-- The checks let a submission through, its median passes the guard and has a quorum. -/
def isQuorate (env : Env A) (s : Storage A) (payload : MultiFeedPayload A) : Bool :=
  match checkFeeds payload env s with
  | .error _ => false
  | .ok (checked, s₁) =>
      (checkMedian checked.2 (exactMedian payload.prices) env s₁).toBool &&
        decide (checked.1.quorumThreshold ≤ payload.prices.countP fun price =>
          bpsFrom price (exactMedian payload.prices) ≤ checked.1.outlierThresholdBps)

/-- What is checked of a quorate submission. -/
theorem checked_of_isQuorate (hquorate : isQuorate env s payload = true) :
    ∃ checked s₁, checkFeeds payload env s = .ok (checked, s₁) ∧
      (Returns (checkMedian checked.2 (exactMedian payload.prices)) env s₁ fun _ _ => True) ∧
      checked.1.quorumThreshold ≤ payload.prices.countP fun price =>
        bpsFrom price (exactMedian payload.prices) ≤ checked.1.outlierThresholdBps := by
  unfold isQuorate at hquorate
  split at hquorate
  · cases hquorate
  · next checked s₁ hchecked =>
      rw [Bool.and_eq_true, decide_eq_true_eq] at hquorate
      refine ⟨checked, s₁, hchecked, ?_, hquorate.2⟩
      cases hguard : checkMedian checked.2 (exactMedian payload.prices) env s₁ with
      | error failure =>
          rw [hguard] at hquorate
          cases hquorate.1
      | ok result => exact ⟨result.1, result.2, hguard, trivial⟩

end Outliers

/-- Four feeds for the trial round, one of which is far from the others. -/
def wildFeeds (price : ℕ) : MultiFeedPayload ℕ :=
  { trialFeeds 1500 100 7600 with
    prices := [100, 100, price, 100]
    sources := [1, 2, 3, 4] }

/-- A feed at four times the median of the others is left out. -/
theorem wild_feed_dropped : ∃ chain : Chain ℕ, Reachable trialHost chain ∧
    ProceedsToSettlement ⟨trialHost, chain.ledger, [2]⟩ chain.storage (wildFeeds 400) := by
  obtain ⟨trace, chain, hhistory, -, hfits⟩ := exists_trial_history feedRound
    (fun chain => isQuorate ⟨trialHost, chain.ledger, [2]⟩ chain.storage (wildFeeds 400))
    (by decide +kernel)
  obtain ⟨checked, s₁, hchecked, hguard, hquorum⟩ := checked_of_isQuorate hfits
  exact ⟨chain, ⟨trace, hhistory⟩,
    (outliers_dropped_iff hchecked hguard hquorum).mpr (by decide +kernel)⟩

/-- A feed at a hundred million times the median of the others stops the submission. -/
theorem wild_feed_fatal : ¬ ∀ (chain : Chain ℕ) signers payload checked s₁,
    Reachable trialHost chain →
    checkFeeds payload ⟨trialHost, chain.ledger, signers⟩ chain.storage = .ok (checked, s₁) →
    (Returns (checkMedian checked.2 (exactMedian payload.prices))
      ⟨trialHost, chain.ledger, signers⟩ s₁ fun _ _ => True) →
    (checked.1.quorumThreshold ≤ payload.prices.countP fun price =>
      bpsFrom price (exactMedian payload.prices) ≤ checked.1.outlierThresholdBps) →
    ProceedsToSettlement ⟨trialHost, chain.ledger, signers⟩ chain.storage payload := by
  intro hclaim
  obtain ⟨trace, chain, hhistory, -, hfits⟩ := exists_trial_history feedRound
    (fun chain =>
      isQuorate ⟨trialHost, chain.ledger, [2]⟩ chain.storage (wildFeeds 10000000000) &&
      !((do
        let checked ← checkFeeds (wildFeeds 10000000000)
        aggregatePrices checked.1 checked.2 (wildFeeds 10000000000).prices)
          ⟨trialHost, chain.ledger, [2]⟩ chain.storage).toBool)
    (by decide +kernel)
  rw [Bool.and_eq_true, Bool.not_eq_true'] at hfits
  obtain ⟨checked, s₁, hchecked, hguard, hquorum⟩ := checked_of_isQuorate hfits.1
  obtain ⟨_, _, hrun, -⟩ := hclaim chain _ _ checked s₁ ⟨trace, hhistory⟩ hchecked hguard hquorum
  rw [hrun] at hfits
  cases hfits.2

end XelmaMarket
