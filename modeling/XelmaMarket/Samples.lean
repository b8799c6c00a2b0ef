import Mathlib.Data.List.DropRight
import XelmaMarket.Script
import XelmaMarket.Proceeds
import XelmaMarket.RoundStatus
import XelmaMarket.Steering
import XelmaMarket.Treasury

/-!
# Price samples

The ring of price samples holds the last prices that were submitted. They are the prices of resolved
rounds, as long as every submission resolves its round at once.
-/

namespace XelmaMarket

open Transaction

variable {A : Type}

/-! ## The ring -/

/-- The recorded samples. -/
def Storage.samples (s : Storage A) : List PriceSample :=
  s.feed.loadTwapSamples

/-- The samples after one more: the oldest beyond the largest window go. -/
def pushSample (sample : PriceSample) (samples : List PriceSample) : List PriceSample :=
  (samples ++ [sample]).rtake maxTwapWindowSamples

/-- A ring of the last samples takes one more. -/
theorem pushSample_rtake (sample : PriceSample) (samples : List PriceSample) :
    pushSample sample (samples.rtake maxTwapWindowSamples) =
      (samples ++ [sample]).rtake maxTwapWindowSamples := by
  have hcap : maxTwapWindowSamples = 63 + 1 := rfl
  rw [pushSample, hcap, List.rtake_concat_succ, List.rtake_concat_succ]
  simp [List.rtake_eq_reverse_take_reverse, List.take_take]

section Calls

instance : Aside (@Storage.samples A) where
  vault _ _ := rfl
  rounds _ _ := rfl
  userRoundOutcome _ _ := rfl
  stats _ _ := rfl
  meter _ _ := rfl

instance : Unarchived (@Storage.samples A) :=
  ⟨fun _ _ _ => rfl⟩

/-- The administration is no place for samples. -/
instance {α : Type} (m : ControlM A α) : Keeps Storage.samples (onControl m) :=
  ⟨fun env s => by rw [ensures_onControl]; exact fun _ _ _ => rfl⟩

theorem recordTwapSample_alters (price timestamp : ℕ) : Alters Storage.samples
    (pushSample ⟨price, timestamp⟩) (recordTwapSample price timestamp : ContractM A PUnit) :=
  fun env s => by simp [recordTwapSample, Storage.samples, Feed.loadTwapSamples, pushSample,
    List.rtake]

instance (maxBps price reference : ℕ) : Keeps Storage.samples
    (enforceDeviation maxBps price reference : ContractM A PUnit) := by
  unfold enforceDeviation
  infer_instance

instance (roundId nonce : ℕ) :
    Keeps Storage.samples (consumeNonce roundId nonce : ContractM A PUnit) := by
  have : Keeps Storage.samples (update fun s => { s with feed := { s.feed with
      consumedOracleNonce := s.feed.consumedOracleNonce.set (roundId, nonce) true } } :
        ContractM A PUnit) := .of_update fun _ => rfl
  unfold consumeNonce
  infer_instance

instance (round : Round) (config : DeviationConfig) :
    Keeps Storage.samples (referencePrice round config : ContractM A ℕ) := by
  unfold referencePrice
  cases config.referenceMode <;> infer_instance

section LinearAddress

variable [LinearOrder A] {env : Env A} {s : Storage A}

omit [LinearOrder A] in
/-- The sample a submission records. -/
def Call.sample : Call A → Option PriceSample
  | .resolveRound payload => some ⟨payload.price, payload.timestamp⟩
  | .resolveRoundMulti payload =>
      (medianPrice payload.prices).toOption.map fun median => ⟨median, payload.timestamp⟩
  | _ => none

/-- A single payload records its price. -/
theorem resolveRound_alters (payload : OraclePayload A) : Alters Storage.samples
    (pushSample ⟨payload.price, payload.timestamp⟩) (resolveRound payload) := by
  unfold resolveRound checkPayloadBinding verifyAttestation checkTimestampWindow checkDeviation
    checkConfidence heartbeatGate enforceRoundEnded
  repeat refine .after inferInstance fun _ => ?_
  exact .before (recordTwapSample_alters _ _) fun _ => inferInstance

/-- Several feeds record their median. -/
theorem resolveRoundMulti_alters (payload : MultiFeedPayload A) {median : ℕ}
    (hmedian : medianPrice payload.prices = .ok median) : Alters Storage.samples
      (pushSample ⟨median, payload.timestamp⟩) (resolveRoundMulti payload) := by
  unfold resolveRoundMulti checkPayloadBinding checkTimestampWindow heartbeatGate
    enforceRoundEnded
  have hpure : ∀ next : ℕ → ContractM A PUnit,
      (liftM (medianPrice payload.prices) >>= next) = next median := by
    intro next
    rw [hmedian]
    rfl
  simp only [hpure]
  repeat refine .after inferInstance fun _ => ?_
  exact .before (recordTwapSample_alters _ _) fun _ => inferInstance

/-- A submission records its sample. -/
theorem Call.ensures_sample {call : Call A} {startLedger : ℕ}
    (hbound : call.boundTo = some startLedger) :
    Ensures call.exec env s fun _ s' => s.rounds.activeRound ≠ none ∧
      ∃ sample, call.sample = some sample ∧ s'.samples = pushSample sample s.samples := by
  have hprice : Ensures call.exec env s fun _ _ => s.rounds.activeRound ≠ none ∧
      call.price ≠ none :=
    Call.ensures_checked hbound fun round finalPrice _ _ hprice hchecked _ _ _ =>
      ⟨by simp [hchecked.active], by simp [hprice]⟩
  cases call with
  | resolveRound payload =>
      refine (hprice.and (resolveRound_alters payload env s)).mono ?_
      exact fun _ s' hs' => ⟨hs'.1.1, _, rfl, hs'.2⟩
  | resolveRoundMulti payload =>
      cases hmedian : medianPrice payload.prices with
      | error failure =>
          refine hprice.mono fun _ _ hpriced => absurd ?_ hpriced.2
          simp [Call.price, hmedian, Except.toOption]
      | ok median =>
          refine (hprice.and (resolveRoundMulti_alters payload hmedian env s)).mono ?_
          exact fun _ s' hs' => ⟨hs'.1.1, _, by simp [Call.sample, hmedian, Except.toOption], hs'.2⟩
  | _ => cases hbound

instance (action : GovAction A) : Keeps Storage.samples (performGovAction action) := by
  cases action <;> unfold performGovAction <;> infer_instance

/-- Every other call leaves the samples alone. -/
theorem Call.ensures_same_samples {call : Call A} (hplain : call.boundTo = none) :
    Ensures call.exec env s fun _ s' => s'.samples = s.samples := by
  have hkept : ∀ {call : Call A}, Keeps Storage.samples call.exec →
      Ensures call.exec env s fun _ s' => s'.samples = s.samples :=
    fun hkeeps => hkeeps.ensures env s
  cases call with
  | resolveRound payload | resolveRoundMulti payload => cases hplain
  | executeGovProposal executor proposalId =>
      refine hkept ?_
      simp only [Call.exec, execute]
      repeat first | infer_instance | refine .bind inferInstance fun _ => ?_
  | migrateSchemaV1ToV2 dryRun | migrateSchemaV2ToV3 dryRun =>
      refine hkept ?_
      simp only [Call.exec, XelmaMarket.migrateSchemaV1ToV2, XelmaMarket.migrateSchemaV2ToV3,
        migrationGate]
      infer_instance
  | _ =>
      refine hkept ?_
      simp only [Call.exec, XelmaMarket.predictPrice]
      infer_instance

end LinearAddress

end Calls

/-! ## The reference price -/

/-- The prices are added up. -/
theorem foldlM_prices {window : List PriceSample} {sum total : ℕ}
    (hsum : window.foldlM (fun sum sample => checkedUint 128 (sum + sample.price) .overflow) sum =
      .ok total) : total = sum + (window.map (·.price)).sum := by
  induction window generalizing sum with
  | nil =>
      cases hsum
      simp
  | cons sample rest ih =>
      rw [List.foldlM_cons] at hsum
      obtain ⟨next, hnext, hrest⟩ := bind_eq_ok.mp hsum
      obtain ⟨rfl, -⟩ := checkedUint_eq_ok.mp hnext
      rw [ih hrest, List.map_cons, List.sum_cons, add_assoc]

/-- The mean of some numbers lies between two of them. -/
theorem mean_between {prices : List ℕ} (hsome : prices ≠ []) :
    (∃ low ∈ prices, low ≤ prices.sum / prices.length) ∧
      ∃ high ∈ prices, prices.sum / prices.length ≤ high := by
  have hpos : 0 < prices.length := List.length_pos_iff.mpr hsome
  constructor
  · by_contra hall
    push Not at hall
    have hmore := List.card_nsmul_le_sum prices _ fun price hprice => hall price hprice
    rw [smul_eq_mul, mul_comm] at hmore
    have hle := (Nat.le_div_iff_mul_le hpos).mpr hmore
    omega
  · by_contra hall
    push Not at hall
    cases hmean : prices.sum / prices.length with
    | zero =>
        rw [hmean] at hall
        exact absurd (hall _ (List.head_mem hsome)) (Nat.not_lt_zero _)
    | succ mean =>
        rw [hmean] at hall
        have hless := List.sum_le_card_nsmul prices mean
          fun price hprice => Nat.le_of_lt_succ (hall price hprice)
        have hfloor := (Nat.le_div_iff_mul_le hpos).mp hmean.ge
        rw [smul_eq_mul] at hless
        have hexpand : (mean + 1) * prices.length = prices.length * mean + prices.length := by ring
        omega

/-- The reference price lies between two prices of its window. -/
theorem twapReferencePrice_between {samples : List PriceSample} {windowSamples reference : ℕ}
    (hreference : twapReferencePrice samples windowSamples = .ok reference) :
    (∃ low ∈ samples.rtake windowSamples, low.price ≤ reference) ∧
      ∃ high ∈ samples.rtake windowSamples, reference ≤ high.price := by
  unfold twapReferencePrice at hreference
  split at hreference
  · cases hreference
  · obtain ⟨sum, hsum, hmean⟩ := bind_eq_ok.mp hreference
    split at hmean
    · cases hmean
    · next hsome =>
        have htotal : sum = ((samples.rtake windowSamples).map (·.price)).sum := by
          rw [foldlM_prices hsum, zero_add]
          rfl
        have hprices : (samples.rtake windowSamples).map (·.price) ≠ [] := by
          intro hnil
          exact hsome (List.length_eq_zero_iff.mpr (List.map_eq_nil_iff.mp hnil))
        obtain rfl : sum / (samples.rtake windowSamples).length = reference := by
          exact Except.ok.inj hmean
        obtain ⟨⟨low, hlow, hbelow⟩, high, hhigh, habove⟩ := mean_between hprices
        rw [← htotal, List.length_map] at hbelow habove
        obtain ⟨lowest, hlowest, rfl⟩ := List.mem_map.mp hlow
        obtain ⟨highest, hhighest, rfl⟩ := List.mem_map.mp hhigh
        exact ⟨⟨lowest, hlowest, hbelow⟩, highest, hhighest, habove⟩

/-! ## Submissions -/

section Histories

/-- The sample a transition submits, under the round it is submitted for. -/
def submission (transition : Transition (Chain A) (Action A)) : Option (ℕ × PriceSample) :=
  match transition.label with
  | .invoke _ call => do
      let round ← transition.before.storage.rounds.activeRound
      let sample ← call.sample
      return (round.roundId, sample)
  | _ => none

/-- The samples submitted so far. -/
def submissions (trace : List (Transition (Chain A) (Action A))) : List (ℕ × PriceSample) :=
  trace.filterMap submission

variable [LinearOrder A] {host : Host A} {chain : Chain A}
  {trace : List (Transition (Chain A) (Action A))}

/-- The round a transition resolves at an oracle price, at once or after its dispute window. -/
def resolution (transition : Transition (Chain A) (Action A)) : Option (ℕ × ℕ) :=
  match transition.label with
  | .invoke _ call => do
      let ending ← call.ending transition.before.storage
      let finalPrice ← ending.kind.price
      return (ending.round.roundId, finalPrice)
  | _ => none

/-- The rounds resolved so far with their final prices, in settlement order. -/
def resolutions (trace : List (Transition (Chain A) (Action A))) : List (ℕ × ℕ) :=
  trace.filterMap resolution

/-- The final prices of the resolved rounds with the timestamps of their payloads, in settlement
order. -/
def settledSamples (trace : List (Transition (Chain A) (Action A))) : List PriceSample :=
  (resolutions trace).filterMap fun resolved =>
    ((submissions trace).lookup resolved.1).map fun sample => ⟨resolved.2, sample.timestamp⟩

/-- The samples are those of the last resolved rounds, and a reference price lies within its
window. -/
structure SamplesSettled (trace : List (Transition (Chain A) (Action A))) (s : Storage A) :
    Prop where
  ring : s.samples = (settledSamples trace).rtake maxTwapWindowSamples
  unsettled : ∀ roundId sample, (roundId, sample) ∈ submissions trace →
    (∀ finalPrice, (roundId, finalPrice) ∉ resolutions trace) → sample ∉ s.samples
  reference : ∀ windowSamples reference,
    twapReferencePrice s.samples windowSamples = .ok reference →
      (∃ low ∈ s.samples.rtake windowSamples, low.price ≤ reference) ∧
        ∃ high ∈ s.samples.rtake windowSamples, reference ≤ high.price

/-- A submission finds the minimum of participants and no dispute window. -/
def SettlesAtOnce (transition : Transition (Chain A) (Action A)) : Prop :=
  ∀ signers call startLedger round, transition.label = .invoke signers call →
    call.boundTo = some startLedger →
    transition.before.storage.rounds.activeRound = some round →
    transition.before.storage.control.settings.belowMinimum
        (transition.before.storage.rounds.participants round.roundId).length = false ∧
      transition.before.storage.control.settings.getDisputeLedgers = 0

omit [LinearOrder A] in
theorem submissions_concat (earlier : List (Transition (Chain A) (Action A)))
    (last : Transition (Chain A) (Action A)) :
    submissions (earlier ++ [last]) = submissions earlier ++ (submission last).toList := by
  unfold submissions
  rw [List.filterMap_append]
  cases hlast : submission last <;> simp [hlast]

omit [LinearOrder A] in
/-- Only a submission submits a sample. -/
theorem Call.sample_eq_none {call : Call A} (hplain : call.boundTo = none) :
    call.sample = none := by
  cases call <;> first | rfl | cases hplain

/-- The ring holds the samples submitted last. -/
theorem History.samples (hhistory : History host trace chain) : chain.storage.samples =
    ((submissions trace).map (·.2)).rtake maxTwapWindowSamples := by
  obtain ⟨ledger, hrun⟩ := hhistory
  refine hrun.invariant_of_trace (fun trace chain => chain.storage.samples =
    ((submissions trace).map (·.2)).rtake maxTwapWindowSamples) rfl ?_
  rintro earlier ⟨before, action, after⟩ _ hstep hring
  rw [submissions_concat, List.map_append]
  obtain ⟨signers, call, rfl⟩ | ⟨hidle, meter, hsame⟩ := hstep.invokes_or_idles
  · cases hbound : call.boundTo with
    | none =>
        have hnothing : submission ⟨before, .invoke signers call, after⟩ = none := by
          simp [submission, Call.sample_eq_none hbound]
        rw [hstep.ensured (Call.ensures_same_samples hbound), hring, hnothing]
        simp
    | some startLedger =>
        obtain ⟨hactive, sample, hsample, hpushed⟩ := hstep.ensured (Call.ensures_sample hbound)
        obtain ⟨round, hround⟩ := Option.ne_none_iff_exists'.mp hactive
        have hactive : before.storage.rounds.activeRound = some round := hround
        have hsubmitted : submission ⟨before, .invoke signers call, after⟩ =
            some (round.roundId, sample) := by
          simp [submission, hactive, hsample]
        rw [hpushed, hring, hsubmitted, pushSample_rtake]
        rfl
  · have hnothing : submission ⟨before, action, after⟩ = none := by
      cases action with
      | invoke signers call => exact absurd rfl (hidle signers call)
      | closeLedger | expire => rfl
    rw [hsame, hnothing, Option.toList_none, List.map_nil, List.append_nil]
    exact hring

omit [LinearOrder A] in
/-- A sample carries the price of its submission. -/
theorem Call.price_of_sample {call : Call A} {sample : PriceSample}
    (hsample : call.sample = some sample) : call.price = some sample.price := by
  cases call with
  | resolveRound payload =>
      obtain rfl := Option.some.inj hsample
      rfl
  | resolveRoundMulti payload =>
      obtain ⟨median, hmedian, rfl⟩ := Option.map_eq_some_iff.mp hsample
      exact hmedian
  | _ => cases hsample

omit [LinearOrder A] in
/-- A step that submits nothing resolves nothing when nothing is staged. -/
theorem resolution_eq_none {transition : Transition (Chain A) (Action A)}
    (hplain : ∀ signers call, transition.label = .invoke signers call → call.boundTo = none)
    (hempty : ∀ id, transition.before.storage.rounds.pendingDisputes.get id = none) :
    submission transition = none ∧ resolution transition = none := by
  obtain ⟨before, action, after⟩ := transition
  cases action with
  | closeLedger | expire => exact ⟨rfl, rfl⟩
  | invoke signers call =>
      have hbound := hplain signers call rfl
      refine ⟨by simp [submission, Call.sample_eq_none hbound], ?_⟩
      cases call with
      | resolveRound | resolveRoundMulti => cases hbound
      | finalizeRound roundId | voidRound roundId =>
          have hnone := hempty roundId
          simp only [] at hnone
          simp [resolution, Call.ending, hnone]
      | cancelRound reason =>
          simp only [resolution, Call.ending]
          cases before.storage.rounds.activeRound <;> rfl
      | _ => rfl

/-- Under the condition a step resolves the round it submits a sample for, and no other. -/
theorem Step.resolves_at_once {transition : Transition (Chain A) (Action A)}
    (hstep : Step host transition.before transition.label transition.after)
    (hhealthy : transition.before.Healthy) (hatonce : SettlesAtOnce transition)
    (hempty : ∀ id, transition.before.storage.rounds.pendingDisputes.get id = none) :
    (submission transition = none ∧ resolution transition = none) ∨
      ∃ round sample, transition.before.storage.rounds.activeRound = some round ∧
        submission transition = some (round.roundId, sample) ∧
        resolution transition = some (round.roundId, sample.price) ∧
        transition.after.storage.rounds.Over round.roundId := by
  by_cases hsubmits : ∃ signers call startLedger, transition.label = .invoke signers call ∧
      call.boundTo = some startLedger
  · obtain ⟨signers, call, startLedger, hlabel, hbound⟩ := hsubmits
    rw [hlabel] at hstep
    obtain ⟨hactive, sample, hsample, -⟩ := hstep.ensured (Call.ensures_sample hbound)
    obtain ⟨round, hround⟩ := Option.ne_none_iff_exists'.mp hactive
    obtain ⟨hminimum, hwindow⟩ := hatonce signers call startLedger round hlabel hbound hround
    have hending : call.ending transition.before.storage =
        some ⟨round, .resolved sample.price⟩ := by
      rw [Call.ending_of_price (Call.price_of_sample hsample)]
      simp [Storage.resolution, hround, hminimum, hwindow]
    have hends := Chain.Healthy.ends hhealthy hstep hending
    refine .inr ⟨round, sample, hround, ?_, ?_, ?_⟩
    · simp [submission, hlabel, hround, hsample]
    · simp [resolution, hlabel, hending, EndingKind.price]
    · exact @Ends.over _ _ ⟨host, transition.before.ledger, signers⟩ _ _ call hhealthy.ordered _
        hending hends
  · refine .inl (resolution_eq_none (fun signers call hlabel => ?_) hempty)
    by_contra hbound
    obtain ⟨startLedger, hbound⟩ := Option.ne_none_iff_exists'.mp hbound
    exact hsubmits ⟨signers, call, startLedger, hlabel, hbound⟩

omit [LinearOrder A] in
/-- A submission that settles at once stages nothing. -/
theorem SettlesAtOnce.not_stages {transition : Transition (Chain A) (Action A)}
    (hatonce : SettlesAtOnce transition) : ¬ StagesRound transition := by
  rintro ⟨signers, call, finalPrice, round, hlabel, hprice, hactive, -, hwindow⟩
  have hbound : ∃ startLedger, call.boundTo = some startLedger := by
    cases call with
    | resolveRound | resolveRoundMulti => exact ⟨_, rfl⟩
    | _ => cases hprice
  obtain ⟨startLedger, hbound⟩ := hbound
  obtain ⟨-, hnone⟩ := hatonce signers call startLedger round hlabel hbound hactive
  omega

omit [LinearOrder A] in
theorem resolutions_concat (earlier : List (Transition (Chain A) (Action A)))
    (last : Transition (Chain A) (Action A)) :
    resolutions (earlier ++ [last]) = resolutions earlier ++ (resolution last).toList := by
  unfold resolutions
  rw [List.filterMap_append]
  cases hlast : resolution last <;> simp [hlast]

/-- A trace that settles at once stages nothing and resolves every round it submits a sample for,
each once. -/
structure SettledAtOnce (trace : List (Transition (Chain A) (Action A))) (chain : Chain A) :
    Prop where
  unstaged : ∀ roundId, chain.storage.rounds.pendingDisputes.get roundId = none
  resolved : resolutions trace = (submissions trace).map fun entry => (entry.1, entry.2.price)
  ended : ∀ entry ∈ submissions trace, chain.storage.rounds.Over entry.1
  once : ((submissions trace).map (·.1)).Nodup

/-- One more step that settles at once. -/
theorem SettledAtOnce.step {earlier : List (Transition (Chain A) (Action A))}
    {transition : Transition (Chain A) (Action A)}
    (hsettled : SettledAtOnce earlier transition.before)
    (hstep : Step host transition.before transition.label transition.after)
    (hhealthy : transition.before.Healthy) (hatonce : SettlesAtOnce transition) :
    SettledAtOnce (earlier ++ [transition]) transition.after := by
  have hunstaged := hstep.unstaged hhealthy hatonce.not_stages hsettled.unstaged
  have hover : ∀ entry ∈ submissions earlier, transition.after.storage.rounds.Over entry.1 :=
    fun entry hentry => Chain.Healthy.over_of_step hhealthy hstep (hsettled.ended entry hentry)
  rcases hstep.resolves_at_once hhealthy hatonce hsettled.unstaged with
    ⟨hsubmits, hresolves⟩ | ⟨round, sample, hround, hsubmits, hresolves, hends⟩
  · have hsame : submissions (earlier ++ [transition]) = submissions earlier := by
      rw [submissions_concat, hsubmits, Option.toList_none, List.append_nil]
    refine ⟨hunstaged, ?_, ?_, ?_⟩
    · rw [hsame, resolutions_concat, hresolves, hsettled.resolved, Option.toList_none,
        List.append_nil]
    · rw [hsame]
      exact hover
    · rw [hsame]
      exact hsettled.once
  · have hmore : submissions (earlier ++ [transition]) =
        submissions earlier ++ [(round.roundId, sample)] := by
      rw [submissions_concat, hsubmits, Option.toList_some]
    refine ⟨hunstaged, ?_, ?_, ?_⟩
    · rw [hmore, resolutions_concat, hresolves, hsettled.resolved, Option.toList_some,
        List.map_append, List.map_singleton]
    · intro entry hentry
      rw [hmore, List.mem_append, List.mem_singleton] at hentry
      rcases hentry with hearlier | rfl
      · exact hover entry hearlier
      · exact hends
    · -- The active round is live, so no sample was submitted for it before.
      rw [hmore, List.map_append, List.map_singleton, List.nodup_append]
      refine ⟨hsettled.once, List.nodup_singleton _, ?_⟩
      intro roundId hmem roundId' hlast heq
      obtain ⟨entry, hentry, rfl⟩ := List.mem_map.mp hmem
      obtain rfl := List.mem_singleton.mp hlast
      exact (hsettled.ended entry hentry).not_live round (heq ▸ .inl ⟨hround, rfl⟩)

/-- A history whose submissions all settle at once. -/
theorem History.settledAtOnce (hhistory : History host trace chain)
    (hatonce : ∀ transition ∈ trace, SettlesAtOnce transition) : SettledAtOnce trace chain := by
  obtain ⟨ledger, hrun⟩ := hhistory
  refine hrun.invariant_of_trace (fun trace chain =>
    (∀ transition ∈ trace, SettlesAtOnce transition) → SettledAtOnce trace chain) ?_ ?_ hatonce
  · exact fun _ => ⟨fun _ => rfl, rfl, by simp [submissions], by simp [submissions]⟩
  · intro earlier transition hearlier hstep hsettled hall
    exact (hsettled fun before hmem => hall before (by simp [hmem])).step hstep
      (History.healthy ⟨ledger, hearlier⟩) (hall transition (by simp))

/-- Looking up the key of an entry finds it when no key is entered twice. -/
theorem lookup_of_nodup {entries : List (ℕ × PriceSample)} (hnodup : (entries.map (·.1)).Nodup)
    {entry : ℕ × PriceSample} (hentry : entry ∈ entries) :
    entries.lookup entry.1 = some entry.2 := by
  obtain ⟨before, after, rfl⟩ := List.append_of_mem hentry
  refine List.lookup_eq_some_iff.mpr ⟨before, after, rfl, ?_⟩
  rw [List.map_append, List.map_cons, List.nodup_append] at hnodup
  intro other hother
  have hdiffers : other.1 ≠ entry.1 :=
    hnodup.2.2 other.1 (List.mem_map_of_mem hother) entry.1 List.mem_cons_self
  simpa using hdiffers.symm

omit [LinearOrder A] in
/-- What is settled at once is what was submitted. -/
theorem SettledAtOnce.samples (hsettled : SettledAtOnce trace chain) :
    settledSamples trace = (submissions trace).map (·.2) := by
  unfold settledSamples
  rw [hsettled.resolved, List.filterMap_map, ← List.filterMap_eq_map]
  refine List.filterMap_congr fun entry hentry => ?_
  show ((submissions trace).lookup entry.1).map _ = some entry.2
  rw [lookup_of_nodup hsettled.once hentry]
  rfl

/-- A resolved round is archived as resolved. -/
theorem Step.archived_resolution {transition : Transition (Chain A) (Action A)}
    (hstep : Step host transition.before transition.label transition.after)
    (hhealthy : transition.before.Healthy) (hkept : transition.before.storage.ArchiveKept)
    {roundId finalPrice : ℕ} (hresolved : resolution transition = some (roundId, finalPrice)) :
    ∃ summary, transition.after.storage.archive.archivedRound.get roundId = some summary ∧
      summary.status = .resolved := by
  obtain ⟨before, action, after⟩ := transition
  simp only [] at hstep hhealthy hkept ⊢
  cases action with
  | closeLedger | expire => cases hresolved
  | invoke signers call =>
      obtain ⟨ending, hending, hprice⟩ := Option.bind_eq_some_iff.mp hresolved
      obtain ⟨price, hkind, hpair⟩ := Option.bind_eq_some_iff.mp hprice
      obtain ⟨rfl, rfl⟩ := Prod.mk.inj (Option.some.inj hpair)
      have hstatus : ending.kind.status = .resolved := by
        cases hcase : ending.kind with
        | resolved | finalized => rfl
        | _ =>
            rw [hcase] at hkind
            cases hkind
      have hended := Chain.Healthy.ends_over hhealthy hstep hending
      have harchives := (hstep.ensured call.ensures_archive).ended _ hending
      obtain ⟨summary, hsummary⟩ := Option.ne_none_iff_exists'.mp
        (harchives.stored_new hkept.limit (hkept.nodup_append hended.1))
      have hsummarized := (Chain.Healthy.summarizes hhealthy hstep hending).archived
      exact ⟨summary, hsummary, (hsummarized summary hsummary).trans hstatus⟩

/-- When every submission settles its round at once, the samples are the last settled prices. -/
theorem twap_samples_settled (hhistory : History host trace chain)
    (hatonce : ∀ transition ∈ trace, SettlesAtOnce transition) :
    SamplesSettled trace chain.storage := by
  have hsettled := hhistory.settledAtOnce hatonce
  refine ⟨?_, ?_, ?_⟩
  · rw [hhistory.samples, hsettled.samples]
  · intro roundId sample hsubmitted hunresolved
    refine absurd ?_ (hunresolved sample.price)
    rw [hsettled.resolved]
    exact List.mem_map_of_mem hsubmitted
  · exact fun windowSamples reference hreference => twapReferencePrice_between hreference

end Histories

/-- The trial round with a fee settles at once, and its price is the only sample. -/
theorem fee_round_sampled : ∃ trace chain, History trialHost trace chain ∧
    chain.storage.samples = [⟨101, 7600⟩] ∧ SamplesSettled trace chain.storage := by
  obtain ⟨trace, chain, hhistory, -, hfits, hsamples⟩ := exists_trial_trace feeRound
    (fun transition =>
      transition.before.storage.control.settings.minParticipants == none &&
        transition.before.storage.control.settings.getDisputeLedgers == 0)
    (fun chain => decide (chain.storage.samples = [⟨101, 7600⟩])) (by decide +kernel)
  refine ⟨trace, chain, hhistory, of_decide_eq_true hsamples, twap_samples_settled hhistory ?_⟩
  intro transition hmem signers call startLedger round _ _ _
  obtain ⟨hminimum, hwindow⟩ := Bool.and_eq_true_iff.mp (hfits transition hmem)
  exact ⟨by simp [Settings.belowMinimum, beq_iff_eq.mp hminimum], beq_iff_eq.mp hwindow⟩

/-- The price of a round in its dispute window is sampled before any round is resolved. -/
theorem disputed_price_sampled :
    ¬ ∀ (trace : List (Transition (Chain ℕ) (Action ℕ))) chain, History trialHost trace chain →
      SamplesSettled trace chain.storage := by
  intro hclaim
  obtain ⟨trace, chain, hhistory, -, hfits, hsamples⟩ := exists_trial_trace overlappingRounds
    (fun transition => decide (resolution transition = none))
    (fun chain => decide (chain.storage.samples = [⟨101, 100⟩])) (by decide +kernel)
  have hunresolved : settledSamples trace = [] := by
    have hnone : resolutions trace = [] :=
      List.filterMap_eq_nil_iff.mpr fun transition hmem => of_decide_eq_true (hfits transition hmem)
    rw [settledSamples, hnone, List.filterMap_nil]
  have hring := (hclaim trace chain hhistory).ring
  rw [hunresolved, of_decide_eq_true hsamples] at hring
  exact absurd hring (by decide)

end XelmaMarket
