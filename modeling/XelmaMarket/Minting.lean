import XelmaMarket.Script
import XelmaMarket.Timelock

/-!
# Minting

Two counters limit the mints: one counts them within a ledger, the other adds their amounts up
within an epoch. Both are temporary entries. No other call touches them, so as long as an entry
lives through the epoch it was written in, they know every mint of the current ledger and epoch.
A balance entry is never deleted, so nobody is given the initial amount twice.
-/

namespace XelmaMarket

open Transaction

variable {A : Type} [LinearOrder A]

/-! ## The counters -/

/-- What was minted in an epoch, as the counters know it. -/
def Meter.consumed (meter : Meter) (epoch : ℕ) : ℤ :=
  if meter.epMintEpc.getD 0 = epoch then meter.epMintCsm.getD 0 else 0

/-- The counters after a mint in a ledger: it is counted under a positive limit. -/
def Meter.count (meter : Meter) (limit sequence : ℕ) : Meter :=
  if 0 < limit then
    { meter with
      ledgerMintCounter := meter.ledgerMintCounter.set sequence
        (meter.ledgerMintCounter.getD sequence 0 + 1) }
  else
    meter

/-- The counters after a mint in an epoch: it is added up under a positive budget. -/
def Meter.consume (meter : Meter) (budget : ℤ) (epoch : ℕ) : Meter :=
  if 0 < budget then
    { meter with
      epMintCsm := some (meter.consumed epoch + initialAmount)
      epMintEpc := if meter.epMintEpc.getD 0 ≠ epoch then some epoch else meter.epMintEpc }
  else
    meter

section Meter

variable {meter : Meter} {limit sequence epoch : ℕ} {budget : ℤ}

theorem count_counter (hlimit : 0 < limit) :
    (meter.count limit sequence).ledgerMintCounter.getD sequence 0 =
      meter.ledgerMintCounter.getD sequence 0 + 1 := by
  simp [Meter.count, hlimit, Store.getD_set]

@[simp] theorem count_amount : (meter.count limit sequence).epMintCsm = meter.epMintCsm := by
  unfold Meter.count
  split <;> rfl

@[simp] theorem count_epoch : (meter.count limit sequence).epMintEpc = meter.epMintEpc := by
  unfold Meter.count
  split <;> rfl

@[simp] theorem count_consumed :
    (meter.count limit sequence).consumed epoch = meter.consumed epoch := by
  simp [Meter.consumed]

@[simp] theorem consume_counter :
    (meter.consume budget epoch).ledgerMintCounter = meter.ledgerMintCounter := by
  unfold Meter.consume
  split <;> rfl

/-- The epoch is written when it is another one. -/
theorem consume_epoch : (meter.consume budget epoch).epMintEpc = meter.epMintEpc ∨
    0 < budget ∧ meter.epMintEpc.getD 0 ≠ epoch ∧
      (meter.consume budget epoch).epMintEpc = some epoch := by
  unfold Meter.consume
  by_cases hbudget : 0 < budget <;> by_cases hepoch : meter.epMintEpc.getD 0 = epoch <;>
    simp [hbudget, hepoch]

theorem consume_consumed (hbudget : 0 < budget) :
    (meter.consume budget epoch).consumed epoch = meter.consumed epoch + initialAmount := by
  have hepoch : (meter.consume budget epoch).epMintEpc.getD 0 = epoch := by
    by_cases hstored : meter.epMintEpc.getD 0 = epoch <;> simp [Meter.consume, hbudget, hstored]
  rw [Meter.consumed, if_pos hepoch, Meter.consume, if_pos hbudget, Option.getD_some]

theorem consumed_nonneg (hnonneg : 0 ≤ meter.epMintCsm.getD 0) : 0 ≤ meter.consumed epoch := by
  unfold Meter.consumed
  split
  · exact hnonneg
  · exact le_rfl

theorem consume_nonneg (hnonneg : 0 ≤ meter.epMintCsm.getD 0) :
    0 ≤ (meter.consume budget epoch).epMintCsm.getD 0 := by
  unfold Meter.consume
  split
  · exact add_nonneg (consumed_nonneg hnonneg) (by decide)
  · exact hnonneg

end Meter

section Calls

variable {env : Env A} {s s' : Storage A}

omit [LinearOrder A] in
/-- The administration is no place for the counters. -/
theorem keeps_meter_onControl {α : Type} (m : ControlM A α) :
    Keeps Storage.meter (onControl m) :=
  ⟨fun env s => by rw [ensures_onControl]; exact fun _ _ _ => rfl⟩

instance (action : GovAction A) : Keeps Storage.meter (performGovAction action) := by
  have := fun α => @keeps_meter_onControl A α
  cases action <;> unfold performGovAction <;> infer_instance

/-- A call that does not mint leaves the counters alone. -/
theorem Call.ensures_same_meter {call : Call A} (hplain : ∀ user, call ≠ .mintInitial user) :
    Ensures call.exec env s fun _ s' => s'.meter = s.meter := by
  have := fun α => @keeps_meter_onControl A α
  have hkept : ∀ {call : Call A}, Keeps Storage.meter call.exec →
      Ensures call.exec env s fun _ s' => s'.meter = s.meter :=
    fun hkeeps => hkeeps.ensures env s
  cases call with
  | mintInitial user => exact absurd rfl (hplain user)
  | control call => exact hkept (keeps_meter_onControl call.exec)
  | migrateSchemaV1ToV2 dryRun | migrateSchemaV2ToV3 dryRun =>
      refine hkept ?_
      simp only [Call.exec, XelmaMarket.migrateSchemaV1ToV2, XelmaMarket.migrateSchemaV2ToV3,
        migrationGate, ensureNotPaused]
      infer_instance
  | executeGovProposal executor proposalId =>
      refine hkept ?_
      simp only [Call.exec, execute]
      repeat first | infer_instance | refine .bind inferInstance fun _ => ?_
  | resolveRound payload | resolveRoundMulti payload =>
      refine Call.ensures_checked rfl fun round finalPrice confidence s₁ _ hchecked => ?_
      obtain ⟨config, armed, feed, rfl⟩ := hchecked.oracle
      exact Keeps.ensures env _
  | _ =>
      refine hkept ?_
      simp only [Call.exec, XelmaMarket.predictPrice]
      infer_instance

/-- What a mint needs and does: a new user, room under the limit and the budget in force, and both
counters moved where they are. -/
structure Mint (env : Env A) (s : Storage A) (user : A) (s' : Storage A) : Prop where
  fresh : s.vault.balance.get user = none
  balance : s'.vault.balance = s.vault.balance.set user initialAmount
  limited : 0 < s.control.settings.mintLimitConfig.getD 0 →
    s.meter.ledgerMintCounter.getD env.ledger.sequence 0 <
      s.control.settings.mintLimitConfig.getD 0
  budgeted : 0 < s.control.settings.epMintBgt.getD 0 →
    s.meter.consumed (env.ledger.sequence / epochLedgers) + initialAmount ≤
      s.control.settings.epMintBgt.getD 0
  meter : s'.meter = (s.meter.count (s.control.settings.mintLimitConfig.getD 0)
    env.ledger.sequence).consume (s.control.settings.epMintBgt.getD 0)
      (env.ledger.sequence / epochLedgers)

omit [LinearOrder A] in
/-- The limit of a ledger lets a mint through below it. -/
theorem enforceMintLimit_spec : Ensures enforceMintLimit env s fun _ s' =>
    (0 < s.control.settings.mintLimitConfig.getD 0 →
      s.meter.ledgerMintCounter.getD env.ledger.sequence 0 <
        s.control.settings.mintLimitConfig.getD 0) ∧
    s' = { s with
      meter := s.meter.count (s.control.settings.mintLimitConfig.getD 0) env.ledger.sequence } := by
  simp only [enforceMintLimit, ensures_bind, ensures_ledgerSequence, ensures_gets, ensures_onSome,
    ensures_onlyIf, ensures_reject, ensures_update]
  refine ⟨fun limit hlimit => ⟨fun hpos hroom => ?_, fun hzero => ?_⟩, fun hnone => ?_⟩
  · simp only [hlimit, Option.getD_some, Meter.count, if_pos hpos]
    exact ⟨fun _ => not_le.mp hroom, trivial⟩
  · simp only [hlimit, Option.getD_some, Meter.count, if_neg hzero]
    exact ⟨fun hpos => absurd hpos hzero, trivial⟩
  · simp [hnone, Meter.count]

omit [LinearOrder A] in
/-- The budget of an epoch lets a mint through that it covers. -/
theorem enforceEpochBudget_spec : Ensures enforceEpochBudget env s fun _ s' =>
    (0 < s.control.settings.epMintBgt.getD 0 →
      s.meter.consumed (env.ledger.sequence / epochLedgers) + initialAmount ≤
        s.control.settings.epMintBgt.getD 0) ∧
    s' = { s with
      meter := s.meter.consume (s.control.settings.epMintBgt.getD 0)
        (env.ledger.sequence / epochLedgers) } := by
  simp only [enforceEpochBudget, ensures_bind, ensures_ledgerSequence, ensures_gets,
    ensures_onlyIf, ensures_liftM, checked_eq_ok, ensures_reject, ensures_update]
  refine ⟨?_, fun hzero => ?_⟩
  · rintro hpos _ ⟨rfl, -, -⟩ hcovered
    rw [Meter.consume, if_pos hpos]
    exact ⟨fun _ => not_lt.mp hcovered, rfl⟩
  · rw [Meter.consume, if_neg hzero]
    exact ⟨fun hpos => absurd hpos hzero, rfl⟩

/-- Minting gives a known user nothing, and mints for a new one. -/
theorem mintInitial_spec (user : A) : Ensures (mintInitial user) env s fun _ s' =>
    s' = s ∧ s.vault.balance.get user ≠ none ∨ Mint env s user s' := by
  simp only [mintInitial, ensures_bind, ensures_requireAuth, ensures_onControl,
    ensures_requireSupportedSchema, ensureNormalMode, ensures_policyGate,
    ensures_enforceAccessControl, ensures_gets]
  intro _ _ _ _ _
  cases hbalance : s.vault.balance.get user with
  | some balance => simp
  | none =>
      simp only [mintNew, setBalance, ensures_bind]
      refine enforceMintLimit_spec.mono ?_
      rintro _ _ ⟨hlimited, rfl⟩
      refine enforceEpochBudget_spec.mono ?_
      rintro _ _ ⟨hbudgeted, rfl⟩
      simp only [ensures_updateVault, ensures_pure]
      exact .inr ⟨hbalance, rfl, hlimited, by simpa using hbudgeted, rfl⟩

theorem Call.ensures_mintInitial (user : A) :
    Ensures (Call.mintInitial user).exec env s fun _ s' =>
      s' = s ∧ s.vault.balance.get user ≠ none ∨ Mint env s user s' := by
  simp only [Call.exec, discardResult, ensures_bind, ensures_pure]
  exact mintInitial_spec user

end Calls

/-! ## What a trace minted -/

/-- The epoch of a chain. -/
def Chain.epoch (chain : Chain A) : ℕ :=
  chain.ledger.sequence / epochLedgers

/-- Who is given an amount by a transition that mints. -/
def receiver (transition : Transition (Chain A) (Action A)) : Option A :=
  match transition.label with
  | .invoke _ (.mintInitial user) =>
      if transition.after.storage.vault.balanceOf user ≠
          transition.before.storage.vault.balanceOf user then
        some user
      else
        none
  | _ => none

/-- What a transition mints. -/
def minted (transition : Transition (Chain A) (Action A)) : ℤ :=
  match transition.label with
  | .invoke _ (.mintInitial user) =>
      transition.after.storage.vault.balanceOf user -
        transition.before.storage.vault.balanceOf user
  | _ => 0

/-- Who was given an amount in a ledger. -/
def receiversAt (sequence : ℕ) (trace : List (Transition (Chain A) (Action A))) : List A :=
  (trace.filter fun transition => transition.before.ledger.sequence = sequence).filterMap receiver

/-- What was minted in an epoch. -/
def mintedIn (epoch : ℕ) (trace : List (Transition (Chain A) (Action A))) : ℤ :=
  ((trace.filter fun transition => transition.before.epoch = epoch).map minted).sum

/-- A transition writes a temporary entry: a mint writes the counter of a limited ledger, the amount
of an epoch with a budget, and the epoch when it is another one. -/
def WritesEntry (transition : Transition (Chain A) (Action A)) : TemporaryKey → Prop
  | .ledgerMintCounter sequence => receiver transition ≠ none ∧
      transition.before.ledger.sequence = sequence ∧
      0 < transition.before.settings.mintLimitConfig.getD 0
  | .epMintCsm => receiver transition ≠ none ∧ 0 < transition.before.settings.epMintBgt.getD 0
  | .epMintEpc => receiver transition ≠ none ∧ 0 < transition.before.settings.epMintBgt.getD 0 ∧
      transition.before.storage.meter.epMintEpc.getD 0 ≠ transition.before.epoch

/-- No temporary entry expires in an epoch it was written in. -/
def LivesThroughEpoch (trace : List (Transition (Chain A) (Action A))) : Prop :=
  ∀ earlier transition later key, trace = earlier ++ transition :: later →
    transition.label = .expire key →
    ∀ writing ∈ earlier, WritesEntry writing key → writing.before.epoch ≠ transition.before.epoch

section Trace

variable {trace earlier : List (Transition (Chain A) (Action A))}
  {transition : Transition (Chain A) (Action A)} {sequence epoch : ℕ}

omit [LinearOrder A] in
theorem receiversAt_concat : receiversAt sequence (earlier ++ [transition]) =
    receiversAt sequence earlier ++
      if transition.before.ledger.sequence = sequence then (receiver transition).toList else [] := by
  unfold receiversAt
  rw [List.filter_append, List.filterMap_append]
  by_cases hat : transition.before.ledger.sequence = sequence
  · cases hreceiver : receiver transition <;> simp [hat, hreceiver]
  · simp [hat]

omit [LinearOrder A] in
theorem mintedIn_concat : mintedIn epoch (earlier ++ [transition]) =
    mintedIn epoch earlier + if transition.before.epoch = epoch then minted transition else 0 := by
  unfold mintedIn
  rw [List.filter_append, List.map_append, List.sum_append]
  by_cases hin : transition.before.epoch = epoch <;> simp [hin]

omit [LinearOrder A] in
/-- Somebody received what was minted. -/
theorem receiver_of_minted (hminted : minted transition ≠ 0) : receiver transition ≠ none := by
  unfold minted at hminted
  unfold receiver
  split at hminted
  · have hmoved := sub_ne_zero.mp hminted
    simp [hmoved]
  · exact absurd rfl hminted

omit [LinearOrder A] in
theorem exists_of_receiversAt (hsome : receiversAt sequence trace ≠ []) :
    ∃ transition ∈ trace, transition.before.ledger.sequence = sequence ∧
      receiver transition ≠ none := by
  obtain ⟨user, hmem⟩ := List.exists_mem_of_ne_nil _ hsome
  obtain ⟨transition, hfiltered, hreceiver⟩ := List.mem_filterMap.mp hmem
  obtain ⟨hmem, hat⟩ := List.mem_filter.mp hfiltered
  exact ⟨transition, hmem, by simpa using hat, by simp [hreceiver]⟩

omit [LinearOrder A] in
theorem exists_of_mintedIn (hsome : mintedIn epoch trace ≠ 0) :
    ∃ transition ∈ trace, transition.before.epoch = epoch ∧ receiver transition ≠ none := by
  by_contra hnone
  push Not at hnone
  refine hsome (List.sum_eq_zero fun amount hamount => ?_)
  obtain ⟨transition, hfiltered, rfl⟩ := List.mem_map.mp hamount
  obtain ⟨hmem, hin⟩ := List.mem_filter.mp hfiltered
  by_contra hminted
  exact receiver_of_minted hminted (hnone transition hmem (by simpa using hin))

omit [LinearOrder A] in
theorem LivesThroughEpoch.of_concat (hlives : LivesThroughEpoch (earlier ++ [transition])) :
    LivesThroughEpoch earlier := by
  intro first expiring between key hsplit hlabel
  exact hlives first expiring (between ++ [transition]) key (by simp [hsplit]) hlabel

end Trace

/-- What a step does about minting: it mints, it does not and leaves the counters alone, or an entry
expires. -/
inductive MintStep (host : Host A) (transition : Transition (Chain A) (Action A)) : Prop where
  | mints (signers : List A) (user : A) (hreceiver : receiver transition = some user)
      (hminted : minted transition = initialAmount)
      (hmint : Mint ⟨host, transition.before.ledger, signers⟩ transition.before.storage user
        transition.after.storage)
      (hledger : transition.after.ledger = transition.before.ledger)
  | quiet (hreceiver : receiver transition = none) (hminted : minted transition = 0)
      (hmeter : transition.after.storage.meter = transition.before.storage.meter)
      (hledger : transition.before.ledger.sequence ≤ transition.after.ledger.sequence)
  | expires (key : TemporaryKey) (hlabel : transition.label = .expire key)
      (hreceiver : receiver transition = none) (hminted : minted transition = 0)
      (hmeter : transition.after.storage.meter = transition.before.storage.meter.expire key)
      (hledger : transition.after.ledger = transition.before.ledger)

section MintStep

variable {host : Host A} {chain chain' : Chain A} {action : Action A}

theorem Step.mintStep (hstep : Step host chain action chain') :
    MintStep host ⟨chain, action, chain'⟩ := by
  cases hstep with
  | closeLedger ledger hsequence => exact .quiet rfl rfl rfl hsequence
  | expire key => exact .expires key rfl rfl rfl rfl rfl
  | invoke signers call storage hrun =>
      by_cases hmints : ∃ user, call = .mintInitial user
      · obtain ⟨user, rfl⟩ := hmints
        rcases (Call.ensures_mintInitial user).elim hrun with ⟨rfl, -⟩ | hmint
        · exact .quiet (by simp [receiver]) (by simp [minted]) rfl le_rfl
        · have hbefore : chain.storage.vault.balanceOf user = 0 := by
            simp [Vault.balanceOf, Store.getD, hmint.fresh]
          have hafter : storage.vault.balanceOf user = initialAmount := by
            simp [Vault.balanceOf, Store.getD, hmint.balance]
          refine .mints signers user ?_ ?_ hmint rfl
          · simp [receiver, hbefore, hafter, initialAmount]
          · simp [minted, hbefore, hafter]
      · have hplain : ∀ user, call ≠ .mintInitial user := fun user h => hmints ⟨user, h⟩
        have hmeter : storage.meter = chain.storage.meter :=
          (Call.ensures_same_meter hplain).elim hrun
        refine .quiet ?_ ?_ hmeter le_rfl
        · cases call with
          | mintInitial user => exact absurd rfl (hplain user)
          | _ => rfl
        · cases call with
          | mintInitial user => exact absurd rfl (hplain user)
          | _ => rfl

end MintStep

/-! ## The counters know the mints -/

/-- What the counters know of a trace: no transition is of a later ledger, a stored epoch was
written in that epoch, and the mints of the current ledger and epoch are counted, within the
limit and the budget that were in force throughout. -/
structure Metered (trace : List (Transition (Chain A) (Action A))) (chain : Chain A) : Prop where
  past : ∀ transition ∈ trace, transition.before.ledger.sequence ≤ chain.ledger.sequence
  nonneg : 0 ≤ chain.storage.meter.epMintCsm.getD 0
  written : chain.storage.meter.epMintEpc.getD 0 ≠ 0 → ∃ transition ∈ trace,
    transition.before.epoch = chain.storage.meter.epMintEpc.getD 0 ∧
      WritesEntry transition .epMintEpc
  counted : ∀ sequence limit, 0 < limit →
    (∀ transition ∈ trace, transition.before.ledger.sequence = sequence →
      transition.before.settings.mintLimitConfig = some limit) →
    (receiversAt sequence trace).length ≤ limit ∧
      (chain.ledger.sequence = sequence → (receiversAt sequence trace).length ≤
        chain.storage.meter.ledgerMintCounter.getD sequence 0)
  consumed : ∀ epoch budget, 0 < budget →
    (∀ transition ∈ trace, transition.before.epoch = epoch →
      transition.before.settings.epMintBgt = some budget) →
    mintedIn epoch trace ≤ budget ∧
      (chain.epoch = epoch → mintedIn epoch trace ≤ chain.storage.meter.consumed epoch)

section Metered

variable {host : Host A} {earlier : List (Transition (Chain A) (Action A))}
  {transition : Transition (Chain A) (Action A)}

omit [LinearOrder A] in
/-- Nothing was minted in a ledger that is still to come. -/
theorem Metered.receiversAt_eq_nil {chain : Chain A} {sequence : ℕ}
    (hmetered : Metered earlier chain) (hlater : chain.ledger.sequence < sequence) :
    receiversAt sequence earlier = [] := by
  by_contra hsome
  obtain ⟨minting, hmem, hat, -⟩ := exists_of_receiversAt hsome
  have := hmetered.past minting hmem
  omega

omit [LinearOrder A] in
/-- Nothing was minted in an epoch that is still to come. -/
theorem Metered.mintedIn_eq_zero {chain : Chain A} {epoch : ℕ} (hmetered : Metered earlier chain)
    (hlater : chain.epoch < epoch) : mintedIn epoch earlier = 0 := by
  by_contra hsome
  obtain ⟨minting, hmem, hin, -⟩ := exists_of_mintedIn hsome
  have hpast : minting.before.epoch ≤ chain.epoch :=
    Nat.div_le_div_right (hmetered.past minting hmem)
  omega

/-- A mint keeps the counters in step. -/
theorem Metered.mints {signers : List A} {user : A} (hmetered : Metered earlier transition.before)
    (hreceiver : receiver transition = some user) (hminted : minted transition = initialAmount)
    (hmint : Mint ⟨host, transition.before.ledger, signers⟩ transition.before.storage user
      transition.after.storage)
    (hledger : transition.after.ledger = transition.before.ledger) :
    Metered (earlier ++ [transition]) transition.after where
  past other hmem := by
    rw [hledger]
    rcases List.mem_append.mp hmem with hmem | hmem
    · exact hmetered.past other hmem
    · exact (List.mem_singleton.mp hmem ▸ le_rfl)
  nonneg := by
    rw [hmint.meter]
    exact consume_nonneg (by simpa using hmetered.nonneg)
  written hstored := by
    rw [hmint.meter] at hstored ⊢
    rcases consume_epoch with hsame | ⟨hbudget, hother, hwritten⟩
    · rw [hsame, count_epoch] at hstored ⊢
      obtain ⟨writing, hmem, hwrites⟩ := hmetered.written hstored
      exact ⟨writing, List.mem_append_left _ hmem, hwrites⟩
    · refine ⟨transition, by simp, by rw [hwritten]; rfl, by simp [hreceiver], hbudget, ?_⟩
      rw [count_epoch] at hother
      exact hother
  counted sequence limit hlimit hconstant := by
    obtain ⟨hle, hcounter⟩ := hmetered.counted sequence limit hlimit fun other hmem =>
      hconstant other (List.mem_append_left _ hmem)
    rw [receiversAt_concat, hledger]
    by_cases hat : transition.before.ledger.sequence = sequence
    · subst hat
      have hforce : transition.before.storage.control.settings.mintLimitConfig = some limit :=
        hconstant transition (by simp) rfl
      have hroom : transition.before.storage.meter.ledgerMintCounter.getD
          transition.before.ledger.sequence 0 < limit := by
        simpa [hforce] using hmint.limited (by simpa [hforce] using hlimit)
      have hcount := hcounter rfl
      have hnext : transition.after.storage.meter.ledgerMintCounter.getD
          transition.before.ledger.sequence 0 =
            transition.before.storage.meter.ledgerMintCounter.getD
              transition.before.ledger.sequence 0 + 1 := by
        rw [hmint.meter, consume_counter, hforce, Option.getD_some, count_counter hlimit]
      rw [if_pos rfl, hreceiver, hnext, List.length_append, Option.toList_some,
        List.length_singleton]
      exact ⟨by omega, fun _ => by omega⟩
    · rw [if_neg hat, List.append_nil]
      exact ⟨hle, fun h => absurd h hat⟩
  consumed epoch budget hbudget hconstant := by
    obtain ⟨hle, hconsumed⟩ := hmetered.consumed epoch budget hbudget fun other hmem =>
      hconstant other (List.mem_append_left _ hmem)
    have hepoch : transition.after.epoch = transition.before.epoch := by
      rw [Chain.epoch, hledger]
      rfl
    rw [mintedIn_concat, hepoch, hminted]
    by_cases hin : transition.before.epoch = epoch
    · subst hin
      have hforce : transition.before.storage.control.settings.epMintBgt = some budget :=
        hconstant transition (by simp) rfl
      have hcovered : transition.before.storage.meter.consumed transition.before.epoch +
          initialAmount ≤ budget := by
        simpa [hforce, Chain.epoch] using hmint.budgeted (by simpa [hforce] using hbudget)
      have hknown := hconsumed rfl
      have hnext : transition.after.storage.meter.consumed transition.before.epoch =
          transition.before.storage.meter.consumed transition.before.epoch + initialAmount := by
        rw [hmint.meter, hforce, Option.getD_some, Chain.epoch, consume_consumed hbudget,
          count_consumed]
      rw [if_pos rfl, hnext]
      exact ⟨by omega, fun _ => by omega⟩
    · rw [if_neg hin, add_zero]
      exact ⟨hle, fun h => absurd h hin⟩

omit [LinearOrder A] in
/-- A step that does not mint and leaves the counters alone keeps them in step, in whatever
ledger. -/
theorem Metered.quiet (hmetered : Metered earlier transition.before)
    (hreceiver : receiver transition = none) (hminted : minted transition = 0)
    (hmeter : transition.after.storage.meter = transition.before.storage.meter)
    (hledger : transition.before.ledger.sequence ≤ transition.after.ledger.sequence) :
    Metered (earlier ++ [transition]) transition.after where
  past other hmem := by
    rcases List.mem_append.mp hmem with hmem | hmem
    · exact (hmetered.past other hmem).trans hledger
    · exact (List.mem_singleton.mp hmem ▸ hledger)
  nonneg := hmeter ▸ hmetered.nonneg
  written hstored := by
    rw [hmeter] at hstored ⊢
    obtain ⟨writing, hmem, hwrites⟩ := hmetered.written hstored
    exact ⟨writing, List.mem_append_left _ hmem, hwrites⟩
  counted sequence limit hlimit hconstant := by
    obtain ⟨hle, hcounter⟩ := hmetered.counted sequence limit hlimit fun other hmem =>
      hconstant other (List.mem_append_left _ hmem)
    have hsame : receiversAt sequence (earlier ++ [transition]) = receiversAt sequence earlier := by
      rw [receiversAt_concat, hreceiver]
      simp
    rw [hsame, hmeter]
    refine ⟨hle, fun hat => ?_⟩
    rcases eq_or_lt_of_le (hat ▸ hledger) with hbefore | hbefore
    · exact hcounter hbefore
    · rw [hmetered.receiversAt_eq_nil hbefore]
      exact Nat.zero_le _
  consumed epoch budget hbudget hconstant := by
    obtain ⟨hle, hconsumed⟩ := hmetered.consumed epoch budget hbudget fun other hmem =>
      hconstant other (List.mem_append_left _ hmem)
    have hsame : mintedIn epoch (earlier ++ [transition]) = mintedIn epoch earlier := by
      rw [mintedIn_concat, hminted]
      simp
    have hepoch : transition.before.epoch ≤ transition.after.epoch := Nat.div_le_div_right hledger
    rw [hsame, hmeter]
    refine ⟨hle, fun hin => ?_⟩
    rcases eq_or_lt_of_le (hin ▸ hepoch) with hbefore | hbefore
    · exact hconsumed hbefore
    · rw [hmetered.mintedIn_eq_zero hbefore]
      exact consumed_nonneg hmetered.nonneg

omit [LinearOrder A] in
/-- An entry that expires after its epoch leaves the counters in step. -/
theorem Metered.expires {key : TemporaryKey} (hmetered : Metered earlier transition.before)
    (hreceiver : receiver transition = none) (hminted : minted transition = 0)
    (hmeter : transition.after.storage.meter = transition.before.storage.meter.expire key)
    (hledger : transition.after.ledger = transition.before.ledger)
    (hlives : ∀ writing ∈ earlier, WritesEntry writing key →
      writing.before.epoch ≠ transition.before.epoch) :
    Metered (earlier ++ [transition]) transition.after where
  past other hmem := by
    rw [hledger]
    rcases List.mem_append.mp hmem with hmem | hmem
    · exact hmetered.past other hmem
    · exact (List.mem_singleton.mp hmem ▸ le_rfl)
  nonneg := by
    rw [hmeter]
    cases key with
    | epMintCsm => exact le_rfl
    | ledgerMintCounter | epMintEpc => exact hmetered.nonneg
  written hstored := by
    rw [hmeter] at hstored ⊢
    cases key with
    | epMintEpc => exact absurd rfl hstored
    | ledgerMintCounter | epMintCsm =>
        obtain ⟨writing, hmem, hwrites⟩ := hmetered.written hstored
        exact ⟨writing, List.mem_append_left _ hmem, hwrites⟩
  counted sequence limit hlimit hconstant := by
    obtain ⟨hle, hcounter⟩ := hmetered.counted sequence limit hlimit fun other hmem =>
      hconstant other (List.mem_append_left _ hmem)
    have hsame : receiversAt sequence (earlier ++ [transition]) = receiversAt sequence earlier := by
      rw [receiversAt_concat, hreceiver]
      simp
    rw [hsame, hmeter, hledger]
    refine ⟨hle, fun hat => ?_⟩
    by_cases hkey : key = .ledgerMintCounter sequence
    · -- a mint of this ledger wrote the entry in this epoch
      subst hkey
      have hnone : receiversAt sequence earlier = [] := by
        by_contra hsome
        obtain ⟨writing, hmem, hwriting, hgiven⟩ := exists_of_receiversAt hsome
        have hforce := hconstant writing (List.mem_append_left _ hmem) hwriting
        refine hlives writing hmem ⟨hgiven, hwriting, by simpa [hforce] using hlimit⟩ ?_
        rw [Chain.epoch, Chain.epoch, hwriting, hat]
      simp [hnone]
    · refine (hcounter hat).trans_eq ?_
      cases key with
      | epMintCsm | epMintEpc => rfl
      | ledgerMintCounter other =>
          have hother : sequence ≠ other := fun h => hkey (by rw [h])
          simp [Meter.expire, Store.getD_remove, hother]
  consumed epoch budget hbudget hconstant := by
    obtain ⟨hle, hconsumed⟩ := hmetered.consumed epoch budget hbudget fun other hmem =>
      hconstant other (List.mem_append_left _ hmem)
    have hsame : mintedIn epoch (earlier ++ [transition]) = mintedIn epoch earlier := by
      rw [mintedIn_concat, hminted]
      simp
    have hepoch : transition.after.epoch = transition.before.epoch := by
      rw [Chain.epoch, hledger]
      rfl
    have hnonneg : 0 ≤ (transition.before.storage.meter.expire key).epMintCsm.getD 0 := by
      cases key with
      | epMintCsm => exact le_rfl
      | ledgerMintCounter | epMintEpc => exact hmetered.nonneg
    rw [hsame, hmeter, hepoch]
    refine ⟨hle, fun hin => ?_⟩
    rcases le_or_gt (mintedIn epoch earlier) 0 with hnothing | hsomething
    · exact hnothing.trans (consumed_nonneg hnonneg)
    · -- what was minted in this epoch is known, under this epoch
      have hknown := hconsumed hin
      have hstored : transition.before.storage.meter.epMintEpc.getD 0 = epoch := by
        by_contra hother
        rw [Meter.consumed, if_neg hother] at hknown
        omega
      cases key with
      | ledgerMintCounter => exact hknown
      | epMintCsm =>
          obtain ⟨writing, hmem, hwriting, hgiven⟩ := exists_of_mintedIn hsomething.ne'
          have hforce := hconstant writing (List.mem_append_left _ hmem) hwriting
          exact absurd (hwriting.trans hin.symm)
            (hlives writing hmem ⟨hgiven, by simpa [hforce] using hbudget⟩)
      | epMintEpc =>
          have hzero : epoch = 0 := by
            by_contra hpos
            obtain ⟨writing, hmem, hwriting, hwrites⟩ := hmetered.written (hstored ▸ hpos)
            exact hlives writing hmem hwrites (hwriting.trans (hstored.trans hin.symm))
          rw [Meter.consumed, if_pos hstored] at hknown
          rw [Meter.consumed, if_pos (by rw [hzero]; rfl)]
          exact hknown

/-- Every step keeps the counters in step while the entries live. -/
theorem Metered.step (hmetered : Metered earlier transition.before)
    (hstep : Step host transition.before transition.label transition.after)
    (hlives : LivesThroughEpoch (earlier ++ [transition])) :
    Metered (earlier ++ [transition]) transition.after := by
  cases hstep.mintStep with
  | mints signers user hreceiver hminted hmint hledger =>
      exact hmetered.mints hreceiver hminted hmint hledger
  | quiet hreceiver hminted hmeter hledger =>
      exact hmetered.quiet hreceiver hminted hmeter hledger
  | expires key hlabel hreceiver hminted hmeter hledger =>
      exact hmetered.expires hreceiver hminted hmeter hledger
        (hlives earlier transition [] key rfl hlabel)

omit [LinearOrder A] in
/-- A new contract has minted nothing. -/
theorem metered_genesis (ledger : Ledger) : @Metered A [] (Chain.genesis ledger) where
  past _ hmem := by cases hmem
  nonneg := le_rfl
  written hstored := absurd rfl hstored
  counted sequence limit _ _ := by simp [receiversAt]
  consumed epoch budget hbudget _ := by
    have hempty : 0 ≤ (@Chain.genesis A ledger).storage.meter.consumed epoch :=
      consumed_nonneg (show (0 : ℤ) ≤ 0 from le_rfl)
    simpa [mintedIn] using ⟨hbudget.le, fun _ => hempty⟩

/-- In every history whose entries live through their epochs the counters know the mints. -/
theorem History.metered {trace : List (Transition (Chain A) (Action A))} {chain : Chain A}
    (hhistory : History host trace chain) (hlives : LivesThroughEpoch trace) :
    Metered trace chain := by
  obtain ⟨ledger, hrun⟩ := hhistory
  refine hrun.invariant_of_trace (fun trace chain => LivesThroughEpoch trace →
    Metered trace chain) (fun _ => metered_genesis ledger) ?_ hlives
  intro earlier transition _ hstep hmetered hlives
  exact (hmetered hlives.of_concat).step hstep hlives

end Metered

/-! ## Nobody is given the initial amount twice -/

section Receivers

variable {env : Env A} {s s' : Storage A} {call : Call A} {host : Host A} {chain chain' : Chain A}

theorem get_set_ne_none {balance : Store A ℤ} {user other : A} {amount : ℤ}
    (hget : balance.get user ≠ none) : (balance.set other amount).get user ≠ none := by
  rw [Store.get_set]
  split
  · simp
  · exact hget

theorem claimAll_balance_ne_none {user : A} (users : List A) {vault : Vault A}
    (hget : vault.balance.get user ≠ none) :
    (users.foldl Vault.claim vault).balance.get user ≠ none := by
  induction users generalizing vault with
  | nil => exact hget
  | cons other rest ih =>
      refine ih ?_
      unfold Vault.claim
      split
      · exact hget
      · exact get_set_ne_none hget

/-- No call deletes a balance entry. -/
theorem Effect.balance_ne_none (heffect : Effect env s call s') {user : A}
    (hget : s.vault.balance.get user ≠ none) : s'.vault.balance.get user ≠ none := by
  cases heffect with
  | quiet _ _ hsame => exact hsame.vault ▸ hget
  | openRound _ _ _ _ _ _ _ _ hvault | reveal _ _ _ _ _ _ _ _ _ _ hvault
  | stage _ _ _ _ _ _ _ _ _ hvault => exact hvault ▸ hget
  | treasuryAddress _ _ _ _ _ _ _ hvault =>
      rw [hvault]
      exact hget
  | mint _ _ _ _ hvault | payFee _ _ _ _ _ _ hvault | payFund _ _ _ _ _ _ hvault
  | topUp _ _ _ _ _ _ hvault | reclaim _ _ _ _ _ _ _ _ _ _ hvault
  | stake _ _ _ _ _ _ _ _ _ _ _ hvault =>
      rw [hvault]
      exact get_set_ne_none hget
  | claim _ users _ _ _ hvault =>
      rw [hvault]
      exact claimAll_balance_ne_none users hget
  | cashOut _ _ _ _ _ _ _ _ _ _ _ hvault =>
      rw [hvault]
      simpa using hget
  | ending _ ending _ _ hends =>
      rw [hends.vault]
      simpa using hget

/-- No step deletes a balance entry. -/
theorem Step.balance_ne_none {action : Action A} (hhealthy : chain.Healthy)
    (hstep : Step host chain action chain') {user : A}
    (hget : chain.storage.vault.balance.get user ≠ none) :
    chain'.storage.vault.balance.get user ≠ none := by
  obtain ⟨signers, call, rfl⟩ | ⟨-, meter, hsame⟩ := hstep.invokes_or_idles
  · exact (hhealthy.effect hstep).balance_ne_none hget
  · rw [hsame]
    exact hget

/-- Whoever was given the initial amount has a balance entry since, so nobody is given it twice. -/
theorem History.receivers_nodup {trace : List (Transition (Chain A) (Action A))}
    (hhistory : History host trace chain) : (trace.filterMap receiver).Nodup ∧
      ∀ user ∈ trace.filterMap receiver, chain.storage.vault.balance.get user ≠ none := by
  obtain ⟨ledger, hrun⟩ := hhistory
  refine hrun.invariant_of_trace (fun trace chain => (trace.filterMap receiver).Nodup ∧
    ∀ user ∈ trace.filterMap receiver, chain.storage.vault.balance.get user ≠ none)
    ⟨List.nodup_nil, nofun⟩ ?_
  rintro earlier transition hearlier hstep ⟨hnodup, hknown⟩
  have hkept : ∀ user ∈ earlier.filterMap receiver,
      transition.after.storage.vault.balance.get user ≠ none := fun user hmem =>
    hstep.balance_ne_none (History.healthy ⟨ledger, hearlier⟩) (hknown user hmem)
  rw [List.filterMap_append]
  cases hstep.mintStep with
  | mints signers user hreceiver _ hmint =>
      have hlist : [transition].filterMap receiver = [user] := List.filterMap_cons_some hreceiver
      rw [hlist]
      have hnew : user ∉ earlier.filterMap receiver := fun hmem => hknown user hmem hmint.fresh
      refine ⟨?_, fun other hmem => ?_⟩
      · rw [List.nodup_append]
        refine ⟨hnodup, by simp, fun other hmem other' hmem' heq => hnew ?_⟩
        rwa [← List.mem_singleton.mp hmem', ← heq]
      · rcases List.mem_append.mp hmem with hmem | hmem
        · exact hkept other hmem
        · rw [List.mem_singleton.mp hmem, hmint.balance]
          simp
  | quiet hreceiver | expires _ _ hreceiver =>
      have hlist : [transition].filterMap receiver = [] := List.filterMap_cons_none hreceiver
      rw [hlist, List.append_nil]
      exact ⟨hnodup, hkept⟩

/-- In every history nobody is given the initial amount twice. While no temporary entry expires in
an epoch it was written in, the mints of a ledger stay within the limit and those of an epoch
within the budget that was in force throughout. -/
theorem mint_limits {trace : List (Transition (Chain A) (Action A))}
    (hhistory : History host trace chain) : (trace.filterMap receiver).Nodup ∧
      (LivesThroughEpoch trace →
        (∀ sequence limit, 0 < limit →
          (∀ transition ∈ trace, transition.before.ledger.sequence = sequence →
            transition.before.settings.mintLimitConfig = some limit) →
          (receiversAt sequence trace).length ≤ limit) ∧
        ∀ epoch budget, 0 < budget →
          (∀ transition ∈ trace, transition.before.epoch = epoch →
            transition.before.settings.epMintBgt = some budget) →
          mintedIn epoch trace ≤ budget) := by
  refine ⟨hhistory.receivers_nodup.1, fun hlives => ?_⟩
  have hmetered := hhistory.metered hlives
  exact ⟨fun sequence limit hlimit hconstant =>
      (hmetered.counted sequence limit hlimit hconstant).1,
    fun epoch budget hbudget hconstant => (hmetered.consumed epoch budget hbudget hconstant).1⟩

end Receivers

/-- Under a limit of 2 mints a ledger and a budget for 2 an epoch, users 3 and 4 are minted in the
first ledger of epoch 1. -/
def meteredMints : List (Action ℕ) := [
  .invoke [1] (.control (.initializeContract 1 2)),
  .invoke [1] (.control (.setMintLimit 2)),
  .invoke [1] (.control (.setEpochMintBudget 20000000000)),
  .closeLedger (ledgerAt 1440),
  .invoke [3] (.mintInitial 3),
  .invoke [4] (.mintInitial 4)]

theorem mints_metered : ∃ trace, ∃ chain : Chain ℕ, History trialHost trace chain ∧
    (trace.filterMap receiver).Nodup ∧ (receiversAt 1440 trace).length ≤ 2 ∧
    mintedIn 1 trace ≤ 20000000000 ∧ chain.storage.vault.balanceOf 4 = 10000000000 := by
  obtain ⟨trace, chain, hhistory, hlabels, hfits, hbalance⟩ := exists_trial_trace meteredMints
    (fun transition => transition.before.epoch != 1 ||
      (transition.before.settings.mintLimitConfig == some 2 &&
        transition.before.settings.epMintBgt == some 20000000000))
    (fun chain => chain.storage.vault.balanceOf 4 == 10000000000) (by decide +kernel)
  have hlives : LivesThroughEpoch trace := by
    rintro earlier transition later key rfl hlabel
    have hmem : transition.label ∈ meteredMints := hlabels ▸ List.mem_map_of_mem (by simp)
    simp [hlabel, meteredMints] at hmem
  have hforce : ∀ transition ∈ trace, transition.before.epoch = 1 →
      transition.before.settings.mintLimitConfig = some 2 ∧
        transition.before.settings.epMintBgt = some 20000000000 := by
    intro transition hmem hin
    simpa [hin] using hfits transition hmem
  obtain ⟨hnodup, hlimits⟩ := mint_limits hhistory
  obtain ⟨hlimit, hbudget⟩ := hlimits hlives
  refine ⟨trace, chain, hhistory, hnodup, hlimit 1440 2 (by decide) ?_, hbudget 1 _ (by decide) ?_,
    by simpa using hbalance⟩
  · exact fun transition hmem hat => (hforce transition hmem (by rw [Chain.epoch, hat]; rfl)).1
  · exact fun transition hmem hin => (hforce transition hmem hin).2


end XelmaMarket
