import XelmaMarket.Lib.FailsOnly
import XelmaMarket.Scores
import XelmaMarket.Arithmetic
import XelmaMarket.Treasury

/-!
# Headroom

What a settlement needs not to fail: room for its credits in the range of an amount and under the
cap on pending winnings, and counters that are not full. Each credit and each record uses up its
own part and leaves the rest for those that follow.
-/

namespace XelmaMarket

open Transaction

variable {A : Type}

/-! ## The combinators of the contract -/

section Combinators

variable {α σ : Type} {permitted : Failure → Prop} {env : Env A} {s : σ}

@[simp] theorem failsOnly_reject (condition : Prop) [Decidable condition] (error : ContractError)
    (post : PUnit → σ → Prop) :
    FailsOnly permitted (reject condition error) env s post ↔
      (condition → permitted (.err error)) ∧ (¬ condition → post ⟨⟩ s) :=
  failsOnly_failIf condition _ post

@[simp] theorem failsOnly_orError (value : Option α) (error : ContractError)
    (post : α → σ → Prop) :
    FailsOnly permitted (orError value error) env s post ↔
      (value = none → permitted (.err error)) ∧ ∀ a, value = some a → post a s :=
  failsOnly_orFail value _

@[simp] theorem failsOnly_requireAuth [DecidableEq A] (address : A) (post : PUnit → σ → Prop) :
    FailsOnly permitted (requireAuth address) env s post ↔
      (address ∉ env.signers → permitted .trap) ∧ (address ∈ env.signers → post ⟨⟩ s) := by
  have h := (@failsOnly_failIf _ _ _ permitted env s) (address ∉ env.signers) Failure.trap post
  simpa [requireAuth, FailsOnly] using h

@[simp] theorem failsOnly_ledgerSequence (post : ℕ → σ → Prop) :
    FailsOnly permitted ledgerSequence env s post ↔ post env.ledger.sequence s :=
  failsOnly_asks _

@[simp] theorem failsOnly_onControl (m : ControlM A α) (s : Storage A)
    (post : α → Storage A → Prop) :
    FailsOnly permitted (onControl m) env s post ↔
      FailsOnly permitted m env s.control fun value control => post value { s with control } :=
  failsOnly_zoom _ m

@[simp] theorem failsOnly_onStats (m : StatsM A α) (s : Storage A)
    (post : α → Storage A → Prop) :
    FailsOnly permitted (onStats m) env s post ↔
      FailsOnly permitted m env s.stats fun value stats => post value { s with stats } :=
  failsOnly_zoom _ m

@[simp] theorem failsOnly_updateVault (f : Vault A → Vault A) (s : Storage A)
    (post : PUnit → Storage A → Prop) :
    FailsOnly permitted (updateVault f) env s post ↔ post ⟨⟩ { s with vault := f s.vault } :=
  .rfl

@[simp] theorem failsOnly_updateRounds (f : Rounds A → Rounds A) (s : Storage A)
    (post : PUnit → Storage A → Prop) :
    FailsOnly permitted (updateRounds f) env s post ↔ post ⟨⟩ { s with rounds := f s.rounds } :=
  .rfl

@[simp] theorem failsOnly_pushBack (items : List α) (item : α) (post : List α → σ → Prop) :
    FailsOnly permitted (pushBack items item) env s post ↔
      (maxVecLength ≤ items.length → permitted .trap) ∧
        (items.length < maxVecLength → post (items ++ [item]) s) := by
  simp [pushBack]

end Combinators

/-! ## Room for credits -/

/-- There is room for some credits: the pending winnings with them are in range, and within the cap
if exceeding it is not permitted. -/
structure Storage.HasRoom [DecidableEq A] (permitted : Failure → Prop) (s : Storage A)
    (credits : List (A × ℤ)) : Prop where
  nonneg : ∀ credit ∈ credits, 0 ≤ credit.2
  pending : ∀ user, 0 ≤ s.vault.pendingOf user
  fits : ∀ user, s.vault.pendingOf user + creditTo credits user ≤ i128Max
  capped : permitted (.err .pendingWinningsCapExceeded) ∨
    ∀ cap, s.control.settings.maxPendingWinnings = some cap →
      ∀ user ∈ credits.map (·.1), s.vault.pendingOf user + creditTo credits user ≤ cap

section Room

variable [DecidableEq A] {permitted : Failure → Prop} {env : Env A} {s s' : Storage A}
  {first rest : List (A × ℤ)} {ledger : ℕ}

theorem creditTo_append (first second : List (A × ℤ)) (user : A) :
    creditTo (first ++ second) user = creditTo first user + creditTo second user := by
  simp [creditTo, List.filter_append]

/-- The first of some credits have room when all have. -/
theorem Storage.HasRoom.take (hroom : s.HasRoom permitted (first ++ rest)) :
    s.HasRoom permitted first := by
  have hrest : ∀ user, 0 ≤ creditTo rest user := creditTo_nonneg fun credit hmem =>
    hroom.nonneg credit (List.mem_append_right _ hmem)
  refine ⟨fun credit hmem => hroom.nonneg credit (List.mem_append_left _ hmem), hroom.pending,
    fun user => ?_, hroom.capped.imp_right fun hcapped cap hcap user huser => ?_⟩
  · have hfits := hroom.fits user
    have := hrest user
    rw [creditTo_append] at hfits
    omega
  · have hbelow := hcapped cap hcap user (by
      rw [List.map_append]
      exact List.mem_append_left _ huser)
    have := hrest user
    rw [creditTo_append] at hbelow
    omega

/-- After the first credits the others still have room. -/
theorem Storage.HasRoom.after (hroom : s.HasRoom permitted (first ++ rest))
    (hcontrol : s'.control = s.control) (hvault : s'.vault = s.vault.creditAll ledger first) :
    s'.HasRoom permitted rest := by
  have hpending : ∀ user, s'.vault.pendingOf user = s.vault.pendingOf user +
      creditTo first user := by
    intro user
    rw [hvault, Vault.creditAll_pendingOf]
  have hfirst : ∀ user, 0 ≤ creditTo first user := creditTo_nonneg fun credit hmem =>
    hroom.nonneg credit (List.mem_append_left _ hmem)
  refine ⟨fun credit hmem => hroom.nonneg credit (List.mem_append_right _ hmem), fun user => ?_,
    fun user => ?_, hroom.capped.imp_right fun hcapped cap hcap user huser => ?_⟩
  · rw [hpending]
    exact add_nonneg (hroom.pending user) (hfirst user)
  · have hfits := hroom.fits user
    rw [creditTo_append] at hfits
    rw [hpending]
    omega
  · rw [hcontrol] at hcap
    have hbelow := hcapped cap hcap user (by
      rw [List.map_append]
      exact List.mem_append_right _ huser)
    rw [creditTo_append] at hbelow
    rw [hpending]
    omega

/-- A credit with room is accumulated. -/
theorem failsOnly_accumulatePending {user : A} {amount : ℤ}
    (hroom : s.HasRoom permitted [(user, amount)]) :
    FailsOnly permitted (accumulatePending user amount) env s fun _ s' =>
      s' = { s with vault := s.vault.credit env.ledger.sequence user amount } := by
  have hcredit : creditTo [(user, amount)] user = amount := by simp [creditTo_cons]
  have hamount : 0 ≤ amount := hroom.nonneg (user, amount) (List.mem_singleton_self _)
  have hpending := hroom.pending user
  have hfits := hroom.fits user
  rw [hcredit] at hfits
  refine FailsOnly.ensuring ?_ (accumulatePending_spec user amount)
  have hadd : payoutAdd (s.vault.pendingOf user) amount =
      .ok (s.vault.pendingOf user + amount) := payoutAdd_of_fits (by omega) hfits
  simp only [accumulatePending, failsOnly_bind, failsOnly_gets, failsOnly_liftM, hadd, yields_ok,
    failsOnly_onSome, failsOnly_reject, failsOnly_ledgerSequence, failsOnly_updateVault]
  refine ⟨fun cap hcap => ⟨fun hexceeds => ?_, fun _ => trivial⟩, fun _ => trivial⟩
  rcases hroom.capped with hpermitted | hcapped
  · exact hpermitted
  · have hbelow := hcapped cap hcap user (by simp)
    rw [hcredit] at hbelow
    omega

end Room

/-! ## Counters that are not full -/

/-- One more result fits the counters. -/
def UserStats.CanCount (stats : UserStats) : Prop :=
  stats.totalWins + 1 < 2 ^ 32 ∧ stats.currentStreak + 1 < 2 ^ 32 ∧ stats.totalLosses + 1 < 2 ^ 32

/-- One more result of a user fits the lifetime counters and those of the active season. -/
def Stats.CanCount [DecidableEq A] (stats : Stats A) (user : A) : Prop :=
  (stats.lifetimeUserStats user).CanCount ∧
    (stats.seasonUserStatsRaw stats.currentSeasonId user).CanCount

section Counters

variable [LinearOrder A] {permitted : Failure → Prop} {env : Env A} {stats : Stats A} {user : A}

/-- The results of other users leave the counters of a user as they are. -/
theorem Stats.CanCount.countAll {records : List (UserRoundOutcome A)}
    (hcan : stats.CanCount user) (hnot : user ∉ records.map (·.user)) :
    (stats.countAll records).CanCount user := by
  induction records generalizing stats with
  | nil => exact hcan
  | cons record rest ih =>
      rw [List.map_cons, List.mem_cons, not_or] at hnot
      refine ih ?_ hnot.2
      unfold Stats.countRecord
      split
      · obtain ⟨hlifetime, hseason⟩ := @Stats.count_of_ne _ _ stats user record.outcome record.user
          hnot.1
        unfold Stats.CanCount
        rw [hlifetime, hseason]
        exact hcan
      · exact hcan

/-- An unsigned result that may overflow as permitted, or is in range. -/
theorem yields_checkedUint {width x : ℕ} {error : ContractError} {post : ℕ → Prop}
    (hfits : permitted (.err error) ∨ x < 2 ^ width) (hpost : x < 2 ^ width → post x) :
    Yields permitted (checkedUint width x error) post := by
  unfold checkedUint
  split
  · next hbelow => exact hpost hbelow
  · next habove => exact hfits.resolve_right habove

/-- A record that fits the counters is counted. -/
theorem failsOnly_updateStats {record : UserStats → Except Failure UserStats}
    (hlifetime : Yields permitted (record (stats.lifetimeUserStats user)) fun _ => True)
    (hseason : Yields permitted
      (record (stats.seasonUserStatsRaw stats.currentSeasonId user)) fun _ => True) :
    FailsOnly permitted (updateStats record user) env stats fun _ _ => True := by
  simp only [updateStats, updateLeaderboards, updateSeasonStats, updateSeasonLeaderboards,
    failsOnly_bind, failsOnly_gets, failsOnly_liftM, failsOnly_update]
  exact hlifetime.mono fun _ _ => hseason

theorem failsOnly_updateStatsWin (hcan : stats.CanCount user) :
    FailsOnly permitted (updateStatsWin user) env stats fun _ stats' =>
      stats' = stats.count user .win := by
  refine (failsOnly_updateStats ?_ ?_).ensuring (updateStatsWin_spec user)
  · exact (yields_bind _ _).mpr (yields_checkedUint (.inr hcan.1.1) fun _ =>
      (yields_bind _ _).mpr (yields_checkedUint (.inr hcan.1.2.1) fun _ => trivial))
  · exact (yields_bind _ _).mpr (yields_checkedUint (.inr hcan.2.1) fun _ =>
      (yields_bind _ _).mpr (yields_checkedUint (.inr hcan.2.2.1) fun _ => trivial))

theorem failsOnly_updateStatsLoss (hcan : stats.CanCount user) :
    FailsOnly permitted (updateStatsLoss user) env stats fun _ stats' =>
      stats' = stats.count user .loss := by
  refine (failsOnly_updateStats ?_ ?_).ensuring (updateStatsLoss_spec user)
  · exact (yields_bind _ _).mpr (yields_checkedUint (.inr hcan.1.2.2) fun _ => trivial)
  · exact (yields_bind _ _).mpr (yields_checkedUint (.inr hcan.2.2.2) fun _ => trivial)

end Counters

/-! ## Records -/

/-- Some records can be settled: there is room for their credits, their users are distinct, and
each that counts fits the counters of its user. -/
structure Storage.CanSettle [LinearOrder A] (permitted : Failure → Prop) (s : Storage A)
    (records : List (UserRoundOutcome A)) : Prop where
  room : s.HasRoom permitted (creditsOf records)
  distinct : (records.map (·.user)).Nodup
  counts : ∀ record ∈ records, record.counts → s.stats.CanCount record.user

section Settle

variable [LinearOrder A] {permitted : Failure → Prop} {env : Env A} {s s' : Storage A}
  {first rest : List (UserRoundOutcome A)} {ledger roundId : ℕ}

theorem Storage.CanSettle.take (hcan : s.CanSettle permitted (first ++ rest)) :
    s.CanSettle permitted first where
  room := by
    have hroom := hcan.room
    rw [creditsOf_append] at hroom
    exact hroom.take
  distinct := by
    have hdistinct := hcan.distinct
    rw [List.map_append] at hdistinct
    exact hdistinct.of_append_left
  counts record hmem := hcan.counts record (List.mem_append_left _ hmem)

/-- After the first records were settled the others still can be. -/
theorem Storage.CanSettle.after (hcan : s.CanSettle permitted (first ++ rest))
    (hsettles : Settles ledger roundId first s s') : s'.CanSettle permitted rest where
  room := by
    have hroom := hcan.room
    rw [creditsOf_append] at hroom
    exact hroom.after hsettles.control hsettles.vault
  distinct := by
    have hdistinct := hcan.distinct
    rw [List.map_append] at hdistinct
    exact hdistinct.of_append_right
  counts record hmem hcounts := by
    have hdistinct := hcan.distinct
    rw [List.map_append] at hdistinct
    rw [hsettles.stats]
    refine (hcan.counts record (List.mem_append_right _ hmem) hcounts).countAll fun hfirst => ?_
    exact List.disjoint_of_nodup_append hdistinct hfirst (List.mem_map_of_mem hmem)

/-- The loop rule: a loop whose turns settle their records fails only as permitted when each turn
does where its records can be settled. -/
theorem failsOnly_forEach_settles {α : Type} {items : List α} {body : α → ContractM A PUnit}
    (records : α → List (UserRoundOutcome A))
    (hbody : ∀ a ∈ items, ∀ s', s'.rounds = s.rounds → s'.control = s.control →
      s'.CanSettle permitted (records a) →
      FailsOnly permitted (body a) env s' fun _ s'' => Settles ledger roundId (records a) s' s'')
    (hcan : s.CanSettle permitted (items.flatMap records)) :
    FailsOnly permitted (forEach items body) env s fun _ s' =>
      Settles ledger roundId (items.flatMap records) s s' := by
  induction items generalizing s with
  | nil => exact Settles.refl s
  | cons a rest ih =>
      rw [List.flatMap_cons] at hcan ⊢
      refine (hbody a List.mem_cons_self s rfl rfl hcan.take).bind fun _ s₁ hfirst => ?_
      refine FailsOnly.mono (ih (fun b hmem s' hrounds hcontrol => ?_) (hcan.after hfirst))
        fun _ s₂ hrest => hfirst.trans hrest
      exact hbody b (List.mem_cons_of_mem _ hmem) s' (hrounds.trans hfirst.rounds)
        (hcontrol.trans hfirst.control)

/-- The loop rule with an accumulator that follows a function of its own and gets through. -/
theorem failsOnly_foldEach_settles {α β : Type} {items : List α} {acc : β}
    {body : β → α → ContractM A β} (records : α → List (UserRoundOutcome A))
    (follow : β → α → Except Failure β)
    (hbody : ∀ a ∈ items, ∀ acc next s', s'.rounds = s.rounds → s'.control = s.control →
      s'.CanSettle permitted (records a) → follow acc a = .ok next →
      FailsOnly permitted (body acc a) env s' fun acc' s'' =>
        acc' = next ∧ Settles ledger roundId (records a) s' s'')
    (hcan : s.CanSettle permitted (items.flatMap records)) {total : β}
    (hfollow : items.foldlM follow acc = .ok total) :
    FailsOnly permitted (foldEach items acc body) env s fun acc' s' =>
      acc' = total ∧ Settles ledger roundId (items.flatMap records) s s' := by
  induction items generalizing s acc with
  | nil => exact ⟨Except.ok.inj hfollow, Settles.refl s⟩
  | cons a rest ih =>
      rw [List.flatMap_cons] at hcan ⊢
      rw [List.foldlM_cons] at hfollow
      obtain ⟨next, hnext, hrest⟩ := bind_eq_ok.mp hfollow
      refine (hbody a List.mem_cons_self acc next s rfl rfl hcan.take hnext).bind ?_
      rintro acc₁ s₁ ⟨rfl, hfirst⟩
      refine FailsOnly.mono (ih (fun b hmem acc next s' hrounds hcontrol => ?_)
        (hcan.after hfirst) hrest) fun acc₂ s₂ h => ⟨h.1, hfirst.trans h.2⟩
      exact hbody b (List.mem_cons_of_mem _ hmem) acc next s' (hrounds.trans hfirst.rounds)
        (hcontrol.trans hfirst.control)

/-- Persisting an outcome does not fail. -/
theorem failsOnly_persistUserOutcome (record : UserRoundOutcome A) :
    FailsOnly permitted (persistUserOutcome roundId record) env s fun _ _ => True := by
  simp only [persistUserOutcome, failsOnly_bind, failsOnly_gets, failsOnly_onlyIf,
    failsOnly_update]
  exact ⟨fun _ => trivial, fun _ => trivial⟩

variable {record : UserRoundOutcome A}

/-- The room of a record that is credited is that of its payout. -/
theorem Storage.CanSettle.credit (hcan : s.CanSettle permitted [record])
    (hloss : record.outcome ≠ .loss) : s.HasRoom permitted [(record.user, record.payout)] := by
  simpa [creditsOf, hloss] using hcan.room

theorem failsOnly_creditOutcome (hcan : s.CanSettle permitted [record])
    (hcounts : ¬ record.counts) :
    FailsOnly permitted (creditOutcome roundId record) env s fun _ s' =>
      Settles env.ledger.sequence roundId [record] s s' := by
  refine FailsOnly.ensuring ?_ (creditOutcome_spec hcounts)
  refine (failsOnly_accumulatePending (hcan.credit fun hloss => hcounts (.inr hloss))).bind ?_
  exact fun _ s₁ _ => failsOnly_persistUserOutcome record

/-- A win with room and free counters is credited, counted and recorded. -/
theorem failsOnly_creditWin (hcan : s.CanSettle permitted [record]) (hwin : record.outcome = .win) :
    FailsOnly permitted (do
      accumulatePending record.user record.payout
      onStats (updateStatsWin record.user)
      persistUserOutcome roundId record) env s fun _ s' =>
        Settles env.ledger.sequence roundId [record] s s' := by
  refine FailsOnly.ensuring ?_ (creditWin_spec hwin)
  refine (failsOnly_accumulatePending (hcan.credit (by simp [hwin]))).bind ?_
  rintro _ s₁ rfl
  simp only [failsOnly_bind, failsOnly_onStats]
  refine FailsOnly.mono (failsOnly_updateStatsWin ?_) fun _ stats _ =>
    failsOnly_persistUserOutcome record
  exact hcan.counts record (List.mem_singleton_self _) (.inl hwin)

/-- A loss with free counters is counted and recorded. -/
theorem failsOnly_recordLoss (hcan : s.CanSettle permitted [record])
    (hloss : record.outcome = .loss) :
    FailsOnly permitted (do
      onStats (updateStatsLoss record.user)
      persistUserOutcome roundId record) env s fun _ s' =>
        Settles env.ledger.sequence roundId [record] s s' := by
  refine FailsOnly.ensuring ?_ (recordLoss_spec hloss)
  simp only [failsOnly_bind, failsOnly_onStats]
  refine FailsOnly.mono (failsOnly_updateStatsLoss ?_) fun _ stats _ =>
    failsOnly_persistUserOutcome record
  exact hcan.counts record (List.mem_singleton_self _) (.inr hloss)

end Settle

end XelmaMarket
