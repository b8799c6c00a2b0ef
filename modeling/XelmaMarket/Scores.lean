import XelmaMarket.Standings
import XelmaMarket.UpDownSettlement
import XelmaMarket.PrecisionSettlement
import Mathlib.Algebra.BigOperators.Intervals
import Mathlib.Order.Interval.Finset.Nat

/-!
# Scores

The counters of a user add up. The lifetime counters are the sums of the season counters, a streak
never exceeds the best streak, which never exceeds the wins, and over every history the results of
a user are the competitive settlements the user took part in, the wins those the user won.
-/

namespace XelmaMarket

open Transaction

variable {A : Type} [LinearOrder A]

/-! ## Counters -/

section Counted

variable (stats : UserStats) (outcome : UserOutcomeType)

theorem UserStats.counted_totalWins :
    (stats.counted outcome).totalWins = stats.totalWins + if outcome = .win then 1 else 0 := by
  cases outcome <;> rfl

theorem UserStats.counted_totalLosses :
    (stats.counted outcome).totalLosses =
      stats.totalLosses + if outcome = .loss then 1 else 0 := by
  cases outcome <;> rfl

/-- The streaks fit the wins: the current streak is at most the best one, and the best one at most
the wins. -/
def UserStats.StreaksFit : Prop :=
  stats.currentStreak ≤ stats.bestStreak ∧ stats.bestStreak ≤ stats.totalWins

theorem UserStats.streaksFit_zero : UserStats.zero.StreaksFit := by
  constructor <;> exact le_rfl

/-- Every result keeps the streaks fitting. -/
theorem UserStats.StreaksFit.counted (hfit : stats.StreaksFit) :
    (stats.counted outcome).StreaksFit := by
  obtain ⟨hcurrent, hbest⟩ := hfit
  cases outcome with
  | win =>
      refine ⟨le_max_right _ _, max_le (by exact hbest.trans (Nat.le_succ _)) ?_⟩
      exact Nat.succ_le_succ (hcurrent.trans hbest)
  | loss => exact ⟨Nat.zero_le _, hbest⟩
  | refund | void | cancel => exact ⟨hcurrent, hbest⟩

end Counted

/-- A sum changes as much as its one term that changes. -/
theorem sum_change {seasons : Finset ℕ} {seasonId : ℕ} {old new : ℕ → ℕ}
    (hmem : seasonId ∈ seasons) (hkept : ∀ other, other ≠ seasonId → new other = old other) :
    ∑ other ∈ seasons, new other + old seasonId = ∑ other ∈ seasons, old other + new seasonId := by
  have hrest : ∑ other ∈ seasons.erase seasonId, new other =
      ∑ other ∈ seasons.erase seasonId, old other :=
    Finset.sum_congr rfl fun other hother => hkept other (Finset.ne_of_mem_erase hother)
  have hnew := Finset.add_sum_erase seasons new hmem
  have hold := Finset.add_sum_erase seasons old hmem
  omega

/-- A counter of a user adds up over the seasons from the first to the active one. -/
def Stats.AddsUp (stats : Stats A) (user : A) (counter : UserStats → ℕ) : Prop :=
  counter (stats.lifetimeUserStats user) =
    ∑ seasonId ∈ Finset.Icc 1 stats.currentSeasonId, counter (stats.seasonUserStatsRaw seasonId user)

/-- The wins and the losses of a user add up over the seasons from the first to the active one,
nothing is counted in any other season, and all streaks fit. -/
structure Stats.Accounted (stats : Stats A) (user : A) : Prop where
  started : 1 ≤ stats.currentSeasonId
  seasons : ∀ seasonId, stats.seasonUserStats.get (seasonId, user) ≠ none →
    1 ≤ seasonId ∧ seasonId ≤ stats.currentSeasonId
  wins : stats.AddsUp user (·.totalWins)
  losses : stats.AddsUp user (·.totalLosses)
  streaks : (stats.lifetimeUserStats user).StreaksFit
  seasonStreaks : ∀ seasonId, (stats.seasonUserStatsRaw seasonId user).StreaksFit

section Accounted

variable {stats stats' : Stats A} {user : A} {counter : UserStats → ℕ} {outcome : UserOutcomeType}
  {gain : ℕ}

/-- A result of another user leaves the counters of a user alone. -/
theorem Stats.count_of_ne {other : A} (hne : user ≠ other) :
    (stats.count other outcome).lifetimeUserStats user = stats.lifetimeUserStats user ∧
      ∀ seasonId, (stats.count other outcome).seasonUserStatsRaw seasonId user =
        stats.seasonUserStatsRaw seasonId user :=
  ⟨(stats.replace_lifetimeUserStats other user _ _).trans (if_neg hne), fun seasonId =>
    (stats.replace_seasonUserStatsRaw other user _ _ seasonId).trans (if_neg fun h => hne h.2)⟩

/-- A result of a user is counted in the lifetime. -/
theorem Stats.count_lifetime : (stats.count user outcome).lifetimeUserStats user =
    (stats.lifetimeUserStats user).counted outcome :=
  (stats.replace_lifetimeUserStats user user _ _).trans (if_pos rfl)

/-- A result of a user is counted in the active season. -/
theorem Stats.count_season (seasonId : ℕ) :
    (stats.count user outcome).seasonUserStatsRaw seasonId user =
      if seasonId = stats.currentSeasonId then
        (stats.seasonUserStatsRaw stats.currentSeasonId user).counted outcome
      else stats.seasonUserStatsRaw seasonId user :=
  (stats.replace_seasonUserStatsRaw user user _ _ seasonId).trans (by simp)

/-- A counter that every result raises by the same in every record still adds up. -/
theorem Stats.AddsUp.count (hadds : stats.AddsUp user counter)
    (hcounted : ∀ stats : UserStats, counter (stats.counted outcome) = counter stats + gain)
    (hstarted : 1 ≤ stats.currentSeasonId) : (stats.count user outcome).AddsUp user counter := by
  have hactive := @Stats.count_season _ _ stats user outcome stats.currentSeasonId
  rw [if_pos rfl] at hactive
  have hsum := @sum_change _ _ (fun seasonId => counter (stats.seasonUserStatsRaw seasonId user))
    (fun seasonId => counter ((stats.count user outcome).seasonUserStatsRaw seasonId user))
    (Finset.mem_Icc.mpr ⟨hstarted, le_rfl⟩)
    fun seasonId hne => congrArg counter ((Stats.count_season seasonId).trans (if_neg hne))
  simp only [hactive, hcounted] at hsum
  unfold Stats.AddsUp at hadds ⊢
  rw [Stats.count_lifetime, hcounted]
  show _ = ∑ seasonId ∈ Finset.Icc 1 stats.currentSeasonId, _
  omega

/-- A counter of another user adds up as before. -/
theorem Stats.AddsUp.count_of_ne {other : A} (hadds : stats.AddsUp user counter)
    (hne : user ≠ other) : (stats.count other outcome).AddsUp user counter := by
  obtain ⟨hlifetime, hseason⟩ := @Stats.count_of_ne _ _ stats _ outcome _ hne
  unfold Stats.AddsUp
  simp only [hlifetime, hseason]
  exact hadds

omit [LinearOrder A] in
theorem Stats.accounted_empty : (Storage.empty (A := A)).stats.Accounted user where
  started := le_rfl
  seasons _ hrecorded := absurd rfl hrecorded
  wins := rfl
  losses := rfl
  streaks := UserStats.streaksFit_zero
  seasonStreaks _ := UserStats.streaksFit_zero

/-- A result is counted once in the lifetime and once in the active season. -/
theorem Stats.Accounted.count (haccounted : stats.Accounted user) (other : A)
    (outcome : UserOutcomeType) : (stats.count other outcome).Accounted user := by
  by_cases hne : user = other
  · subst hne
    refine ⟨haccounted.started, fun seasonId hrecorded => ?_,
      haccounted.wins.count (fun stats => stats.counted_totalWins outcome) haccounted.started,
      haccounted.losses.count (fun stats => stats.counted_totalLosses outcome) haccounted.started,
      ?_, fun seasonId => ?_⟩
    · by_cases hactive : seasonId = stats.currentSeasonId
      · rw [hactive]
        exact ⟨haccounted.started, le_rfl⟩
      · refine haccounted.seasons seasonId fun hnone => hrecorded ?_
        exact (Store.get_set_of_ne _ _ fun h => hactive (congrArg Prod.fst h)).trans hnone
    · rw [Stats.count_lifetime]
      exact haccounted.streaks.counted _ _
    · rw [Stats.count_season]
      split
      · exact (haccounted.seasonStreaks _).counted _ _
      · exact haccounted.seasonStreaks seasonId
  · obtain ⟨hlifetime, hseason⟩ := @Stats.count_of_ne _ _ stats _ outcome _ hne
    refine ⟨haccounted.started, fun seasonId hrecorded => ?_,
      haccounted.wins.count_of_ne hne, haccounted.losses.count_of_ne hne, ?_, fun seasonId => ?_⟩
    · refine haccounted.seasons seasonId fun hnone => hrecorded ?_
      exact (Store.get_set_of_ne _ _ fun h => hne (congrArg Prod.snd h)).trans hnone
    · rw [hlifetime]
      exact haccounted.streaks
    · rw [hseason]
      exact haccounted.seasonStreaks seasonId

/-- Records keep the counters adding up. -/
theorem Stats.Accounted.countAll (haccounted : stats.Accounted user)
    (records : List (UserRoundOutcome A)) : (stats.countAll records).Accounted user := by
  induction records generalizing stats with
  | nil => exact haccounted
  | cons record rest ih =>
      refine ih ?_
      unfold Stats.countRecord
      split
      · exact haccounted.count _ _
      · exact haccounted

omit [LinearOrder A] in
/-- The next season starts with nothing counted. -/
theorem Stats.Accounted.nextSeason (haccounted : stats.Accounted user)
    (hnext : NextSeason stats stats') : stats'.Accounted user := by
  have hlifetime : stats'.lifetimeUserStats user = stats.lifetimeUserStats user := by
    unfold Stats.lifetimeUserStats
    rw [hnext.userStats]
  have hseason : ∀ seasonId, stats'.seasonUserStatsRaw seasonId user =
      stats.seasonUserStatsRaw seasonId user := by
    intro seasonId
    unfold Stats.seasonUserStatsRaw
    rw [hnext.seasonUserStats]
  have hfresh : stats.seasonUserStatsRaw (stats.currentSeasonId + 1) user = .zero := by
    have hnone : stats.seasonUserStats.get (stats.currentSeasonId + 1, user) = none := by
      by_contra hrecorded
      have := (haccounted.seasons _ hrecorded).2
      omega
    unfold Stats.seasonUserStatsRaw Store.getD
    rw [hnone]
    rfl
  have hadds : ∀ counter : UserStats → ℕ, counter .zero = 0 → stats.AddsUp user counter →
      stats'.AddsUp user counter := by
    intro counter hzero hadds
    unfold Stats.AddsUp at hadds ⊢
    simp only [hlifetime, hseason, hnext.season]
    rw [Finset.sum_Icc_succ_top (by omega), hfresh, hzero, add_zero]
    exact hadds
  refine ⟨by rw [hnext.season]; omega, fun seasonId hrecorded => ?_,
    hadds _ rfl haccounted.wins, hadds _ rfl haccounted.losses, ?_, fun seasonId => ?_⟩
  · rw [hnext.seasonUserStats] at hrecorded
    obtain ⟨hfirst, hlast⟩ := haccounted.seasons seasonId hrecorded
    rw [hnext.season]
    exact ⟨hfirst, hlast.trans (Nat.le_succ _)⟩
  · rw [hlifetime]
    exact haccounted.streaks
  · rw [hseason]
    exact haccounted.seasonStreaks seasonId

end Accounted

/-! ## Results of the records -/

/-- The users records give a win. -/
def winUsers (records : List (UserRoundOutcome A)) : List A :=
  (records.filter fun record => record.outcome = .win).map (·.user)

/-- The users records give a win or a loss. -/
def resultUsers (records : List (UserRoundOutcome A)) : List A :=
  (records.filter fun record => record.counts).map (·.user)

/-- Records raise the wins of a user by their wins, and the results by their results. -/
theorem Stats.countAll_results (stats : Stats A) (records : List (UserRoundOutcome A)) (user : A) :
    ((stats.countAll records).lifetimeUserStats user).totalWins =
        (stats.lifetimeUserStats user).totalWins + (winUsers records).count user ∧
      ((stats.countAll records).lifetimeUserStats user).totalWins +
          ((stats.countAll records).lifetimeUserStats user).totalLosses =
        (stats.lifetimeUserStats user).totalWins + (stats.lifetimeUserStats user).totalLosses +
          (resultUsers records).count user := by
  induction records generalizing stats with
  | nil => exact ⟨rfl, rfl⟩
  | cons record rest ih =>
      obtain ⟨hwins, hresults⟩ := ih (stats.countRecord record)
      rw [Stats.countAll, List.foldl_cons]
      unfold Stats.countAll at hwins hresults
      rw [hresults, hwins]
      by_cases hcounts : record.counts
      · have hrecord : stats.countRecord record = stats.count record.user record.outcome :=
          if_pos hcounts
        rw [hrecord]
        by_cases huser : record.user = user
        · subst huser
          rw [Stats.count_lifetime, UserStats.counted_totalWins, UserStats.counted_totalLosses]
          rcases hcounts with hwin | hloss
          · simp [winUsers, resultUsers, UserRoundOutcome.counts, hwin]
            omega
          · simp [winUsers, resultUsers, UserRoundOutcome.counts, hloss]
            omega
        · rw [(Stats.count_of_ne (Ne.symm huser)).1]
          rcases hcounts with hwin | hloss
          · simp [winUsers, resultUsers, UserRoundOutcome.counts, hwin, huser]
          · simp [winUsers, resultUsers, UserRoundOutcome.counts, hloss, huser]
      · have hrecord : stats.countRecord record = stats := if_neg hcounts
        have hnot := not_or.mp hcounts
        rw [hrecord]
        simp [winUsers, resultUsers, UserRoundOutcome.counts, hnot.1, hnot.2]

/-- Of records with distinct users, each gives a user at most one result. -/
theorem count_results {records : List (UserRoundOutcome A)}
    (hdistinct : (records.map (·.user)).Nodup) (p : UserRoundOutcome A → Bool) (user : A) :
    ((records.filter p).map (·.user)).count user =
      if ∃ record ∈ records, p record = true ∧ record.user = user then 1 else 0 := by
  have hnodup : ((records.filter p).map (·.user)).Nodup :=
    hdistinct.sublist (List.filter_sublist.map _)
  rw [hnodup.count]
  refine if_congr ?_ rfl rfl
  simp [and_assoc]

/-! ## Who competes and who wins -/

omit [LinearOrder A] in
theorem revealed_iff {rounds : Rounds A} {roundId : ℕ} :
    (∃ user ∈ rounds.participants roundId,
      (rounds.precisionPosition.get (roundId, user)).isSome = true) ↔ rounds.Revealed roundId := by
  simp only [Rounds.Revealed, Option.isSome_iff_exists]

instance (rounds : Rounds A) (roundId : ℕ) : Decidable (rounds.Revealed roundId) :=
  decidable_of_iff _ revealed_iff

/-- Whether a settlement at a price is competitive: an UpDown round has stakes on both sides and
the price moved, and in a Precision round somebody revealed a prediction. -/
def Rounds.Competitive (rounds : Rounds A) (round : Round) (finalPrice : ℕ) : Prop :=
  match round.mode with
  | .upDown => 0 < round.poolUp ∧ 0 < round.poolDown ∧ finalPrice ≠ round.priceStart
  | .precision => rounds.Revealed round.roundId

/-- Whether a participant wins a competitive settlement: with a bet on the side the price moved to,
or with a prediction nobody is closer than. -/
def Rounds.Wins (rounds : Rounds A) (round : Round) (finalPrice : ℕ) (user : A) : Prop :=
  match round.mode with
  | .upDown => rounds.betOn round.roundId (round.winningSide finalPrice) user = true
  | .precision => rounds.IsWinner round.roundId finalPrice
      (rounds.participants round.roundId) user

instance (rounds : Rounds A) (round : Round) (finalPrice : ℕ) :
    Decidable (rounds.Competitive round finalPrice) := by
  unfold Rounds.Competitive
  cases round.mode <;> infer_instance

instance (rounds : Rounds A) (round : Round) (finalPrice : ℕ) (user : A) :
    Decidable (rounds.Wins round finalPrice user) := by
  unfold Rounds.Wins
  cases round.mode <;> infer_instance

section Plan

variable {terms : Terms} {rounds : Rounds A} {round : Round} {finalPrice : ℕ}

omit [LinearOrder A] in
/-- Refund records have one outcome and pay the stakes back. -/
theorem mem_refundRecords {price : A → ℕ} {outcome : UserOutcomeType} {participants : List A}
    {record : UserRoundOutcome A}
    (hmem : record ∈ rounds.refundRecords round price outcome participants) :
    record.outcome = outcome ∧ record.payout = record.stake := by
  obtain ⟨user, -, rfl⟩ := List.mem_map.mp hmem
  simp

/-- A settlement that is not competitive refunds every participant. -/
theorem Terms.plan_refunds (hbook : Represents rounds round)
    (hrefunds : ¬ rounds.Competitive round finalPrice) {record : UserRoundOutcome A}
    (hmem : record ∈ (terms.plan rounds round finalPrice).records) :
    record.outcome = .refund ∧ record.payout = record.stake := by
  by_cases hrefund : (round.mode = .upDown → round.refundsAt finalPrice) ∧
      (round.mode = .precision → ∀ user ∈ rounds.participants round.roundId,
        rounds.precisionPosition.get (round.roundId, user) = none)
  · rw [Terms.plan_of_refund hrefund.1 hrefund.2] at hmem
    exact mem_refundRecords hmem
  · cases hmode : round.mode with
    | upDown =>
        unfold Rounds.Competitive at hrefunds
        simp only [hmode] at hrefunds
        have hmoves : ¬ round.refundsAt finalPrice := fun h => hrefund
          ⟨fun _ => h, fun hprecision => by simp [hmode] at hprecision⟩
        have hempty : rounds.participants round.roundId = [] := by
          by_contra hne
          obtain ⟨hup, hdown⟩ := pools_pos hbook hmode hmoves hne
          exact hrefunds ⟨hup, hdown, fun h => hmoves (.inr h)⟩
        rw [Terms.plan, hmode] at hmem
        simp [Terms.upDownPlan, hmoves, hempty, sortAddresses] at hmem
    | precision =>
        unfold Rounds.Competitive at hrefunds
        simp only [hmode] at hrefunds
        refine absurd ⟨fun h => by simp [hmode] at h, fun _ user huser => ?_⟩ hrefund
        by_contra hsome
        obtain ⟨prediction, hprediction⟩ := Option.ne_none_iff_exists'.mp hsome
        exact hrefunds ⟨user, huser, prediction, hprediction⟩

/-- A competitive settlement counts for every participant, as a win for the winners. -/
theorem Terms.plan_counted (hcompetitive : rounds.Competitive round finalPrice) :
    ∀ record ∈ (terms.plan rounds round finalPrice).records, record.counts ∧
      (record.outcome = .win ↔ rounds.Wins round finalPrice record.user) := by
  intro record hmem
  unfold Rounds.Competitive at hcompetitive
  unfold Rounds.Wins
  cases hmode : round.mode with
  | upDown =>
      simp only [hmode] at hcompetitive ⊢
      obtain ⟨hup, hdown, hmoved⟩ := hcompetitive
      have hplan := @Ending.IsCompetitive.plan _ _ ⟨round, .resolved finalPrice⟩ _
        ⟨rfl, hmode, ⟨hup, hdown⟩, hmoved⟩ terms rounds
      rw [Ending.plan_of_price rfl] at hplan
      rw [hplan] at hmem
      obtain ⟨user, -, rfl⟩ := List.mem_map.mp hmem
      rw [upDownRecord_user]
      unfold Terms.upDownRecord UserRoundOutcome.counts
      split <;> simp_all
  | precision =>
      simp only [hmode] at hcompetitive ⊢
      obtain ⟨fee, hplan⟩ := @Terms.plan_of_revealed _ _ _ finalPrice terms _ hmode hcompetitive
      rw [hplan] at hmem
      rcases List.mem_append.mp hmem with hwin | hlost
      · obtain ⟨houtcome, huser, -⟩ := mem_winRecords hwin
        refine ⟨.inl houtcome, iff_of_true houtcome ?_⟩
        have hwins := of_decide_eq_true (List.mem_filter.mp huser).2
        simpa [Rounds.IsWinner, mem_sortAddresses] using hwins
      · obtain ⟨user, huser, rfl⟩ := List.mem_map.mp hlost
        have hloses := of_decide_eq_true (List.mem_filter.mp huser).2
        refine ⟨.inr (outcomeRecord_outcome ..), iff_of_false (by simp [Rounds.lossRecord]) ?_⟩
        simpa [Rounds.IsWinner, mem_sortAddresses, Rounds.lossRecord] using hloses

end Plan

section Participants

/-- Equality of addresses is decided by their order. -/
local instance address_lawfulBEq : LawfulBEq A :=
  inferInstance

/-- An ending settles its round competitively with a user among the participants. -/
def Ending.competed (ending : Ending) (rounds : Rounds A) (user : A) : Bool :=
  ending.kind.price.any fun finalPrice => decide
    (rounds.Competitive ending.round finalPrice ∧ user ∈ rounds.participants ending.round.roundId)

/-- An ending settles its round competitively and a user is among the winners. -/
def Ending.won (ending : Ending) (rounds : Rounds A) (user : A) : Bool :=
  ending.kind.price.any fun finalPrice => decide
    (rounds.Competitive ending.round finalPrice ∧
      user ∈ rounds.participants ending.round.roundId ∧ rounds.Wins ending.round finalPrice user)

end Participants

section Endings

variable {ending : Ending} {rounds : Rounds A} {terms : Terms} {finalPrice : ℕ} {user : A}

/-- The record of a participant counts when the participant competed, is a win when the participant
won, and otherwise pays the stake back. -/
theorem Ending.classified (hbook : Represents rounds ending.round)
    (hcap : FeeCapped terms.protocolFeeBps) {record : UserRoundOutcome A}
    (hmem : record ∈ (ending.plan terms rounds).records) :
    (record.counts ↔ ending.competed rounds record.user = true) ∧
      (record.outcome = .win ↔ ending.won rounds record.user = true) ∧
      (¬ record.counts →
        (record.outcome = .refund ∨ record.outcome = .void) ∧ record.payout = record.stake) := by
  have huser := (Ending.plan_sound hbook hcap).users.mem_iff.mp (List.mem_map_of_mem hmem)
  have hrefunded : (record.outcome = .refund ∨ record.outcome = .void) →
      ¬ record.counts ∧ record.outcome ≠ .win := by
    rintro (h | h) <;> simp [UserRoundOutcome.counts, h]
  cases hprice : ending.kind.price with
  | none =>
      obtain ⟨price, outcome, houtcome, hplan⟩ := @Ending.plan_of_no_price _ _ rounds terms _ hprice
      rw [hplan] at hmem
      obtain ⟨hequal, hpayout⟩ := mem_refundRecords hmem
      rw [← hequal] at houtcome
      obtain ⟨huncounted, hunwon⟩ := hrefunded houtcome
      refine ⟨iff_of_false huncounted ?_, iff_of_false hunwon ?_, fun _ => ⟨houtcome, hpayout⟩⟩
      · simp [Ending.competed, hprice]
      · simp [Ending.won, hprice]
  | some finalPrice =>
      rw [Ending.plan_of_price hprice] at hmem
      simp only [Ending.competed, Ending.won, hprice, Option.any_some, decide_eq_true_eq, huser,
        true_and, and_true]
      by_cases hcompetitive : rounds.Competitive ending.round finalPrice
      · obtain ⟨hcounts, hwins⟩ := Terms.plan_counted hcompetitive record hmem
        refine ⟨iff_of_true hcounts hcompetitive, ?_, fun hnot => absurd hcounts hnot⟩
        rw [hwins, and_iff_right hcompetitive]
      · obtain ⟨houtcome, hpayout⟩ := Terms.plan_refunds hbook hcompetitive hmem
        obtain ⟨huncounted, hunwon⟩ := hrefunded (.inl houtcome)
        exact ⟨iff_of_false huncounted hcompetitive,
          iff_of_false hunwon fun h => hcompetitive h.1, fun _ => ⟨.inl houtcome, hpayout⟩⟩

/-- Only a participant competes. -/
theorem Ending.participant_of_competed (hcompeted : ending.competed rounds user = true) :
    user ∈ rounds.participants ending.round.roundId := by
  rw [Ending.competed, Option.any_eq_true] at hcompeted
  obtain ⟨finalPrice, -, hcompetes⟩ := hcompeted
  exact (of_decide_eq_true hcompetes).2

/-- Nobody competes in a cancellation. -/
theorem Ending.kind_of_competed (hcompeted : ending.competed rounds user = true) (reason : ℕ) :
    ending.kind ≠ .cancelled reason := by
  intro hkind
  simp [Ending.competed, hkind, EndingKind.price] at hcompeted

/-- Who wins competed. -/
theorem Ending.competed_of_won (hwon : ending.won rounds user = true) :
    ending.competed rounds user = true := by
  rw [Ending.won, Option.any_eq_true] at hwon
  obtain ⟨finalPrice, hprice, hwins⟩ := hwon
  obtain ⟨hcompetitive, huser, -⟩ := of_decide_eq_true hwins
  simp [Ending.competed, hprice, hcompetitive, huser]

/-- The records of an ending count a win for those who won and a result for those who competed. -/
theorem Ending.counts (hbook : Represents rounds ending.round)
    (hcap : FeeCapped terms.protocolFeeBps) :
    (winUsers (ending.plan terms rounds).records).count user =
        (if ending.won rounds user then 1 else 0) ∧
      (resultUsers (ending.plan terms rounds).records).count user =
        if ending.competed rounds user then 1 else 0 := by
  have hsound := Ending.plan_sound hbook hcap
  have hdistinct := hsound.users.nodup_iff.mpr hbook.nodup
  have hrecorded : user ∈ rounds.participants ending.round.roundId →
      ∃ record ∈ (ending.plan terms rounds).records, record.user = user := fun huser =>
    List.mem_map.mp (hsound.users.mem_iff.mpr huser)
  rw [winUsers, resultUsers, count_results hdistinct, count_results hdistinct]
  simp only [decide_eq_true_eq]
  refine ⟨if_congr ⟨?_, fun hwon => ?_⟩ rfl rfl, if_congr ⟨?_, fun hcompeted => ?_⟩ rfl rfl⟩
  · rintro ⟨record, hmem, hwin, rfl⟩
    exact (Ending.classified hbook hcap hmem).2.1.mp hwin
  · have huser := Ending.participant_of_competed (Ending.competed_of_won hwon)
    obtain ⟨record, hmem, rfl⟩ := hrecorded huser
    exact ⟨record, hmem, (Ending.classified hbook hcap hmem).2.1.mpr hwon, rfl⟩
  · rintro ⟨record, hmem, hcounts, rfl⟩
    exact (Ending.classified hbook hcap hmem).1.mp hcounts
  · obtain ⟨record, hmem, rfl⟩ := hrecorded (Ending.participant_of_competed hcompeted)
    exact ⟨record, hmem, (Ending.classified hbook hcap hmem).1.mpr hcompeted, rfl⟩

end Endings

/-- A transition settles a round competitively with a user among its participants. -/
def competesIn (transition : Transition (Chain A) (Action A)) (user : A) : Bool :=
  (endingOf transition).any fun ending => ending.competed transition.before.storage.rounds user

/-- A transition settles a round competitively and a user is among its winners. -/
def winsIn (transition : Transition (Chain A) (Action A)) (user : A) : Bool :=
  (endingOf transition).any fun ending => ending.won transition.before.storage.rounds user

/-- Every transition of a healthy chain counts a win where the user wins and a result where the
user competes. -/
theorem Chain.Healthy.counts {chain chain' : Chain A} {action : Action A}
    (hhealthy : chain.Healthy) (user : A) :
    (winUsers (recordsOf ⟨chain, action, chain'⟩)).count user =
        (if winsIn ⟨chain, action, chain'⟩ user then 1 else 0) ∧
      (resultUsers (recordsOf ⟨chain, action, chain'⟩)).count user =
        if competesIn ⟨chain, action, chain'⟩ user then 1 else 0 := by
  unfold recordsOf winsIn competesIn
  cases hending : endingOf (⟨chain, action, chain'⟩ : Transition (Chain A) (Action A)) with
  | none => exact ⟨rfl, rfl⟩
  | some ending =>
      cases action with
      | closeLedger | expire => cases hending
      | invoke signers call =>
          have hlive := (Call.endsBy hending).live hhealthy.ordered
          exact Ending.counts (hhealthy.ordered.live _ _ hlive).2 hhealthy.fee_capped

/-! ## Statistics over histories -/

/-- The counters of a user are accounted for by the history. -/
structure Scored (user : A) (trace : List (Transition (Chain A) (Action A))) (chain : Chain A) :
    Prop where
  accounted : chain.storage.stats.Accounted user
  wins : (chain.storage.stats.lifetimeUserStats user).totalWins =
    trace.countP fun transition => winsIn transition user
  results : (chain.storage.stats.lifetimeUserStats user).totalWins +
      (chain.storage.stats.lifetimeUserStats user).totalLosses =
    trace.countP fun transition => competesIn transition user

section Scored

variable {host : Host A} {chain chain' : Chain A} {action : Action A} {user : A}
  {trace : List (Transition (Chain A) (Action A))}

/-- Every step accounts for what it counts. -/
theorem Scored.step (hscored : Scored user trace chain) (hstep : Step host chain action chain')
    (hhealthy : chain.Healthy) : Scored user (trace ++ [⟨chain, action, chain'⟩]) chain' := by
  have hcounts := @Chain.Healthy.counts _ _ _ chain' action hhealthy user
  have hresults := Stats.countAll_results chain.storage.stats
    (recordsOf ⟨chain, action, chain'⟩) user
  rw [hcounts.1, hcounts.2, hscored.results, hscored.wins] at hresults
  have htotal : ∀ counted : Transition (Chain A) (Action A) → Bool,
      (trace ++ [(⟨chain, action, chain'⟩ : Transition (Chain A) (Action A))]).countP counted =
        trace.countP counted + if counted ⟨chain, action, chain'⟩ then 1 else 0 := by
    intro counted
    rw [List.countP_append, List.countP_singleton]
  rcases hstep.statsChange hhealthy with hcounted | ⟨hnone, hnext⟩
  · rw [← hcounted] at hresults
    refine ⟨?_, ?_, ?_⟩
    · rw [hcounted]
      exact hscored.accounted.countAll _
    · rw [htotal, hresults.1]
    · rw [htotal, hresults.2]
  · rw [hnone] at hresults
    have hlifetime : chain'.storage.stats.lifetimeUserStats user =
        chain.storage.stats.lifetimeUserStats user := by
      unfold Stats.lifetimeUserStats
      rw [hnext.userStats]
    refine ⟨hscored.accounted.nextSeason hnext, ?_, ?_⟩
    · rw [htotal, hlifetime]
      exact hresults.1
    · rw [htotal, hlifetime]
      exact hresults.2

/-- Throughout every history the results of a user are counted and accounted for. -/
theorem History.scored (hhistory : History host trace chain) (user : A) :
    Scored user trace chain := by
  obtain ⟨ledger, hrun⟩ := hhistory
  refine hrun.invariant_of_trace (Scored user) ⟨Stats.accounted_empty, rfl, rfl⟩
    fun earlier transition hearlier hstep hbefore => ?_
  exact hbefore.step hstep (History.healthy ⟨ledger, hearlier⟩)

/-- Throughout every history the wins and losses of every user add up over the seasons, the streaks
fit, the results are the competitive settlements the user took part in, and the wins are those of
them the user won. -/
theorem statistics_accounted (hhistory : History host trace chain) (user : A) :
    chain.storage.stats.Accounted user ∧
      (chain.storage.stats.lifetimeUserStats user).totalWins =
        trace.countP (fun transition => winsIn transition user) ∧
      (chain.storage.stats.lifetimeUserStats user).totalWins +
          (chain.storage.stats.lifetimeUserStats user).totalLosses =
        trace.countP fun transition => competesIn transition user := by
  have hscored := hhistory.scored user
  exact ⟨hscored.accounted, hscored.wins, hscored.results⟩

end Scored

/-- User 3 wins the one competitive settlement of the trial run, and user 4 loses it. -/
theorem statistics_accounted_finalized : ∃ trace, ∃ chain : Chain ℕ,
    History trialHost trace chain ∧
      (trace.countP fun transition => winsIn transition 3) = 1 ∧
      (trace.countP fun transition => winsIn transition 4) = 0 ∧
      (trace.countP fun transition => competesIn transition 4) = 1 := by
  obtain ⟨trace, chain, hhistory, -, hfits⟩ := exists_trial_history
    (overlappingRounds ++ [.closeLedger (ledgerAt 30), .invoke [9] (.finalizeRound 1)])
    (fun chain => decide ((chain.storage.stats.lifetimeUserStats 3).totalWins = 1 ∧
      (chain.storage.stats.lifetimeUserStats 4).totalWins = 0 ∧
      (chain.storage.stats.lifetimeUserStats 4).totalLosses = 1)) (by decide +kernel)
  obtain ⟨hthree, hfour, hlost⟩ := of_decide_eq_true hfits
  obtain ⟨-, hwins, -⟩ := statistics_accounted hhistory 3
  obtain ⟨-, hwins', hresults⟩ := statistics_accounted hhistory 4
  refine ⟨trace, chain, hhistory, ?_, ?_, ?_⟩
  · rw [← hwins, hthree]
  · rw [← hwins', hfour]
  · rw [← hresults, hfour, hlost]

end XelmaMarket
