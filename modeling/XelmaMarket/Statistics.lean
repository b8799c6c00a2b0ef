import XelmaMarket.Leaderboard
import XelmaMarket.Lib.Ranking

/-!
# Statistics

Pure functions for what a result does to the statistics: the counters of a user, and the four
indexes the user is re-ranked in. A refunded or voided record counts nowhere.
-/

namespace XelmaMarket

open Transaction

variable {A : Type}

/-- The counters after a result. -/
def UserStats.counted (stats : UserStats) : UserOutcomeType → UserStats
  | .win =>
      { stats with
        totalWins := stats.totalWins + 1
        currentStreak := stats.currentStreak + 1
        bestStreak := max stats.bestStreak (stats.currentStreak + 1) }
  | .loss => { stats with totalLosses := stats.totalLosses + 1, currentStreak := 0 }
  | .refund | .void | .cancel => stats

/-- Whether a record counts in the statistics: a win or a loss does. -/
def UserRoundOutcome.counts (record : UserRoundOutcome A) : Prop :=
  record.outcome = .win ∨ record.outcome = .loss

instance (record : UserRoundOutcome A) : Decidable record.counts :=
  inferInstanceAs (Decidable (_ ∨ _))

theorem UserStats.win_eq_ok {stats stats' : UserStats} :
    stats.win = .ok stats' → stats' = stats.counted .win := by
  simp only [UserStats.win, bind_eq_ok, checkedUint_eq_ok, pure, Except.pure, Except.ok.injEq]
  rintro ⟨_, ⟨rfl, -⟩, _, ⟨rfl, -⟩, rfl⟩
  rfl

theorem UserStats.loss_eq_ok {stats stats' : UserStats} :
    stats.loss = .ok stats' → stats' = stats.counted .loss := by
  simp only [UserStats.loss, bind_eq_ok, checkedUint_eq_ok, pure, Except.pure, Except.ok.injEq]
  rintro ⟨_, ⟨rfl, -⟩, rfl⟩
  rfl

variable [LinearOrder A]

/-- The statistics with a user's counters replaced, and the user re-ranked in both lifetime and
both season indexes. -/
def Stats.replace (stats : Stats A) (user : A) (lifetime season : UserStats) : Stats A :=
  let userStats := stats.userStats.set user lifetime
  let seasonUserStats := stats.seasonUserStats.set (stats.currentSeasonId, user) season
  let lifetimeOf := fun other => userStats.getD other .zero
  let seasonOf := fun other => seasonUserStats.getD (stats.currentSeasonId, other) .zero
  { stats with
    userStats := userStats
    leaderboardWins := some (reindex (reinsertSortedByWins lifetimeOf) stats.leaderboardWins user)
    leaderboardStreak :=
      some (reindex (reinsertSortedByStreak lifetimeOf) stats.leaderboardStreak user)
    seasonUserStats := seasonUserStats
    seasonLeaderboardWins :=
      some (reindex (reinsertSortedByWins seasonOf) stats.seasonLeaderboardWins user)
    seasonLeaderboardStreak :=
      some (reindex (reinsertSortedByStreak seasonOf) stats.seasonLeaderboardStreak user) }

/-- The statistics after a result of a user. -/
def Stats.count (stats : Stats A) (user : A) (outcome : UserOutcomeType) : Stats A :=
  stats.replace user ((stats.lifetimeUserStats user).counted outcome)
    ((stats.seasonUserStatsRaw stats.currentSeasonId user).counted outcome)

/-- The statistics after a record: only one that counts changes them. -/
def Stats.countRecord (stats : Stats A) (record : UserRoundOutcome A) : Stats A :=
  if record.counts then stats.count record.user record.outcome else stats

/-- The statistics after records, in order. -/
def Stats.countAll (stats : Stats A) (records : List (UserRoundOutcome A)) : Stats A :=
  records.foldl Stats.countRecord stats

theorem Stats.countAll_append (stats : Stats A) (first second : List (UserRoundOutcome A)) :
    stats.countAll (first ++ second) = (stats.countAll first).countAll second :=
  List.foldl_append

/-- Records that do not count leave the statistics alone. -/
theorem Stats.countAll_eq_self {stats : Stats A} {records : List (UserRoundOutcome A)}
    (hcounts : ∀ record ∈ records, ¬ record.counts) : stats.countAll records = stats := by
  induction records with
  | nil => rfl
  | cons record rest ih =>
      have hrecord : stats.countRecord record = stats := if_neg (hcounts record List.mem_cons_self)
      rw [Stats.countAll, List.foldl_cons, hrecord]
      exact ih fun other hmem => hcounts other (List.mem_cons_of_mem _ hmem)

/-- Recording a result replaces the user's lifetime and season counters by the counted ones. -/
theorem updateStats_spec {env : Env A} {stats : Stats A} {outcome : UserOutcomeType}
    {record : UserStats → Except Failure UserStats}
    (hrecord : ∀ old new, record old = .ok new → new = old.counted outcome) (user : A) :
    Ensures (updateStats record user) env stats fun _ stats' =>
      stats' = stats.count user outcome := by
  simp only [updateStats, updateSeasonStats, updateLeaderboards, updateSeasonLeaderboards,
    ensures_bind, ensures_gets, ensures_liftM, ensures_update]
  intro lifetime hlifetime season hseason
  rw [hrecord _ _ hlifetime, hrecord _ _ hseason]
  rfl

theorem updateStatsWin_spec {env : Env A} {stats : Stats A} (user : A) :
    Ensures (updateStatsWin user) env stats fun _ stats' => stats' = stats.count user .win :=
  updateStats_spec (fun _ _ => UserStats.win_eq_ok) user

theorem updateStatsLoss_spec {env : Env A} {stats : Stats A} (user : A) :
    Ensures (updateStatsLoss user) env stats fun _ stats' => stats' = stats.count user .loss :=
  updateStats_spec (fun _ _ => UserStats.loss_eq_ok) user

/-! ## The counters of a user -/

section Counters

variable (stats : Stats A) (user other : A) (lifetime season : UserStats)

@[simp] theorem Stats.replace_currentSeasonId :
    (stats.replace user lifetime season).currentSeasonId = stats.currentSeasonId := rfl

theorem Stats.replace_lifetimeUserStats :
    (stats.replace user lifetime season).lifetimeUserStats other =
      if other = user then lifetime else stats.lifetimeUserStats other :=
  Store.getD_set _ _ _ _ _

theorem Stats.replace_seasonUserStatsRaw (seasonId : ℕ) :
    (stats.replace user lifetime season).seasonUserStatsRaw seasonId other =
      if seasonId = stats.currentSeasonId ∧ other = user then season
      else stats.seasonUserStatsRaw seasonId other := by
  refine (Store.getD_set _ _ _ _ _).trans ?_
  simp only [Prod.mk.injEq]
  rfl

@[simp] theorem Stats.countRecord_currentSeasonId (record : UserRoundOutcome A) :
    (stats.countRecord record).currentSeasonId = stats.currentSeasonId := by
  unfold Stats.countRecord
  split <;> rfl

@[simp] theorem Stats.countAll_currentSeasonId (records : List (UserRoundOutcome A)) :
    (stats.countAll records).currentSeasonId = stats.currentSeasonId := by
  induction records generalizing stats with
  | nil => rfl
  | cons record rest ih => exact (ih _).trans (stats.countRecord_currentSeasonId record)

end Counters

/-! ## Rankings -/

/-- One address ranks before another: by a higher rank, or by address at the same rank. -/
def Outranks (rank : A → ℕ) (a b : A) : Prop :=
  rank b < rank a ∨ rank a = rank b ∧ a < b

section Outranks

variable {rank rank' : A → ℕ} {index : Option (List A)} {members : A → Prop} {user : A}

theorem outranks_irrefl (a : A) : ¬ Outranks rank a a := by
  rintro (hlt | ⟨-, hlt⟩)
  · exact lt_irrefl _ hlt
  · exact lt_irrefl _ hlt

theorem outranks_trans (a b c : A) (hab : Outranks rank a b) (hbc : Outranks rank b c) :
    Outranks rank a c := by
  rcases hab with hab | ⟨hab, hlt⟩ <;> rcases hbc with hbc | ⟨hbc, hlt'⟩
  · exact .inl (hbc.trans hab)
  · exact .inl (hbc ▸ hab)
  · exact .inl (hab ▸ hbc)
  · exact .inr ⟨hab.trans hbc, hlt.trans hlt'⟩

theorem outranks_total (a b : A) (hne : a ≠ b) : Outranks rank a b ∨ Outranks rank b a := by
  rcases lt_trichotomy (rank a) (rank b) with hlt | heq | hlt
  · exact .inr (.inl hlt)
  · rcases lt_or_gt_of_ne hne with hlt | hlt
    · exact .inl (.inr ⟨heq, hlt⟩)
    · exact .inr (.inr ⟨heq.symm, hlt⟩)
  · exact .inl (.inl hlt)

theorem insertByRank_perm (address : A) (sorted : List A) :
    (insertByRank rank address sorted).Perm (address :: sorted) := by
  induction sorted with
  | nil => exact .refl _
  | cons other rest ih =>
      unfold insertByRank
      split
      · exact .refl _
      · exact (ih.cons other).trans (.swap ..)

/-- Inserting a new address keeps a list sorted. -/
theorem insertByRank_sorted {address : A} {sorted : List A}
    (hsorted : sorted.Pairwise (Outranks rank)) (hnew : address ∉ sorted) :
    (insertByRank rank address sorted).Pairwise (Outranks rank) := by
  induction sorted with
  | nil => exact List.pairwise_singleton _ _
  | cons other rest ih =>
      obtain ⟨hfirst, hrest⟩ := List.pairwise_cons.mp hsorted
      obtain ⟨hne, hnot⟩ := not_or.mp (mt List.mem_cons.mpr hnew)
      unfold insertByRank
      split
      · next hbefore =>
          refine List.pairwise_cons.mpr ⟨fun a hmem => ?_, hsorted⟩
          rcases List.mem_cons.mp hmem with rfl | hmem
          · exact hbefore
          · exact outranks_trans _ _ _ hbefore (hfirst a hmem)
      · next hafter =>
          refine List.pairwise_cons.mpr ⟨fun a hmem => ?_, ih hrest hnot⟩
          rcases List.mem_cons.mp ((insertByRank_perm address rest).mem_iff.mp hmem) with rfl | hmem
          · exact (outranks_total _ _ hne).resolve_left hafter
          · exact hfirst a hmem

theorem foldl_insertByRank (addresses sorted : List A) :
    (addresses.foldl (fun sorted address => insertByRank rank address sorted) sorted).Perm
      (addresses ++ sorted) ∧
    ((addresses ++ sorted).Nodup → sorted.Pairwise (Outranks rank) →
      (addresses.foldl (fun sorted address => insertByRank rank address sorted)
        sorted).Pairwise (Outranks rank)) := by
  induction addresses generalizing sorted with
  | nil => exact ⟨.refl _, fun _ hsorted => hsorted⟩
  | cons address rest ih =>
      have hperm := @insertByRank_perm _ _ rank address sorted
      have hmiddle : (rest ++ insertByRank rank address sorted).Perm
          (address :: rest ++ sorted) :=
        (hperm.append_left rest).trans List.perm_middle
      obtain ⟨hrest, hkeeps⟩ := ih (insertByRank rank address sorted)
      refine ⟨hrest.trans hmiddle, fun hnodup hsorted => ?_⟩
      refine hkeeps (hmiddle.nodup_iff.mpr hnodup) (insertByRank_sorted hsorted fun hmem => ?_)
      exact (List.nodup_cons.mp hnodup).1 (List.mem_append_right _ hmem)

/-- Reinserting addresses keeps them all. -/
theorem reinsertSorted_perm (addresses : List A) :
    (reinsertSorted rank addresses).Perm addresses := by
  simpa [reinsertSorted] using (foldl_insertByRank addresses []).1

/-- Reinserting different addresses sorts them. -/
theorem reinsertSorted_sorted {addresses : List A} (hnodup : addresses.Nodup) :
    (reinsertSorted rank addresses).Pairwise (Outranks rank) :=
  (foldl_insertByRank addresses []).2 (by simpa using hnodup) .nil

/-- When a user's rank rises and the others keep theirs, the bounded index is the ranking again,
with the user among the members. -/
theorem reindex_isRanking (hkept : ∀ other, other ≠ user → rank' other = rank other)
    (hrises : rank user ≤ rank' user)
    (hranking : IsRanking (Outranks rank) leaderboardLimit members (index.getD [])) :
    IsRanking (Outranks rank') leaderboardLimit (fun a => a = user ∨ members a)
      (reindex (reinsertSorted rank') index user) := by
  have hnodup : (index.getD []).Nodup := by
    refine hranking.leads.sorted.imp ?_
    rintro a _ hab rfl
    exact outranks_irrefl a hab
  have hperm : (withoutUser (index.getD []) user ++ [user]).Perm
      (user :: (index.getD []).filter (· ≠ user)) := List.perm_append_singleton _ _
  have hdistinct : (user :: (index.getD []).filter (· ≠ user)).Nodup :=
    List.nodup_cons.mpr ⟨by simp, hnodup.filter _⟩
  refine hranking.reinsert outranks_irrefl outranks_irrefl outranks_trans ?_ ?_
    (reinsertSorted_sorted (hperm.nodup_iff.mpr hdistinct)) ((reinsertSorted_perm _).trans hperm)
    outranks_total
  · intro a b ha hb hab
    unfold Outranks at hab ⊢
    rwa [hkept a ha, hkept b hb]
  · intro a ha hab
    unfold Outranks
    rw [hkept a ha]
    rcases hab with hlt | ⟨heq, hlt⟩
    · exact .inl (hlt.trans_le hrises)
    · rcases hrises.lt_or_eq with hrose | hsame
      · exact .inl (heq ▸ hrose)
      · exact .inr ⟨hsame ▸ heq, hlt⟩

end Outranks

/-- The four indexes are the bounded rankings of the users with results, over all seasons and in
the active one. -/
structure Stats.Ranked (stats : Stats A) (lifetime season : A → Prop) : Prop where
  wins : IsRanking (Outranks fun user => (stats.lifetimeUserStats user).totalWins)
    leaderboardLimit lifetime (stats.leaderboardWins.getD [])
  streak : IsRanking (Outranks fun user => (stats.lifetimeUserStats user).bestStreak)
    leaderboardLimit lifetime (stats.leaderboardStreak.getD [])
  seasonWins : IsRanking
    (Outranks fun user => (stats.seasonUserStatsRaw stats.currentSeasonId user).totalWins)
    leaderboardLimit season (stats.seasonLeaderboardWins.getD [])
  seasonStreak : IsRanking
    (Outranks fun user => (stats.seasonUserStatsRaw stats.currentSeasonId user).bestStreak)
    leaderboardLimit season (stats.seasonLeaderboardStreak.getD [])

section Ranked

variable {stats : Stats A} {lifetime season : A → Prop}

/-- A result never lowers the wins or the best streak. -/
theorem UserStats.le_counted (stats : UserStats) (outcome : UserOutcomeType) :
    stats.totalWins ≤ (stats.counted outcome).totalWins ∧
      stats.bestStreak ≤ (stats.counted outcome).bestStreak := by
  cases outcome with
  | win => exact ⟨Nat.le_succ _, le_max_left _ _⟩
  | loss | refund | void | cancel => exact ⟨le_rfl, le_rfl⟩

/-- A result ranks its user in all four indexes. -/
theorem Stats.Ranked.count (hranked : stats.Ranked lifetime season) (user : A)
    (outcome : UserOutcomeType) :
    (stats.count user outcome).Ranked (fun a => a = user ∨ lifetime a)
      (fun a => a = user ∨ season a) := by
  have hself : (stats.count user outcome).lifetimeUserStats user =
      (stats.lifetimeUserStats user).counted outcome :=
    (stats.replace_lifetimeUserStats user user _ _).trans (if_pos rfl)
  have hother : ∀ other, other ≠ user → (stats.count user outcome).lifetimeUserStats other =
      stats.lifetimeUserStats other :=
    fun other hne => (stats.replace_lifetimeUserStats user other _ _).trans (if_neg hne)
  have hseasonSelf : (stats.count user outcome).seasonUserStatsRaw stats.currentSeasonId user =
      (stats.seasonUserStatsRaw stats.currentSeasonId user).counted outcome :=
    (stats.replace_seasonUserStatsRaw user user _ _ _).trans (if_pos ⟨rfl, rfl⟩)
  have hseasonOther : ∀ other, other ≠ user →
      (stats.count user outcome).seasonUserStatsRaw stats.currentSeasonId other =
        stats.seasonUserStatsRaw stats.currentSeasonId other :=
    fun other hne => (stats.replace_seasonUserStatsRaw user other _ _ _).trans
      (if_neg fun h => hne h.2)
  have hlifetimeRises := (stats.lifetimeUserStats user).le_counted outcome
  have hseasonRises := (stats.seasonUserStatsRaw stats.currentSeasonId user).le_counted outcome
  rw [← hself] at hlifetimeRises
  rw [← hseasonSelf] at hseasonRises
  constructor
  · exact reindex_isRanking (fun a hne => congrArg UserStats.totalWins (hother a hne))
      hlifetimeRises.1 hranked.wins
  · exact reindex_isRanking (fun a hne => congrArg UserStats.bestStreak (hother a hne))
      hlifetimeRises.2 hranked.streak
  · exact reindex_isRanking (fun a hne => congrArg UserStats.totalWins (hseasonOther a hne))
      hseasonRises.1 hranked.seasonWins
  · exact reindex_isRanking (fun a hne => congrArg UserStats.bestStreak (hseasonOther a hne))
      hseasonRises.2 hranked.seasonStreak

/-- Rankings of the same members are the same rankings. -/
theorem Stats.Ranked.congr {lifetime' season' : A → Prop} (hranked : stats.Ranked lifetime season)
    (hlifetime : ∀ a, lifetime' a ↔ lifetime a) (hseason : ∀ a, season' a ↔ season a) :
    stats.Ranked lifetime' season' := by
  rwa [funext fun a => propext (hlifetime a), funext fun a => propext (hseason a)]

/-- Records rank the users they count for. -/
theorem Stats.Ranked.countAll (hranked : stats.Ranked lifetime season)
    (records : List (UserRoundOutcome A)) :
    (stats.countAll records).Ranked
      (fun a => lifetime a ∨ ∃ record ∈ records, record.counts ∧ record.user = a)
      (fun a => season a ∨ ∃ record ∈ records, record.counts ∧ record.user = a) := by
  induction records generalizing stats lifetime season with
  | nil => exact hranked.congr (by simp) (by simp)
  | cons record rest ih =>
      by_cases hcounts : record.counts
      · have hfirst : stats.countRecord record = stats.count record.user record.outcome :=
          if_pos hcounts
        rw [Stats.countAll, List.foldl_cons, hfirst]
        refine (ih (hranked.count record.user record.outcome)).congr ?_ ?_ <;>
        · intro a
          simp only [List.mem_cons, exists_eq_or_imp, hcounts, true_and, @eq_comm _ a]
          tauto
      · have hfirst : stats.countRecord record = stats := if_neg hcounts
        rw [Stats.countAll, List.foldl_cons, hfirst]
        refine (ih hranked).congr ?_ ?_ <;>
        · intro a
          simp [hcounts]

end Ranked

end XelmaMarket
