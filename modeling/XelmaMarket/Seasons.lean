import XelmaMarket.Participation
import XelmaMarket.Standings

/-!
# Seasons

What readers see of a season. A page of the active season is computed from its index and the
counters of the moment, a page of an earlier season comes from the archive. The board of a season
changes only when a result is recorded in it, so closing a season changes no page.
-/

namespace XelmaMarket

open Transaction

variable {A : Type}

/-! ## The pages -/

/-- The entries of a frozen board from an offset on, up to a limit. -/
def pageEntries (entries : List (SeasonLeaderboardEntry A)) (offset limit : ℕ) :
    List (SeasonLeaderboardEntry A) :=
  let total := entries.length
  if offset ≥ total then
    []
  else
    let last := min (saturatingAddUint 32 offset limit) total
    (List.range' offset (last - offset)).filterMap fun i => entries[i]?

/-- The entries of a live index from an offset on, up to a limit, with the counters of the
moment. -/
def Stats.livePage (stats : Stats A) (seasonId : ℕ) (list : List A) (offset limit : ℕ) :
    List (SeasonLeaderboardEntry A) :=
  let total := list.length
  if offset ≥ total then
    []
  else
    let last := min (saturatingAddUint 32 offset limit) total
    (List.range' offset (last - offset)).filterMap fun i =>
      list[i]?.map fun user =>
        let stats := stats.seasonUserStatsRaw seasonId user
        { user := user, wins := stats.totalWins, bestStreak := stats.bestStreak }

/-- A page of a season: live while the season is active, archived afterwards. -/
def getSeasonLeaderboard (index : Stats A → Option (List A))
    (archived : SeasonArchive A → List (SeasonLeaderboardEntry A)) (s : Storage A)
    (seasonId offset limit : ℕ) : List (SeasonLeaderboardEntry A) :=
  let limit := min limit maxPageSize
  if limit = 0 then
    []
  else if seasonId = s.stats.currentSeasonId then
    s.stats.livePage seasonId ((index s.stats).getD []) offset limit
  else
    match s.stats.seasonArchive.get seasonId with
    | none => []
    | some archive => pageEntries (archived archive) offset limit

def getSeasonLeaderboardByWins (s : Storage A) (seasonId offset limit : ℕ) :
    List (SeasonLeaderboardEntry A) :=
  getSeasonLeaderboard (·.seasonLeaderboardWins) (·.wins) s seasonId offset limit

def getSeasonLeaderboardByStreak (s : Storage A) (seasonId offset limit : ℕ) :
    List (SeasonLeaderboardEntry A) :=
  getSeasonLeaderboard (·.seasonLeaderboardStreak) (·.streak) s seasonId offset limit

/-! ## The board behind the pages -/

/-- The board of a season as readers see it. -/
def Stats.board (index : Stats A → Option (List A))
    (archived : SeasonArchive A → List (SeasonLeaderboardEntry A)) (stats : Stats A)
    (seasonId : ℕ) : List (SeasonLeaderboardEntry A) :=
  if seasonId = stats.currentSeasonId then
    stats.seasonEntries seasonId ((index stats).getD [])
  else
    (stats.seasonArchive.get seasonId).elim [] archived

/-- The two boards of a season. -/
def Stats.boards (stats : Stats A) (seasonId : ℕ) :
    List (SeasonLeaderboardEntry A) × List (SeasonLeaderboardEntry A) :=
  (stats.board (·.seasonLeaderboardWins) (·.wins) seasonId,
    stats.board (·.seasonLeaderboardStreak) (·.streak) seasonId)

section Pages

variable {stats : Stats A} {s s' : Storage A} {seasonId offset limit : ℕ}

/-- A live page is the page of the entries of the index. -/
theorem livePage_eq (list : List A) : stats.livePage seasonId list offset limit =
    pageEntries (stats.seasonEntries seasonId list) offset limit := by
  unfold Stats.livePage pageEntries Stats.seasonEntries
  simp only [List.length_map, List.getElem?_map]

/-- A page reads the board and nothing else. -/
theorem getSeasonLeaderboard_eq (index : Stats A → Option (List A))
    (archived : SeasonArchive A → List (SeasonLeaderboardEntry A)) :
    getSeasonLeaderboard index archived s seasonId offset limit =
      if min limit maxPageSize = 0 then []
      else pageEntries (s.stats.board index archived seasonId) offset (min limit maxPageSize) := by
  unfold getSeasonLeaderboard Stats.board
  dsimp only
  split
  · rfl
  · split
    · exact livePage_eq _
    · cases s.stats.seasonArchive.get seasonId with
      | none => rfl
      | some archive => rfl

/-- Equal boards give equal pages. -/
theorem pages_eq_of_boards (hboards : s'.stats.boards seasonId = s.stats.boards seasonId)
    (offset limit : ℕ) :
    getSeasonLeaderboardByWins s' seasonId offset limit =
        getSeasonLeaderboardByWins s seasonId offset limit ∧
      getSeasonLeaderboardByStreak s' seasonId offset limit =
        getSeasonLeaderboardByStreak s seasonId offset limit := by
  obtain ⟨hwins, hstreak⟩ := Prod.mk.injEq .. ▸ hboards
  simp only [getSeasonLeaderboardByWins, getSeasonLeaderboardByStreak, getSeasonLeaderboard_eq,
    hwins, hstreak, and_self]

/-- Empty boards have empty pages. -/
theorem pages_eq_nil (hboards : s.stats.boards seasonId = ([], [])) (offset limit : ℕ) :
    getSeasonLeaderboardByWins s seasonId offset limit = [] ∧
      getSeasonLeaderboardByStreak s seasonId offset limit = [] := by
  obtain ⟨hwins, hstreak⟩ := Prod.mk.inj hboards
  simp only [getSeasonLeaderboardByWins, getSeasonLeaderboardByStreak, getSeasonLeaderboard_eq,
    hwins, hstreak]
  simp [pageEntries]

end Pages

/-! ## What a step does to the boards -/

variable [LinearOrder A] {host : Host A} {chain chain' later : Chain A} {action : Action A}
  {signers : List A} {trace : List (Transition (Chain A) (Action A))} {seasonId : ℕ}

/-- Results leave the archives and the boards of all seasons but the active one alone. -/
theorem Stats.countAll_archive (stats : Stats A) (records : List (UserRoundOutcome A)) :
    (stats.countAll records).seasonArchive = stats.seasonArchive := by
  induction records generalizing stats with
  | nil => rfl
  | cons record rest ih =>
      refine (ih _).trans ?_
      unfold Stats.countRecord
      split <;> rfl

theorem Stats.countAll_boards (stats : Stats A) (records : List (UserRoundOutcome A))
    (hother : seasonId ≠ stats.currentSeasonId) :
    (stats.countAll records).boards seasonId = stats.boards seasonId := by
  unfold Stats.boards Stats.board
  rw [Stats.countAll_currentSeasonId, Stats.countAll_archive]
  simp only [if_neg hother]

/-- No season is archived before it is over. -/
def Stats.Unarchived (stats : Stats A) : Prop :=
  ∀ seasonId, stats.currentSeasonId ≤ seasonId → stats.seasonArchive.get seasonId = none

omit [LinearOrder A] in
/-- A reset keeps every board: the closing season's is archived as it stood, and the next season's
is empty before and after. -/
theorem NextSeason.boards {stats stats' : Stats A} (hnext : NextSeason stats stats')
    (hunarchived : stats.Unarchived) (seasonId : ℕ) :
    stats'.boards seasonId = stats.boards seasonId := by
  obtain ⟨archive, harchive, hwins, hstreak⟩ := hnext.archive
  have hboard : ∀ (index : Stats A → Option (List A))
      (archived : SeasonArchive A → List (SeasonLeaderboardEntry A)), index stats' = none →
      archived archive = stats.seasonEntries stats.currentSeasonId ((index stats).getD []) →
      stats'.board index archived seasonId = stats.board index archived seasonId := by
    intro index archived hnone hfrozen
    unfold Stats.board
    rw [hnext.season, harchive, hnone, Store.get_set]
    rcases lt_trichotomy seasonId stats.currentSeasonId with hpast | rfl | hfuture
    · rw [if_neg (by omega), if_neg (by omega), if_neg (by omega)]
    · rw [if_neg (by omega), if_pos rfl, if_pos rfl, ← hfrozen]
      rfl
    · rw [if_neg hfuture.ne', if_neg hfuture.ne', hunarchived seasonId hfuture.le]
      split <;> rfl
  exact Prod.ext (hboard _ _ hnext.seasonWins hwins) (hboard _ _ hnext.seasonStreak hstreak)

/-- Every step leaves the seasons to come unarchived. -/
theorem Step.unarchived (hstep : Step host chain action chain') (hhealthy : chain.Healthy)
    (hunarchived : chain.storage.stats.Unarchived) : chain'.storage.stats.Unarchived := by
  intro seasonId hlater
  rcases hstep.statsChange hhealthy with hcounted | ⟨-, hnext⟩
  · rw [hcounted, Stats.countAll_currentSeasonId] at hlater
    rw [hcounted, Stats.countAll_archive]
    exact hunarchived seasonId hlater
  · obtain ⟨archive, harchive, -⟩ := hnext.archive
    rw [hnext.season] at hlater
    rw [harchive, Store.get_set_of_ne _ _ (by omega)]
    exact hunarchived seasonId (by omega)

/-- No season of a reachable chain is archived before it is over. -/
theorem Reachable.unarchived (hreachable : Reachable host chain) :
    chain.storage.stats.Unarchived := by
  obtain ⟨trace, ledger, hrun⟩ := hreachable
  refine hrun.invariant_of_trace (fun _ chain => chain.storage.stats.Unarchived)
    (fun _ _ => rfl) fun earlier transition hearlier hstep hbefore => ?_
  exact hstep.unarchived (History.healthy ⟨ledger, hearlier⟩) hbefore

/-- A step changes the boards of a season only by recording a result in it. -/
theorem Step.boards (hstep : Step host chain action chain') (hreachable : Reachable host chain)
    (hquiet : ∀ user, ¬ CountedIn [⟨chain, action, chain'⟩] seasonId user) :
    chain'.storage.stats.boards seasonId = chain.storage.stats.boards seasonId := by
  rcases hstep.statsChange hreachable.healthy with hcounted | ⟨-, hnext⟩
  · rw [hcounted]
    by_cases hactive : seasonId = chain.storage.stats.currentSeasonId
    · rw [Stats.countAll_eq_self]
      intro record hmem hcounts
      exact hquiet record.user ⟨_, List.mem_singleton_self _, ⟨record, hmem, hcounts, rfl⟩,
        hactive.symm⟩
    · exact Stats.countAll_boards _ _ hactive
  · exact hnext.boards hreachable.unarchived seasonId

/-- A run changes the boards of a season only by recording a result in it. -/
theorem boards_of_run (hrun : Run (Step host) chain trace chain')
    (hreachable : Reachable host chain)
    (hquiet : ∀ user, ¬ CountedIn trace seasonId user) :
    chain'.storage.stats.boards seasonId = chain.storage.stats.boards seasonId := by
  have hkept : Reachable host chain' ∧
      chain'.storage.stats.boards seasonId = chain.storage.stats.boards seasonId := by
    refine hrun.invariant (fun other => Reachable host other ∧
      other.storage.stats.boards seasonId = chain.storage.stats.boards seasonId)
      ⟨hreachable, rfl⟩ fun transition hmem hstep hbefore => ⟨hbefore.1.step hstep, ?_⟩
    refine (hstep.boards hbefore.1 ?_).trans hbefore.2
    rintro user ⟨only, honly, hcounted⟩
    obtain rfl := List.mem_singleton.mp honly
    exact hquiet user ⟨_, hmem, hcounted⟩
  exact hkept.2

/-- Seasons only go forward. -/
theorem Step.season_le (hstep : Step host chain action chain') (hhealthy : chain.Healthy) :
    chain.storage.stats.currentSeasonId ≤ chain'.storage.stats.currentSeasonId := by
  rcases hstep.statsChange hhealthy with hcounted | ⟨-, hnext⟩
  · rw [hcounted, Stats.countAll_currentSeasonId]
  · rw [hnext.season]
    exact Nat.le_succ _

/-- A run records no result in a season that is over. -/
theorem not_countedIn_past (hrun : Run (Step host) chain trace chain')
    (hreachable : Reachable host chain) (hpast : seasonId < chain.storage.stats.currentSeasonId)
    (user : A) : ¬ CountedIn trace seasonId user := by
  rintro ⟨transition, hmem, -, hseason⟩
  obtain ⟨earlier, later, -, hearlier, -⟩ := hrun.around hmem
  have hforward : transition.before.Healthy ∧
      seasonId < transition.before.storage.stats.currentSeasonId :=
    hearlier.invariant (fun other => other.Healthy ∧
      seasonId < other.storage.stats.currentSeasonId) ⟨hreachable.healthy, hpast⟩
      fun _ _ hstep hbefore => ⟨hstep.healthy hbefore.1,
        hbefore.2.trans_le (hstep.season_le hbefore.1)⟩
  omega

/-! ## The reset of a season -/

/-- A reset keeps the counters of all users and the lifetime indexes. -/
structure KeepsCounters (stats stats' : Stats A) : Prop where
  userStats : stats'.userStats = stats.userStats
  seasonUserStats : stats'.seasonUserStats = stats.seasonUserStats
  leaderboardWins : stats'.leaderboardWins = stats.leaderboardWins
  leaderboardStreak : stats'.leaderboardStreak = stats.leaderboardStreak

/-- A season is read in one storage as in another, on every page. -/
structure SamePages (seasonId : ℕ) (s s' : Storage A) : Prop where
  wins : ∀ offset limit, getSeasonLeaderboardByWins s' seasonId offset limit =
    getSeasonLeaderboardByWins s seasonId offset limit
  streak : ∀ offset limit, getSeasonLeaderboardByStreak s' seasonId offset limit =
    getSeasonLeaderboardByStreak s seasonId offset limit

/-- All pages of a season are empty. -/
structure EmptyPages (seasonId : ℕ) (s : Storage A) : Prop where
  wins : ∀ offset limit, getSeasonLeaderboardByWins s seasonId offset limit = []
  streak : ∀ offset limit, getSeasonLeaderboardByStreak s seasonId offset limit = []

/-- A season reset changes no counters and no lifetime index. Whatever happens after it, the closed
season and the seasons before are read as they were immediately before the reset, and the new
season is empty until a result is recorded in it. -/
theorem season_reset_keeps_pages (hreachable : Reachable host chain)
    (hstep : Step host chain (.invoke signers .resetLeaderboardSeason) chain') :
    KeepsCounters chain.storage.stats chain'.storage.stats ∧
      ∀ trace later, Run (Step host) chain' trace later →
        (∀ seasonId ≤ chain.storage.stats.currentSeasonId,
          SamePages seasonId chain.storage later.storage) ∧
        ((∀ user, ¬ CountedIn trace (chain.storage.stats.currentSeasonId + 1) user) →
          EmptyPages (chain.storage.stats.currentSeasonId + 1) later.storage) := by
  have hnext : NextSeason chain.storage.stats chain'.storage.stats :=
    hstep.ensured resetLeaderboardSeason_spec
  have hreachable' := hreachable.step hstep
  have hreset := hnext.boards hreachable.unarchived
  refine ⟨⟨hnext.userStats, hnext.seasonUserStats, hnext.wins, hnext.streak⟩,
    fun trace later hrun => ⟨fun seasonId hpast => ?_, fun hquiet => ?_⟩⟩
  · have hover : seasonId < chain'.storage.stats.currentSeasonId := by
      rw [hnext.season]
      omega
    have hboards := (boards_of_run hrun hreachable'
      (not_countedIn_past hrun hreachable' hover)).trans (hreset seasonId)
    exact ⟨fun offset limit => (pages_eq_of_boards hboards offset limit).1,
      fun offset limit => (pages_eq_of_boards hboards offset limit).2⟩
  · have hempty : chain'.storage.stats.boards (chain.storage.stats.currentSeasonId + 1) =
        ([], []) := by
      unfold Stats.boards Stats.board
      simp only [hnext.season, if_pos, hnext.seasonWins, hnext.seasonStreak]
      rfl
    have hboards := (boards_of_run hrun hreachable' hquiet).trans hempty
    exact ⟨fun offset limit => (pages_eq_nil hboards offset limit).1,
      fun offset limit => (pages_eq_nil hboards offset limit).2⟩

/-- Round 1 settles in season 1, and the board is the same after the reset. -/
theorem first_season_kept : ∃ chain chain' : Chain ℕ,
    Step trialHost chain (.invoke [1] .resetLeaderboardSeason) chain' ∧
      getSeasonLeaderboardByWins chain'.storage 1 0 10 = [⟨3, 1, 1⟩, ⟨4, 0, 0⟩] ∧
      getSeasonLeaderboardByWins chain'.storage 2 0 10 = [] := by
  obtain ⟨trace, chain, chain', hhistory, hfits⟩ := exists_trial
    (overlappingRounds ++ [.closeLedger (ledgerAt 30), .invoke [9] (.finalizeRound 1)])
    (.invoke [1] .resetLeaderboardSeason)
    (fun chain _ => decide (chain.storage.stats.currentSeasonId = 1 ∧
      getSeasonLeaderboardByWins chain.storage 1 0 10 = [⟨3, 1, 1⟩, ⟨4, 0, 0⟩]))
    (by decide +kernel)
  obtain ⟨hseason, hboard⟩ := of_decide_eq_true hfits
  obtain ⟨hreachable, hstep⟩ := hhistory.last
  obtain ⟨-, hlater⟩ := season_reset_keeps_pages hreachable hstep
  obtain ⟨hsame, hempty⟩ := hlater [] chain' (.nil _)
  rw [hseason] at hempty
  refine ⟨chain, chain', hstep, ?_, (hempty (by simp [CountedIn])).wins 0 10⟩
  rw [(hsame 1 hseason.ge).wins, hboard]

end XelmaMarket
