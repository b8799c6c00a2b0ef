import XelmaMarket.Admin

/-!
# Leaderboards

User statistics with the bounded lifetime and season leaderboards that are kept with them, and
the reset of a season into its archive.
-/

namespace XelmaMarket

open Transaction

variable {A : Type} [LinearOrder A]

/-! ## Bounded indexes -/

/-- Insert an address before the first one it precedes: a higher rank goes first, an equal rank
is ordered by address. -/
def insertByRank (rank : A → ℕ) (address : A) : List A → List A
  | [] => [address]
  | other :: rest =>
      if rank address > rank other ∨ (rank address = rank other ∧ address < other) then
        address :: other :: rest
      else
        other :: insertByRank rank address rest

/-- Reinsert addresses one by one into an empty list. -/
def reinsertSorted (rank : A → ℕ) (addresses : List A) : List A :=
  addresses.foldl (fun sorted address => insertByRank rank address sorted) []

def reinsertSortedByWins (statsOf : A → UserStats) (addresses : List A) : List A :=
  reinsertSorted (fun address => (statsOf address).totalWins) addresses

def reinsertSortedByStreak (statsOf : A → UserStats) (addresses : List A) : List A :=
  reinsertSorted (fun address => (statsOf address).bestStreak) addresses

/-- The index without a user. -/
def withoutUser (list : List A) (user : A) : List A :=
  list.filter (· ≠ user)

/-- The bounded index after a user's statistics changed. -/
def reindex (reinsert : List A → List A) (index : Option (List A)) (user : A) : List A :=
  (reinsert (withoutUser (index.getD []) user ++ [user])).take leaderboardLimit

/-! ## Statistics -/

/-- The lifetime statistics of a user. -/
def Stats.lifetimeUserStats (stats : Stats A) (user : A) : UserStats :=
  stats.userStats.getD user .zero

/-- The statistics of a user in a season. -/
def Stats.seasonUserStatsRaw (stats : Stats A) (seasonId : ℕ) (user : A) : UserStats :=
  stats.seasonUserStats.getD (seasonId, user) .zero

/-- The active season; the first one is 1. -/
def Stats.currentSeasonId (stats : Stats A) : ℕ :=
  stats.seasonId.getD 1

/-- The statistics after one more win. -/
def UserStats.win (stats : UserStats) : Except Failure UserStats := do
  let totalWins ← checkedUint 32 (stats.totalWins + 1) .overflow
  let currentStreak ← checkedUint 32 (stats.currentStreak + 1) .overflow
  return { stats with
    totalWins := totalWins
    currentStreak := currentStreak
    bestStreak := max stats.bestStreak currentStreak }

/-- The statistics after one more loss. -/
def UserStats.loss (stats : UserStats) : Except Failure UserStats := do
  let totalLosses ← checkedUint 32 (stats.totalLosses + 1) .overflow
  return { stats with totalLosses := totalLosses, currentStreak := 0 }

/-- Re-rank a user in both lifetime indexes. -/
def updateLeaderboards (user : A) : StatsM A PUnit :=
  update fun stats =>
    { stats with
      leaderboardWins :=
        some (reindex (reinsertSortedByWins stats.lifetimeUserStats) stats.leaderboardWins user)
      leaderboardStreak :=
        some (reindex (reinsertSortedByStreak stats.lifetimeUserStats)
          stats.leaderboardStreak user) }

/-- Re-rank a user in both indexes of a season. -/
def updateSeasonLeaderboards (seasonId : ℕ) (user : A) : StatsM A PUnit :=
  update fun stats =>
    { stats with
      seasonLeaderboardWins :=
        some (reindex (reinsertSortedByWins (stats.seasonUserStatsRaw seasonId))
          stats.seasonLeaderboardWins user)
      seasonLeaderboardStreak :=
        some (reindex (reinsertSortedByStreak (stats.seasonUserStatsRaw seasonId))
          stats.seasonLeaderboardStreak user) }

/-- Record a result in the statistics of the active season. -/
def updateSeasonStats (record : UserStats → Except Failure UserStats) (user : A) :
    StatsM A PUnit := do
  let seasonId ← gets (·.currentSeasonId)
  let old ← gets (·.seasonUserStatsRaw seasonId user)
  let new ← record old
  update fun stats =>
    { stats with seasonUserStats := stats.seasonUserStats.set (seasonId, user) new }
  updateSeasonLeaderboards seasonId user

/-- Record a result in the lifetime statistics and then in the season. -/
def updateStats (record : UserStats → Except Failure UserStats) (user : A) : StatsM A PUnit := do
  let old ← gets (·.lifetimeUserStats user)
  let new ← record old
  update fun stats => { stats with userStats := stats.userStats.set user new }
  updateLeaderboards user
  updateSeasonStats record user

def updateStatsWin (user : A) : StatsM A PUnit :=
  updateStats UserStats.win user

def updateStatsLoss (user : A) : StatsM A PUnit :=
  updateStats UserStats.loss user

/-! ## Seasons -/

/-- The archived entries of an index. -/
def Stats.seasonEntries (stats : Stats A) (seasonId : ℕ) (list : List A) :
    List (SeasonLeaderboardEntry A) :=
  list.map fun address =>
    { user := address
      wins := (stats.seasonUserStatsRaw seasonId address).totalWins
      bestStreak := (stats.seasonUserStatsRaw seasonId address).bestStreak }

/-- The wins list followed by the members of the streak list not seen before. -/
def distinctParticipants (winsList streakList : List A) : List A :=
  streakList.foldl (fun seen address => if address ∈ seen then seen else seen ++ [address])
    winsList

/-- Archive the rankings of the active season and start the next one. -/
def archiveSeason : StatsM A ℕ := do
  let seasonId ← gets (·.currentSeasonId)
  let winsList ← gets (·.seasonLeaderboardWins.getD [])
  let streakList ← gets (·.seasonLeaderboardStreak.getD [])
  let endedAtLedger ← ledgerSequence
  let newSeasonId ← checkedUint 32 (seasonId + 1) .overflow
  update fun stats =>
    { stats with
      seasonArchive := stats.seasonArchive.set seasonId
        { seasonId := seasonId
          endedAtLedger := endedAtLedger
          wins := stats.seasonEntries seasonId winsList
          streak := stats.seasonEntries seasonId streakList
          participantCount := (distinctParticipants winsList streakList).length }
      seasonId := some newSeasonId
      seasonLeaderboardWins := none
      seasonLeaderboardStreak := none }
  return newSeasonId

/-- Reset the leaderboard season. -/
def resetLeaderboardSeason : ContractM A ℕ := do
  let _ ← onControl adminGate
  onStats archiveSeason

end XelmaMarket
