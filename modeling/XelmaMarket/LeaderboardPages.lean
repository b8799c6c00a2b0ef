import XelmaMarket.ParticipantPages
import XelmaMarket.Statistics

/-!
# Pages of the leaderboard

The leaderboard queries rank the participants of the active round by a metric, and resume a reading
at the first entry whose address is behind the cursor. The ranking is not in the order of the
addresses, so a page resumes in the wrong place unless it ends with the largest address so far and
the next entry has a larger one.
-/

namespace XelmaMarket

open Paging Transaction

variable {A : Type} [LinearOrder A]

/-! ## The queries -/

/-- One entry of the lifetime leaderboard. -/
structure LeaderboardEntry (A : Type) where
  user : A
  stats : UserStats
  deriving DecidableEq

/-- The entry of a user. -/
def Storage.leaderboardEntry (s : Storage A) (user : A) : LeaderboardEntry A where
  user := user
  stats := s.stats.lifetimeUserStats user

/-- The entries of the participants of the active round, each user once. -/
def collectLeaderboardEntries (s : Storage A) : List (LeaderboardEntry A) :=
  let seen :=
    match s.rounds.activeRound with
    | none => []
    | some round => distinctParticipants [] (s.rounds.participants round.roundId)
  seen.map s.leaderboardEntry

/-- Insert an entry before the first one with a lower metric, or with the same metric and a larger
address. -/
def insertEntry (metric : UserStats → ℕ) (entry : LeaderboardEntry A) :
    List (LeaderboardEntry A) → List (LeaderboardEntry A)
  | [] => [entry]
  | cur :: rest =>
      if metric entry.stats > metric cur.stats ∨
          (metric entry.stats = metric cur.stats ∧ entry.user < cur.user) then
        entry :: cur :: rest
      else
        cur :: insertEntry metric entry rest

/-- The entries sorted by a metric. -/
def sortEntries (metric : UserStats → ℕ) (entries : List (LeaderboardEntry A)) :
    List (LeaderboardEntry A) :=
  entries.foldl (fun sorted entry => insertEntry metric entry sorted) []

/-- The index of the first entry whose address is behind the cursor. -/
def findCursorInLeaderboard (sorted : List (LeaderboardEntry A)) (cursor : Option A) : ℕ :=
  resumeAt (·.user) sorted cursor

/-- A page of the leaderboard by a metric. -/
def leaderboardCursor (metric : UserStats → ℕ) (s : Storage A) (cursor : Option A)
    (limit : ℕ) : Except Failure (List (LeaderboardEntry A) × Option A) :=
  if limit = 0 ∨ limit > maxPageSize then
    .error (.err .pageSizeExceeded)
  else
    let sorted := sortEntries metric (collectLeaderboardEntries s)
    .ok (cursorPage (·.user) some sorted (findCursorInLeaderboard sorted cursor) limit)

def getLeaderboardByWins (s : Storage A) (cursor : Option A) (limit : ℕ) :
    Except Failure (List (LeaderboardEntry A) × Option A) :=
  leaderboardCursor (·.totalWins) s cursor limit

def getLeaderboardByStreak (s : Storage A) (cursor : Option A) (limit : ℕ) :
    Except Failure (List (LeaderboardEntry A) × Option A) :=
  leaderboardCursor (·.bestStreak) s cursor limit

/-! ## The ranking -/

section Ranking

variable {s : Storage A} {metric : UserStats → ℕ} {users seen : List A}

/-- The participants of the active round, by a metric and at the same metric by address. -/
structure Ranked (metric : UserStats → ℕ) (s : Storage A) (users : List A) : Prop where
  ordered : users.Pairwise (Outranks fun user => metric (s.stats.lifetimeUserStats user))
  members : ∀ user, user ∈ users ↔ ∃ round, s.rounds.activeRound = some round ∧
    user ∈ s.rounds.participants round.roundId

/-- Distinct users are collected as they are. -/
theorem distinctParticipants_eq (hnodup : (seen ++ users).Nodup) :
    distinctParticipants seen users = seen ++ users := by
  induction users generalizing seen with
  | nil => exact (List.append_nil seen).symm
  | cons user rest ih =>
      have hnew : user ∉ seen := fun hmem =>
        (List.nodup_append.mp hnodup).2.2 user hmem user List.mem_cons_self rfl
      have hstep : distinctParticipants seen (user :: rest) =
          distinctParticipants (seen ++ [user]) rest := by
        simp [distinctParticipants, hnew]
      rw [hstep, ih (by rwa [List.append_assoc, List.singleton_append]), List.append_assoc,
        List.singleton_append]

/-- Entries are inserted as their users are ranked. -/
theorem insertEntry_map (user : A) (sorted : List A) :
    insertEntry metric (s.leaderboardEntry user) (sorted.map s.leaderboardEntry) =
      (insertByRank (fun user => metric (s.stats.lifetimeUserStats user)) user sorted).map
        s.leaderboardEntry := by
  induction sorted with
  | nil => rfl
  | cons other rest ih =>
      rw [List.map_cons, insertEntry, insertByRank, ih, apply_ite (List.map s.leaderboardEntry)]
      rfl

/-- Entries are sorted as their users are ranked. -/
theorem sortEntries_map (users : List A) :
    sortEntries metric (users.map s.leaderboardEntry) =
      (reinsertSorted (fun user => metric (s.stats.lifetimeUserStats user)) users).map
        s.leaderboardEntry := by
  rw [sortEntries, List.foldl_map, reinsertSorted]
  exact @List.foldl_hom _ _ _ (List.map s.leaderboardEntry) _ _ users [] fun sorted user =>
    insertEntry_map user sorted

/-- The queries sort the entries of the ranked participants. -/
theorem sortEntries_ranked (hordered : s.rounds.Ordered) :
    ∃ users, Ranked metric s users ∧ users.length ≤ maxVecLength ∧
      sortEntries metric (collectLeaderboardEntries s) = users.map s.leaderboardEntry := by
  unfold collectLeaderboardEntries
  cases hactive : s.rounds.activeRound with
  | none => exact ⟨[], ⟨.nil, by simp [hactive]⟩, Nat.zero_le _, rfl⟩
  | some round =>
      have hnodup := (hordered.active_represented hactive).nodup
      refine ⟨_, ⟨reinsertSorted_sorted hnodup, fun user => ?_⟩, ?_, ?_⟩
      · rw [(reinsertSorted_perm _).mem_iff]
        simp [hactive]
      · rw [(reinsertSorted_perm _).length_eq]
        exact hordered.room round.roundId
      · dsimp only
        rw [distinctParticipants_eq (by simpa using hnodup), List.nil_append, sortEntries_map]

/-- There is one ranking. -/
theorem Ranked.unique {users' : List A} (hranked : Ranked metric s users)
    (hranked' : Ranked metric s users') : users' = users := by
  have hirrefl : Std.Irrefl (Outranks fun user => metric (s.stats.lifetimeUserStats user)) :=
    ⟨outranks_irrefl⟩
  have hantisymm : Std.Antisymm (Outranks fun user => metric (s.stats.lifetimeUserStats user)) :=
    ⟨fun a b hab hba => absurd (outranks_trans a b a hab hba) (outranks_irrefl a)⟩
  exact hranked'.ordered.eq_of_mem_iff hranked.ordered fun user =>
    (hranked'.members user).trans (hranked.members user).symm

end Ranking

/-! ## Reading all pages -/

section Reads

variable {s : Storage A} {metric : UserStats → ℕ} {limit : ℕ} {host : Host A} {chain : Chain A}

/-- The pages from the first one on give the entries of the ranking, in its order and each once. -/
def ReadsRanking (page : Option A → Except Failure (List (LeaderboardEntry A) × Option A))
    (metric : UserStats → ℕ) (s : Storage A) : Prop :=
  ∃ users, Ranked metric s users ∧ Collects page none (users.map s.leaderboardEntry)

/-- Every page of the ranking, and the ranking, ends with the largest address so far, and the next
entry has a larger one. -/
def RankingResumable (metric : UserStats → ℕ) (s : Storage A) (limit : ℕ) : Prop :=
  ∀ users, Ranked metric s users →
    Resumable (·.user) limit (users.map s.leaderboardEntry)

/-- A leaderboard is read completely when its pages resume in the right place, and only then. -/
theorem leaderboardCursor_reads_iff (hordered : s.rounds.Ordered) (hpos : 0 < limit)
    (hmax : limit ≤ maxPageSize) :
    ReadsRanking (fun cursor => leaderboardCursor metric s cursor limit) metric s ↔
      RankingResumable metric s limit := by
  obtain ⟨users, hranked, hroom, hsorted⟩ := @sortEntries_ranked _ _ s metric hordered
  have hlimit : ¬ (limit = 0 ∨ limit > maxPageSize) := by omega
  have hdistinct : (users.map s.leaderboardEntry).Nodup := by
    refine List.Nodup.map (fun a b hsame => congrArg LeaderboardEntry.user hsame) ?_
    refine hranked.ordered.imp ?_
    rintro a _ hab rfl
    exact outranks_irrefl a hab
  have hreads : Collects (fun cursor => leaderboardCursor metric s cursor limit) none
      (users.map s.leaderboardEntry) ↔
        Resumable (·.user) limit (users.map s.leaderboardEntry) := by
    refine collects_all_iff hdistinct hpos fun cursor => ?_
    have hfits : (users.map s.leaderboardEntry).length ≤ maxVecLength := by rwa [List.length_map]
    simp only [leaderboardCursor, if_neg hlimit, hsorted, findCursorInLeaderboard,
      cursorPage_eq hfits]
  constructor
  · rintro ⟨readers, hreaders, hcollects⟩ others hothers
    rw [hranked.unique hreaders] at hcollects
    rw [hranked.unique hothers]
    exact hreads.mp hcollects
  · exact fun hresumable => ⟨users, hranked, hreads.mpr (hresumable users hranked)⟩

/-- The leaderboards by wins and by best streak are read completely exactly when every page of them
ends with the largest address so far and is followed by a larger one. -/
theorem leaderboard_paged_iff (hreachable : Reachable host chain) (hpos : 0 < limit)
    (hmax : limit ≤ maxPageSize) :
    (ReadsRanking (fun cursor => getLeaderboardByWins chain.storage cursor limit)
        (·.totalWins) chain.storage ↔ RankingResumable (·.totalWins) chain.storage limit) ∧
      (ReadsRanking (fun cursor => getLeaderboardByStreak chain.storage cursor limit)
        (·.bestStreak) chain.storage ↔ RankingResumable (·.bestStreak) chain.storage limit) := by
  have hordered := Storage.Healthy.ordered hreachable.healthy
  exact ⟨leaderboardCursor_reads_iff hordered hpos hmax,
    leaderboardCursor_reads_iff hordered hpos hmax⟩

end Reads

/-- Users 3 and 4 bet against each other in a round that ends at a price, and together in the next
one. -/
def rematch (finalPrice : ℕ) : List (Action ℕ) := trialSetup ++ [
  .invoke [1] (.createRound 100 (some 0)),
  .invoke [3] (.placeBet 3 70 .up),
  .invoke [4] (.placeBet 4 30 .down),
  .closeLedger (ledgerAt 20),
  .invoke [2] (.control (.updateOracleHeartbeat 0)),
  .invoke [2] (.resolveRound (trialPayload 1 finalPrice 100)),
  .invoke [1] (.createRound 100 (some 0)),
  .invoke [3] (.placeBet 3 50 .up),
  .invoke [4] (.placeBet 4 50 .up)]

/-- After a win of user 3 the leaderboard by wins is read completely on pages of one entry. -/
theorem winner_with_smaller_address_paged : ∃ chain : Chain ℕ, Reachable trialHost chain ∧
    Ranked (·.totalWins) chain.storage [3, 4] ∧
      ReadsRanking (fun cursor => getLeaderboardByWins chain.storage cursor 1) (·.totalWins)
        chain.storage := by
  obtain ⟨trace, chain, hhistory, -, hfits⟩ := exists_trial_history (rematch 101)
    (fun chain => decide ((sortEntries (·.totalWins)
      (collectLeaderboardEntries chain.storage)).map (·.user) = [3, 4])) (by decide +kernel)
  have hreachable : Reachable trialHost chain := ⟨trace, hhistory⟩
  obtain ⟨users, hranked, -, hsorted⟩ := @sortEntries_ranked _ _ chain.storage (·.totalWins)
    (Storage.Healthy.ordered hreachable.healthy)
  have husers : users = [3, 4] := by
    have hfits := of_decide_eq_true hfits
    rw [hsorted, List.map_map] at hfits
    exact (List.map_id users).symm.trans hfits
  subst husers
  refine ⟨chain, hreachable, hranked, ?_⟩
  refine (leaderboard_paged_iff hreachable (by decide) (by decide)).1.mpr fun others hothers => ?_
  rw [hranked.unique hothers]
  exact resumable_of_sorted (by simp [Storage.leaderboardEntry])

/-- After a win of user 4 the reading by wins on pages of one entry ends before user 3. -/
theorem loser_with_smaller_address_missed : ¬ ∀ (chain : Chain ℕ) limit,
    Reachable trialHost chain → 0 < limit → limit ≤ maxPageSize →
    ReadsRanking (fun cursor => getLeaderboardByWins chain.storage cursor limit) (·.totalWins)
        chain.storage ∧
      ReadsRanking (fun cursor => getLeaderboardByStreak chain.storage cursor limit)
        (·.bestStreak) chain.storage := by
  intro hclaim
  obtain ⟨trace, chain, hhistory, -, hfits⟩ := exists_trial_history (rematch 99)
    (fun chain => chain.storage.rounds.activeRound.any fun round : Round =>
      decide (3 ∈ chain.storage.rounds.participants round.roundId ∧
        (getLeaderboardByWins chain.storage none 1).toOption =
          some ([chain.storage.leaderboardEntry 4], some 4) ∧
        (getLeaderboardByWins chain.storage (some 4) 1).toOption = some ([], none)))
    (by decide +kernel)
  obtain ⟨round, hactive, hround⟩ := (Option.any_eq_true _ _).mp hfits
  obtain ⟨hmember, hfirst, hsecond⟩ := of_decide_eq_true hround
  obtain ⟨⟨users, hranked, hcollects⟩, -⟩ :=
    hclaim chain 1 ⟨trace, hhistory⟩ (by decide) (by decide)
  obtain ⟨rest, hread, hrest⟩ := hcollects.unread (eq_ok_of_toOption hfirst)
  rw [(collects_of_last (eq_ok_of_toOption hsecond)).mp hrest, List.append_nil] at hread
  have hlisted := List.mem_map_of_mem (f := chain.storage.leaderboardEntry)
    ((hranked.members 3).mpr ⟨round, hactive, hmember⟩)
  rw [hread, List.mem_singleton] at hlisted
  have hsame : 3 = 4 := congrArg LeaderboardEntry.user hlisted
  cases hsame

end XelmaMarket
