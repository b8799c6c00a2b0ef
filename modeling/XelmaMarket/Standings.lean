import XelmaMarket.RoundLife

/-!
# Standings

What a step does to the statistics: the end of a round counts its records, a season reset starts
the next season, and nothing else changes them. So over every history the counters add up, the
lifetime ones to the seasonal ones and both to the competitive settlements of a user, and the four
indexes are the bounded rankings of the users with results.
-/

namespace XelmaMarket

open Transaction

variable {A : Type} [LinearOrder A] {host : Host A} {chain chain' : Chain A} {action : Action A}
  {trace : List (Transition (Chain A) (Action A))}

/-! ## What a step does to the statistics -/

/-- The end a transition brings to a round, if it does. -/
def endingOf (transition : Transition (Chain A) (Action A)) : Option Ending :=
  match transition.label with
  | .invoke _ call => call.ending transition.before.storage
  | _ => none

/-- The records a transition makes for the participants of the round it ends. -/
def recordsOf (transition : Transition (Chain A) (Action A)) : List (UserRoundOutcome A) :=
  (endingOf transition).elim [] fun ending =>
    (ending.plan transition.before.storage.control.settings.terms
      transition.before.storage.rounds).records

/-- The counters stay, the season is archived as its indexes rank it, and the next season starts
with empty indexes. -/
structure NextSeason (stats stats' : Stats A) : Prop where
  userStats : stats'.userStats = stats.userStats
  seasonUserStats : stats'.seasonUserStats = stats.seasonUserStats
  wins : stats'.leaderboardWins = stats.leaderboardWins
  streak : stats'.leaderboardStreak = stats.leaderboardStreak
  season : stats'.currentSeasonId = stats.currentSeasonId + 1
  seasonWins : stats'.seasonLeaderboardWins = none
  seasonStreak : stats'.seasonLeaderboardStreak = none
  archive : ∃ archive : SeasonArchive A,
    stats'.seasonArchive = stats.seasonArchive.set stats.currentSeasonId archive ∧
    archive.wins = stats.seasonEntries stats.currentSeasonId
      (stats.seasonLeaderboardWins.getD []) ∧
    archive.streak = stats.seasonEntries stats.currentSeasonId
      (stats.seasonLeaderboardStreak.getD [])

theorem archiveSeason_spec {env : Env A} {stats : Stats A} :
    Ensures archiveSeason env stats fun _ stats' => NextSeason stats stats' := by
  simp only [archiveSeason, ensures_bind, ensures_gets, ensures_ledgerSequence, ensures_liftM,
    checkedUint_eq_ok, ensures_update, ensures_pure]
  rintro newSeasonId ⟨rfl, -⟩
  exact ⟨rfl, rfl, rfl, rfl, rfl, rfl, rfl, _, rfl, rfl, rfl⟩

theorem resetLeaderboardSeason_spec {env : Env A} {s : Storage A} :
    Ensures (Call.exec .resetLeaderboardSeason) env s fun _ s' => NextSeason s.stats s'.stats := by
  simp only [Call.exec, discardResult, XelmaMarket.resetLeaderboardSeason, ensures_bind,
    ensures_onControl, ensures_onStats, ensures_pure]
  intro _ control _ _ stats hrun
  exact archiveSeason_spec.elim hrun

/-- A transition counts its records, or it resets the season and makes no records. -/
theorem Step.statsChange (hstep : Step host chain action chain') (hhealthy : chain.Healthy) :
    chain'.storage.stats =
        chain.storage.stats.countAll (recordsOf ⟨chain, action, chain'⟩) ∨
      recordsOf ⟨chain, action, chain'⟩ = [] ∧
        NextSeason chain.storage.stats chain'.storage.stats := by
  obtain ⟨signers, call, rfl⟩ | ⟨hidle, meter, hsame⟩ := hstep.invokes_or_idles
  · cases hending : call.ending chain.storage with
    | some ending =>
        left
        have hrecords : recordsOf ⟨chain, .invoke signers call, chain'⟩ =
            (ending.plan chain.storage.control.settings.terms chain.storage.rounds).records := by
          simp [recordsOf, endingOf, hending]
        rw [hrecords]
        exact (hhealthy.ends hstep hending).stats
    | none =>
        have hrecords : recordsOf ⟨chain, .invoke signers call, chain'⟩ = [] := by
          simp [recordsOf, endingOf, hending]
        by_cases hreset : call = .resetLeaderboardSeason
        · subst hreset
          exact .inr ⟨hrecords, hstep.ensured resetLeaderboardSeason_spec⟩
        · rw [hrecords]
          exact .inl ((hhealthy.effect hstep).stats hending hreset)
  · left
    have hrecords : recordsOf ⟨chain, action, chain'⟩ = [] := by
      cases action with
      | closeLedger | expire => rfl
      | invoke signers call => exact absurd rfl (hidle signers call)
    rw [hrecords, hsame]
    rfl

/-! ## Rankings -/

/-- A transition records a win or a loss of a user. -/
def CountsFor (transition : Transition (Chain A) (Action A)) (user : A) : Prop :=
  ∃ record ∈ recordsOf transition, record.counts ∧ record.user = user

/-- The users with a result so far. -/
def Counted (trace : List (Transition (Chain A) (Action A))) (user : A) : Prop :=
  ∃ transition ∈ trace, CountsFor transition user

/-- The users with a result in a season. -/
def CountedIn (trace : List (Transition (Chain A) (Action A))) (seasonId : ℕ) (user : A) : Prop :=
  ∃ transition ∈ trace, CountsFor transition user ∧
    transition.before.storage.stats.currentSeasonId = seasonId

/-- The indexes rank the users with results, and no season so far is a later one. -/
structure Standing (trace : List (Transition (Chain A) (Action A))) (chain : Chain A) : Prop where
  ranked : chain.storage.stats.Ranked (Counted trace)
    (CountedIn trace chain.storage.stats.currentSeasonId)
  past : ∀ transition ∈ trace, transition.before.storage.stats.currentSeasonId ≤
    chain.storage.stats.currentSeasonId

theorem counted_append {transition : Transition (Chain A) (Action A)} {user : A} :
    Counted (trace ++ [transition]) user ↔ Counted trace user ∨ CountsFor transition user := by
  simp [Counted, or_and_right, exists_or]

theorem countedIn_append {transition : Transition (Chain A) (Action A)} {seasonId : ℕ} {user : A} :
    CountedIn (trace ++ [transition]) seasonId user ↔ CountedIn trace seasonId user ∨
      CountsFor transition user ∧
        transition.before.storage.stats.currentSeasonId = seasonId := by
  simp [CountedIn, or_and_right, exists_or]

/-- The next season keeps the lifetime rankings and starts with nobody ranked. -/
theorem Stats.Ranked.nextSeason {stats stats' : Stats A} {lifetime season : A → Prop}
    (hranked : stats.Ranked lifetime season) (hnext : NextSeason stats stats') :
    stats'.Ranked lifetime fun _ => False := by
  have hcounters : stats'.lifetimeUserStats = stats.lifetimeUserStats := by
    funext user
    simp [Stats.lifetimeUserStats, hnext.userStats]
  constructor
  · rw [hcounters, hnext.wins]
    exact hranked.wins
  · rw [hcounters, hnext.streak]
    exact hranked.streak
  · rw [hnext.seasonWins]
    exact .empty
  · rw [hnext.seasonStreak]
    exact .empty

/-- Every step keeps the indexes the rankings. -/
theorem Standing.step (hstanding : Standing trace chain) (hstep : Step host chain action chain')
    (hhealthy : chain.Healthy) : Standing (trace ++ [⟨chain, action, chain'⟩]) chain' := by
  rcases hstep.statsChange hhealthy with hcounted | ⟨hnone, hnext⟩
  · have hseason : chain'.storage.stats.currentSeasonId = chain.storage.stats.currentSeasonId := by
      rw [hcounted, Stats.countAll_currentSeasonId]
    refine ⟨?_, fun transition hmem => ?_⟩
    · rw [hseason, hcounted]
      refine (hstanding.ranked.countAll _).congr (fun user => counted_append)
        fun user => countedIn_append.trans ?_
      rw [and_iff_left rfl]
      rfl
    · rw [hseason]
      rcases List.mem_append.mp hmem with hmem | hmem
      · exact hstanding.past transition hmem
      · obtain rfl := List.mem_singleton.mp hmem
        exact le_rfl
  · have hquiet : ∀ user, ¬ CountsFor ⟨chain, action, chain'⟩ user := by
      rintro user ⟨record, hmem, -⟩
      rw [hnone] at hmem
      cases hmem
    have hpast : ∀ transition ∈ trace ++ [⟨chain, action, chain'⟩],
        transition.before.storage.stats.currentSeasonId ≤
          chain.storage.stats.currentSeasonId := by
      intro transition hmem
      rcases List.mem_append.mp hmem with hmem | hmem
      · exact hstanding.past transition hmem
      · obtain rfl := List.mem_singleton.mp hmem
        exact le_rfl
    have hlifetime : ∀ user, Counted (trace ++ [⟨chain, action, chain'⟩]) user ↔
        Counted trace user := fun user => counted_append.trans (or_iff_left (hquiet user))
    have hfresh : ∀ user, CountedIn (trace ++ [⟨chain, action, chain'⟩])
        chain'.storage.stats.currentSeasonId user ↔ False := by
      refine fun user => iff_false_intro ?_
      rintro ⟨transition, hmem, -, hseason⟩
      have := hpast transition hmem
      rw [hseason, hnext.season] at this
      omega
    refine ⟨(hstanding.ranked.nextSeason hnext).congr hlifetime hfresh, fun transition hmem => ?_⟩
    rw [hnext.season]
    exact (hpast transition hmem).trans (Nat.le_succ _)

/-- Throughout every history each index is the bounded ranking of the users with results: the
lifetime ones by wins and by best streak over all seasons, the season ones over the active one. -/
theorem leaderboards_exact (hhistory : History host trace chain) :
    IsRanking (Outranks fun user => (chain.storage.stats.lifetimeUserStats user).totalWins)
        leaderboardLimit (Counted trace) (chain.storage.stats.leaderboardWins.getD []) ∧
      IsRanking (Outranks fun user => (chain.storage.stats.lifetimeUserStats user).bestStreak)
        leaderboardLimit (Counted trace) (chain.storage.stats.leaderboardStreak.getD []) ∧
      IsRanking (Outranks fun user => (chain.storage.stats.seasonUserStatsRaw
          chain.storage.stats.currentSeasonId user).totalWins) leaderboardLimit
        (CountedIn trace chain.storage.stats.currentSeasonId)
        (chain.storage.stats.seasonLeaderboardWins.getD []) ∧
      IsRanking (Outranks fun user => (chain.storage.stats.seasonUserStatsRaw
          chain.storage.stats.currentSeasonId user).bestStreak) leaderboardLimit
        (CountedIn trace chain.storage.stats.currentSeasonId)
        (chain.storage.stats.seasonLeaderboardStreak.getD []) := by
  have hstanding : Standing trace chain := by
    obtain ⟨ledger, hrun⟩ := hhistory
    have hempty : ∀ members : A → Prop, (∀ user, ¬ members user) → ∀ rank : A → ℕ,
        IsRanking (Outranks rank) leaderboardLimit members [] := by
      intro members hnone rank
      have hfalse : members = fun _ => False :=
        funext fun user => propext (iff_false_intro (hnone user))
      rw [hfalse]
      exact .empty
    have hnobody : ∀ user : A, ¬ Counted (A := A) [] user := by simp [Counted]
    have hnobody' : ∀ seasonId, ∀ user : A, ¬ CountedIn [] seasonId user := by simp [CountedIn]
    refine hrun.invariant_of_trace Standing ⟨⟨hempty _ hnobody _, hempty _ hnobody _,
      hempty _ (hnobody' _) _, hempty _ (hnobody' _) _⟩, by simp⟩
      fun earlier transition hearlier hstep hbefore => ?_
    exact hbefore.step hstep (History.healthy ⟨ledger, hearlier⟩)
  exact ⟨hstanding.ranked.wins, hstanding.ranked.streak, hstanding.ranked.seasonWins,
    hstanding.ranked.seasonStreak⟩

/-- In the trial run users 3 and 4 have results once round 1 is finalized, and the winner is ahead. -/
theorem leaderboards_exact_finalized : ∃ trace, ∃ chain : Chain ℕ,
    History trialHost trace chain ∧
      IsRanking (Outranks fun user => (chain.storage.stats.lifetimeUserStats user).totalWins)
        leaderboardLimit (Counted trace) [3, 4] := by
  obtain ⟨trace, chain, hhistory, -, hfits⟩ := exists_trial_history
    (overlappingRounds ++ [.closeLedger (ledgerAt 30), .invoke [9] (.finalizeRound 1)])
    (fun chain => decide (chain.storage.stats.leaderboardWins = some [3, 4])) (by decide +kernel)
  have hwins := (leaderboards_exact hhistory).1
  rw [of_decide_eq_true hfits] at hwins
  exact ⟨trace, chain, hhistory, hwins⟩

end XelmaMarket
