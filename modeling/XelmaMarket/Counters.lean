import XelmaMarket.Headroom
import XelmaMarket.Replay
import XelmaMarket.Timing

/-!
# Counters that never fill

A round takes at least one ledger and starts in a ledger of its own, so that a user takes part in
fewer settlements than ledgers have closed. The counters of results are as wide as the ledger
sequence, and one more result always fits.
-/

namespace XelmaMarket

variable {A : Type} [LinearOrder A]

/-! ## Rounds and ledgers -/

/-- How many rounds are live. -/
noncomputable def Rounds.liveCount (rounds : Rounds A) : ℤ :=
  (if rounds.activeRound.isSome then 1 else 0) + rounds.pendingDisputes.total fun _ _ => 1

/-- Some results so far leave a number for each live round, and a ledger for each round that is over
or staged. -/
structure Rounds.Spaced (ledger : ℕ) (results : ℤ) (rounds : Rounds A) : Prop where
  known : results + rounds.liveCount ≤ rounds.lastRoundId.getD 0
  idle : rounds.activeRound = none → results + rounds.liveCount ≤ ledger
  active : ∀ round, rounds.activeRound = some round →
    rounds.lastRoundId.getD 0 ≤ round.startLedger + 1 ∧ round.startLedger ≤ ledger

section Spaced

variable {env : Env A} {s s' : Storage A} {call : Call A} {ledger ledger' : ℕ}
  {results results' : ℤ} {rounds rounds' : Rounds A} {ending : Ending}

omit [LinearOrder A] in
theorem Rounds.staged_nonneg (rounds : Rounds A) :
    0 ≤ rounds.pendingDisputes.total fun _ _ => 1 :=
  Store.total_nonneg _ fun _ _ _ => Int.one_nonneg

omit [LinearOrder A] in
/-- A staged round is one of the live rounds. -/
theorem Rounds.one_le_staged {roundId : ℕ} {pending : PendingDisputeSettlement}
    (hpending : rounds.pendingDisputes.get roundId = some pending) :
    1 ≤ rounds.pendingDisputes.total fun _ _ => 1 := by
  have hweight := Store.sum_weight_le_total (s := rounds.pendingDisputes) (fun _ _ => (1 : ℤ))
    (fun _ _ _ => Int.one_nonneg) {roundId}
  rwa [Finset.sum_singleton, Store.weight_of_get _ hpending] at hweight

omit [LinearOrder A] in
theorem Rounds.liveCount_of_idle (hactive : rounds.activeRound = none) :
    rounds.liveCount = rounds.pendingDisputes.total fun _ _ => 1 := by
  simp [Rounds.liveCount, hactive]

omit [LinearOrder A] in
theorem Rounds.liveCount_of_active {round : Round} (hactive : rounds.activeRound = some round) :
    rounds.liveCount = 1 + rounds.pendingDisputes.total fun _ _ => 1 := by
  simp [Rounds.liveCount, hactive]

omit [LinearOrder A] in
theorem Rounds.Spaced.later (hspaced : rounds.Spaced ledger results) (hledger : ledger ≤ ledger') :
    rounds.Spaced ledger' results where
  known := hspaced.known
  idle hactive := (hspaced.idle hactive).trans (by exact_mod_cast hledger)
  active round hactive :=
    ⟨(hspaced.active round hactive).1, (hspaced.active round hactive).2.trans hledger⟩

omit [LinearOrder A] in
/-- Rounds with the same numbers and start ledgers are spaced alike. -/
theorem Rounds.Spaced.of_same (hspaced : rounds.Spaced ledger results)
    (hlast : rounds'.lastRoundId = rounds.lastRoundId)
    (hstaged : rounds'.pendingDisputes = rounds.pendingDisputes)
    (hactive : rounds'.activeRound.map (·.startLedger) = rounds.activeRound.map (·.startLedger)) :
    rounds'.Spaced ledger results := by
  have hsome : rounds'.activeRound.isSome = rounds.activeRound.isSome := by
    have h := congrArg Option.isSome hactive
    simpa using h
  have hlive : rounds'.liveCount = rounds.liveCount := by
    rw [Rounds.liveCount, Rounds.liveCount, hstaged, hsome]
  refine ⟨by rw [hlive, hlast]; exact hspaced.known, fun hnone => ?_, fun round' hround' => ?_⟩
  · rw [hlive]
    refine hspaced.idle ?_
    rw [hnone] at hsome
    simpa using hsome.symm
  · rw [hround', Option.map_some] at hactive
    obtain ⟨round, hround, hstart⟩ := Option.map_eq_some_iff.mp hactive.symm
    rw [hlast, ← hstart]
    exact hspaced.active round hround

omit [LinearOrder A] in
/-- A settlement past the end ledger of the active round leaves a ledger for one more result. -/
theorem Rounds.Spaced.room_of_active {round : Round} (hspaced : rounds.Spaced ledger results)
    (hactive : rounds.activeRound = some round) (hwindows : round.WindowsOrdered)
    (hended : round.endLedger ≤ ledger) : results + rounds.liveCount ≤ ledger := by
  have hknown := hspaced.known
  have hlast := (hspaced.active round hactive).1
  unfold Round.WindowsOrdered at hwindows
  omega

omit [LinearOrder A] in
/-- The results and the staged rounds have a ledger each. -/
theorem Rounds.Spaced.room (hspaced : rounds.Spaced ledger results) :
    results + rounds.pendingDisputes.total (fun _ _ => 1) ≤ ledger := by
  cases hactive : rounds.activeRound with
  | none =>
      have hidle := hspaced.idle hactive
      rwa [Rounds.liveCount_of_idle hactive] at hidle
  | some round =>
      have hknown := hspaced.known
      obtain ⟨hlast, hstart⟩ := hspaced.active round hactive
      rw [Rounds.liveCount_of_active hactive] at hknown
      omega

/-- A call that ends no round keeps the rounds spaced. -/
theorem Effect.spaced (hordered : s.rounds.Ordered) (hpaced : Paced env.ledger.sequence s.rounds)
    (htimed : s.rounds.Timed env.ledger.sequence) (heffect : Effect env s call s')
    (hending : call.ending s = none) (hspaced : s.rounds.Spaced env.ledger.sequence results) :
    s'.rounds.Spaced env.ledger.sequence results := by
  cases heffect with
  | quiet _ _ hsame => rwa [hsame.rounds]
  | mint _ _ _ _ _ hsame | treasuryAddress _ _ _ _ _ _ _ _ hsame | payFee _ _ _ _ _ _ _ hsame
  | payFund _ _ _ _ _ _ _ hsame | topUp _ _ _ _ _ _ _ hsame
  | reclaim _ _ _ _ _ _ _ _ _ _ _ hsame | claim _ _ _ _ _ _ hsame => rwa [hsame.rounds]
  | openRound _ round _ _ hactive hid _ hstart _ hrounds =>
      rw [hrounds]
      have hlast := hpaced.last_le_of_unused (hstart.1 ▸ hstart.2)
      have hknown := hspaced.known
      have hlive : (s.rounds.openRound round).liveCount = s.rounds.liveCount + 1 := by
        rw [Rounds.liveCount_of_idle hactive, Rounds.liveCount_of_active rfl]
        exact add_comm _ _
      refine ⟨?_, fun hnone => absurd hnone (by simp [Rounds.openRound]), fun opened hopened => ?_⟩
      · rw [hlive]
        simp only [Rounds.openRound, Option.getD_some]
        omega
      · obtain rfl := Option.some.inj hopened
        simp only [Rounds.openRound, Option.getD_some]
        omega
  | stake _ round user amount _ hround _ _ hamount _ hplaced =>
      have hjoined := hplaced.joined (hordered.active_represented hround) hround hamount.1
      obtain ⟨round', hactive', -⟩ := hjoined.active
      refine hspaced.of_same hjoined.last hjoined.staged ?_
      rw [hround, hactive', Option.map_some, Option.map_some,
        (hplaced.round_kept hround hactive').2]
  | reveal round user price salt commitment _ _ _ _ _ _ hrounds =>
      rw [hrounds]
      exact hspaced.of_same rfl rfl rfl
  | cashOut round user position penaltyBps _ hround _ _ _ _ _ _ hrounds =>
      rw [hrounds]
      refine hspaced.of_same rfl rfl ?_
      cases hside : position.side <;> simp [Rounds.leave, Round.withPool, hround, hside]
  | stage _ round pending _ _ hround hpending _ _ _ hrounds _ hended =>
      rw [hrounds]
      have hwindows := htimed.windows round.roundId round (.inl ⟨hround, rfl⟩)
      have hroom := hspaced.room_of_active hround hwindows hended
      have hlive : (s.rounds.stage pending).liveCount = s.rounds.liveCount := by
        have hnone := hordered.active_not_staged round hround
        rw [← hpending] at hnone
        rw [Rounds.liveCount_of_active hround, Rounds.liveCount_of_idle rfl]
        simp [Rounds.stage, Store.total_set, Store.weight_of_none _ hnone, add_comm]
      refine ⟨?_, fun _ => ?_, fun _ hnone => by cases hnone⟩
      · rw [hlive]
        exact hspaced.known
      · rwa [hlive]
  | ending _ _ _ hsome =>
      rw [hending] at hsome
      cases hsome

/-- An ending keeps the rounds spaced: the number of the ended round stands for the result. -/
theorem EndsBy.spaced (hordered : s.rounds.Ordered) (htimed : s.rounds.Timed ledger)
    (hends : EndsBy s call ending) (htimely : call.price ≠ none → ending.round.endLedger ≤ ledger)
    (hspaced : s.rounds.Spaced ledger results) (hgain : results' ≤ results + 1)
    (hplain : ending.kind.price = none → results' ≤ results) :
    (ending.roundsAfter s.rounds).Spaced ledger results' := by
  have hknown := hspaced.known
  have hroom := hspaced.room
  have hstill : ∀ roundId pending, s.rounds.pendingDisputes.get roundId = some pending →
      (s.rounds.pendingDisputes.remove pending.round.roundId).total (fun _ _ => (1 : ℤ)) =
        s.rounds.pendingDisputes.total (fun _ _ => 1) - 1 := by
    intro roundId pending hpending
    rw [(hordered.staged_represented hpending).1, Store.total_remove,
      Store.weight_of_get _ hpending]
  -- all but a void leave no round active, and keep or shorten the staged ones
  have hover : ∀ rounds' : Rounds A, rounds'.activeRound = none →
      rounds'.lastRoundId = s.rounds.lastRoundId →
      results' + rounds'.pendingDisputes.total (fun _ _ => 1) ≤ s.rounds.lastRoundId.getD 0 →
      results' + rounds'.pendingDisputes.total (fun _ _ => 1) ≤ ledger →
      rounds'.Spaced ledger results' := by
    intro rounds' hnone hlast hnumbers hledgers
    have hlive := Rounds.liveCount_of_idle hnone
    refine ⟨by rwa [hlive, hlast], fun _ => by rwa [hlive], fun round hround => ?_⟩
    rw [hnone] at hround
    cases hround
  cases hends with
  | resolved _ round finalPrice hprice hactive =>
      have hended := hspaced.room_of_active hactive
        (htimed.windows round.roundId round (.inl ⟨hactive, rfl⟩)) (htimely (by simp [hprice]))
      rw [Rounds.liveCount_of_active hactive] at hknown hended
      refine hover _ rfl rfl ?_ ?_ <;>
        simp only [Ending.roundsAfter, Rounds.close] <;> omega
  | fallbackRefund _ round _ _ hactive | cancelled _ round hactive =>
      have hkept := hplain rfl
      rw [Rounds.liveCount_of_active hactive] at hknown
      refine hover _ rfl rfl ?_ ?_ <;>
        simp only [Ending.roundsAfter, Rounds.close] <;> omega
  | voided roundId pending hpending =>
      have hkept := hplain rfl
      have hcount := hstill roundId pending hpending
      unfold Rounds.liveCount at hknown
      refine ⟨?_, fun hnone => ?_, hspaced.active⟩
      · simp only [Rounds.liveCount, Ending.roundsAfter, Rounds.close, hcount]
        omega
      · rw [Rounds.liveCount_of_idle hnone]
        simp only [Ending.roundsAfter, Rounds.close, hcount]
        omega
  | finalized roundId pending hpending =>
      have hcount := hstill roundId pending hpending
      have hactive : 0 ≤ if s.rounds.activeRound.isSome = true then (1 : ℤ) else 0 := by
        split <;> decide
      unfold Rounds.liveCount at hknown
      refine hover _ rfl rfl ?_ ?_ <;>
        simp only [Ending.roundsAfter, Rounds.close, hcount] <;> omega

end Spaced

/-! ## The counters of a history -/

section History

variable {host : Host A} {chain chain' : Chain A} {action : Action A} {user : A}
  {trace : List (Transition (Chain A) (Action A))}

/-- The results of a user so far. -/
def resultsOf (trace : List (Transition (Chain A) (Action A))) (user : A) : ℕ :=
  trace.countP fun transition => competesIn transition user

/-- Every step keeps the rounds spaced by the results of a user. -/
theorem Step.spaced {results : ℕ} (hstep : Step host chain action chain')
    (hhealthy : chain.Healthy) (htimed : chain.Timed)
    (hspaced : chain.storage.rounds.Spaced chain.ledger.sequence results) (user : A) :
    chain'.storage.rounds.Spaced chain'.ledger.sequence
      (results + if competesIn ⟨chain, action, chain'⟩ user then 1 else 0 : ℕ) := by
  obtain ⟨signers, call, rfl⟩ | ⟨hidle, meter, hsame⟩ := hstep.invokes_or_idles
  · have heffect := hhealthy.effect hstep
    have hstored : chain.storage.Healthy chain.ledger.sequence := hhealthy
    rw [hstep.ledger_eq]
    cases hending : call.ending chain.storage with
    | none =>
        have hnone : competesIn ⟨chain, .invoke signers call, chain'⟩ user = false := by
          simp [competesIn, endingOf, hending]
        rw [hnone]
        exact heffect.spaced hstored.ordered hstored.paced htimed.rounds hending hspaced
    | some ending =>
        obtain ⟨hends, htimely⟩ := heffect.ends_timely hending
        rw [hends.rounds]
        refine (Call.endsBy hending).spaced hstored.ordered htimed.rounds
          htimely hspaced ?_ fun hprice => ?_
        · split <;> simp
        · have hnone : competesIn ⟨chain, .invoke signers call, chain'⟩ user = false := by
            simp [competesIn, endingOf, hending, Ending.competed, hprice]
          simp [hnone]
  · have hnone : competesIn ⟨chain, action, chain'⟩ user = false := by
      cases action with
      | closeLedger | expire => rfl
      | invoke signers call => exact absurd rfl (hidle signers call)
    rw [hsame, hnone]
    exact hspaced.later hstep.ledger_le

/-- Throughout every history the rounds are spaced by the results of every user. -/
theorem History.spaced (hhistory : History host trace chain) (user : A) :
    chain.storage.rounds.Spaced chain.ledger.sequence (resultsOf trace user) := by
  obtain ⟨ledger, hrun⟩ := hhistory
  refine hrun.invariant_of_trace (fun trace chain =>
    chain.storage.rounds.Spaced chain.ledger.sequence (resultsOf trace user)) ?_
    fun earlier transition hearlier hstep hspaced => ?_
  · have hlive : (Storage.empty (A := A)).rounds.liveCount = 0 := by
      simp [Rounds.liveCount, Storage.empty]
    refine ⟨?_, fun _ => ?_, fun _ hactive => by cases hactive⟩
    · rw [Chain.genesis, hlive]
      exact le_rfl
    · rw [Chain.genesis, hlive]
      exact Int.natCast_nonneg _
  · have hbefore : History host earlier transition.before := ⟨ledger, hearlier⟩
    have hafter := hstep.spaced hbefore.healthy hbefore.timed hspaced user
    have hresults : resultsOf (earlier ++ [transition]) user =
        resultsOf earlier user + if competesIn transition user then 1 else 0 := by
      rw [resultsOf, List.countP_append, List.countP_singleton]
      rfl
    rwa [hresults]

/-- Counters that add up have room when the results leave room. -/
theorem Stats.Accounted.canCount {stats : Stats A} (haccounted : stats.Accounted user)
    (hroom : (stats.lifetimeUserStats user).totalWins +
      (stats.lifetimeUserStats user).totalLosses + 1 < 2 ^ 32) : stats.CanCount user := by
  have hactive : stats.currentSeasonId ∈ Finset.Icc 1 stats.currentSeasonId :=
    Finset.mem_Icc.mpr ⟨haccounted.started, le_rfl⟩
  have hpart : ∀ counter : UserStats → ℕ, stats.AddsUp user counter →
      counter (stats.seasonUserStatsRaw stats.currentSeasonId user) ≤
        counter (stats.lifetimeUserStats user) := by
    intro counter hadds
    rw [hadds]
    exact Finset.single_le_sum (f := fun seasonId =>
      counter (stats.seasonUserStatsRaw seasonId user)) (fun _ _ => Nat.zero_le _) hactive
  have hwins := hpart _ haccounted.wins
  have hlosses := hpart _ haccounted.losses
  obtain ⟨hcurrent, hbest⟩ := haccounted.streaks
  obtain ⟨hcurrent', hbest'⟩ := haccounted.seasonStreaks stats.currentSeasonId
  refine ⟨⟨?_, ?_, ?_⟩, ?_, ?_, ?_⟩ <;> omega

/-- One more result fits the counters when the results leave a ledger for it. -/
theorem History.canCount (hhistory : History host trace chain)
    (hroom : (resultsOf trace user : ℤ) + 1 ≤ chain.ledger.sequence) :
    chain.storage.stats.CanCount user := by
  have hscored := hhistory.scored user
  have hsequence := chain.ledger.sequence_lt
  refine hscored.accounted.canCount ?_
  rw [hscored.results]
  unfold resultsOf at hroom
  omega

/-- The settlement of the active round past its end ledger finds no counter full. -/
theorem History.canCount_of_active {round : Round} (hhistory : History host trace chain)
    (hactive : chain.storage.rounds.activeRound = some round)
    (hended : round.endLedger ≤ chain.ledger.sequence) (user : A) :
    chain.storage.stats.CanCount user := by
  have hroom := (hhistory.spaced user).room_of_active hactive
    (hhistory.timed.rounds.windows round.roundId round (.inl ⟨hactive, rfl⟩)) hended
  have hstaged := chain.storage.rounds.staged_nonneg
  rw [Rounds.liveCount_of_active hactive] at hroom
  exact hhistory.canCount (by omega)

/-- The settlement of a staged round finds no counter full. -/
theorem History.canCount_of_staged {roundId : ℕ} {pending : PendingDisputeSettlement}
    (hhistory : History host trace chain)
    (hpending : chain.storage.rounds.pendingDisputes.get roundId = some pending) (user : A) :
    chain.storage.stats.CanCount user := by
  have hroom := (hhistory.spaced user).room
  have hstaged := Rounds.one_le_staged hpending
  exact hhistory.canCount (by omega)

end History

end XelmaMarket
