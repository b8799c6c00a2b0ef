import XelmaMarket.Participation
import XelmaMarket.Lib.Traverse

/-!
# Pages of a user's history

The loop of a history page walks an index downwards that never leaves 0, so that only its exit test
ends it. It always ends, and the pages at the multiples of their size are, one after the other, the
archived rounds of the user, newest first.
-/

namespace XelmaMarket

open Transaction Traverse

variable {A : Type}

/-! ## The loop -/

/-- Fetch at an index, and go on below it until the last index of the page or until the page is
full. Below 0 the index stays, and a run may be out of fuel before it ends. -/
def Archive.fetchLoop (archive : Archive A) (userRounds : List ℕ) (last limit : ℕ) :
    ℕ → ℕ → List ArchivedRoundSummary → Option (List ArchivedRoundSummary)
  | 0, _, _ => none
  | fuel + 1, idx, result =>
      let fetched := archive.fetch userRounds idx result
      if idx = last ∨ fetched.length = limit then
        some fetched
      else
        archive.fetchLoop userRounds last limit fuel (idx - 1) fetched

/-- A run of `getUserArchiveHistory` with some fuel for its loop. -/
def runUserArchiveHistory (fuel : ℕ) (s : Storage A) (user : A) (offset limit : ℕ) :
    Option (Except Failure (List ArchivedRoundSummary)) :=
  if limit = 0 ∨ limit > maxPageSize then
    some (.error (.err .pageSizeExceeded))
  else
    let userRounds := s.archive.userRounds user
    let total := userRounds.length
    if offset ≥ total then
      some (.ok [])
    else
      let start := total - (offset + 1)
      (s.archive.fetchLoop userRounds (start - (limit - 1)) limit fuel start []).map .ok

section Loop

variable {archive : Archive A} {userRounds : List ℕ} {last limit : ℕ}

/-- A loop that starts at the last index of its page or above has an end. -/
theorem fetchLoop_eq {fuel idx : ℕ} (hfuel : idx < fuel) (hlast : last ≤ idx)
    (result : List ArchivedRoundSummary) :
    archive.fetchLoop userRounds last limit fuel idx result =
      some (archive.fetchDown userRounds last limit idx result) := by
  induction fuel generalizing idx result with
  | zero => exact absurd hfuel (Nat.not_lt_zero _)
  | succ fuel ih =>
      rw [Archive.fetchLoop]
      cases idx with
      | zero =>
          rw [if_pos (.inl (Nat.le_zero.mp hlast).symm)]
          rfl
      | succ idx =>
          rw [Archive.fetchDown]
          by_cases hend : idx + 1 = last ∨
              (archive.fetch userRounds (idx + 1) result).length = limit
          · rw [if_pos hend, if_pos hend]
          · rw [if_neg hend, if_neg hend]
            exact ih (by omega) (by omega) _

/-- Every call ends, with as much fuel as the index has entries. -/
theorem runUserArchiveHistory_eq {fuel : ℕ} (s : Storage A) (user : A) (offset limit : ℕ)
    (hfuel : (s.archive.userRounds user).length ≤ fuel) :
    runUserArchiveHistory fuel s user offset limit =
      some (getUserArchiveHistory s user offset limit) := by
  unfold runUserArchiveHistory getUserArchiveHistory
  by_cases hlimit : limit = 0 ∨ limit > maxPageSize
  · rw [if_pos hlimit, if_pos hlimit]
  · rw [if_neg hlimit, if_neg hlimit]
    by_cases hend : offset ≥ (s.archive.userRounds user).length
    · simp only [if_pos hend]
    · simp only [if_neg hend]
      rw [fetchLoop_eq (by omega) (by omega)]
      rfl

end Loop

/-! ## Dates -/

section Dates

variable [LinearOrder A] {env : Env A} {s s' : Storage A} {call : Call A} {host : Host A}
  {chain chain' : Chain A} {action : Action A} {user : A}

/-- The archived rounds of a user, oldest first. -/
def Archive.retained (archive : Archive A) (user : A) : List ArchivedRoundSummary :=
  (archive.userRounds user).filterMap archive.archivedRound.get

/-- Summaries are not dated in the future, and a user's index is in the order of the dates. -/
structure Storage.Dated (s : Storage A) (ledger : ℕ) : Prop where
  past : ∀ roundId summary, s.archive.archivedRound.get roundId = some summary →
    summary.settledAtLedger ≤ ledger
  ordered : ∀ user, (s.archive.retained user).Pairwise fun older newer =>
    older.settledAtLedger ≤ newer.settledAtLedger

/-- A call that ends a round dates its summary. -/
theorem Call.ensures_dates (hinorder : InOrder s) {ending : Ending}
    (hending : call.ending s = some ending) :
    Ensures call.exec env s fun _ s' =>
      ∀ summary, s'.archive.archivedRound.get ending.round.roundId = some summary →
        summary.settledAtLedger = env.ledger.sequence := by
  have harchiving : Archiving env s ending fun log =>
      ∀ summary, log.1.archivedRound.get ending.round.roundId = some summary →
        summary.settledAtLedger = env.ledger.sequence := by
    refine ⟨fun s₁ finalPrice confidence _ _ => ?_, fun _ _ hpost => hpost⟩
    simp only [archiveRound, ensures_bind, ensures_ledgerSequence]
    refine (indexParticipants_spec _ _).mono ?_
    rintro _ _ ⟨index, rfl⟩
    simp only [ensures_update, ensures_gets, ensures_pushBack, enforceRetention_eq]
    intro _ summary hsummary
    simp only [Storage.log, Archive.pruneAll, Store.get_removeAll, Store.get_set_self] at hsummary
    split at hsummary
    · cases hsummary
    · obtain rfl := Option.some.inj hsummary
      rfl
  exact Call.ensures_archiving hinorder hending harchiving

omit [LinearOrder A] in
/-- Where less is found, a part of what was found is left, in its order. -/
theorem filterMap_sublist {α β : Type} {items : List α} {find find' : α → Option β}
    (hless : ∀ a ∈ items, find' a = none ∨ find' a = find a) :
    (items.filterMap find').Sublist (items.filterMap find) := by
  induction items with
  | nil => exact .slnil
  | cons a rest ih =>
      have hrest := ih fun b hmem => hless b (List.mem_cons_of_mem _ hmem)
      rcases hless a List.mem_cons_self with hnone | hsame
      · rw [List.filterMap_cons_none hnone]
        cases hfound : find a with
        | none => rwa [List.filterMap_cons_none hfound]
        | some found =>
            rw [List.filterMap_cons_some hfound]
            exact hrest.cons _
      · cases hfound : find a with
        | none =>
            rwa [List.filterMap_cons_none hfound,
              List.filterMap_cons_none (hsame.trans hfound)]
        | some found =>
            rw [List.filterMap_cons_some hfound, List.filterMap_cons_some (hsame.trans hfound)]
            exact hrest.cons_cons _

/-- Every step keeps the dates in order, when no indexed round can end again. -/
theorem Step.dated (hstep : Step host chain action chain') (hhealthy : chain.Healthy)
    (hover : ∀ user roundId, roundId ∈ chain.storage.archive.userRounds user →
      chain.storage.rounds.Over roundId)
    (hdated : chain.storage.Dated chain.ledger.sequence) :
    chain'.storage.Dated chain'.ledger.sequence := by
  rcases hstep.archive with ⟨signers, call, ending, rfl, hending, harchives⟩ | ⟨-, hsame⟩
  · have hordered := Storage.Healthy.ordered hhealthy
    have hinorder := Storage.Healthy.inOrder hhealthy chain.ledger.sequence_lt
    have hbook := (hordered.live _ _ ((Call.endsBy hending).live hordered)).2
    have hindexes := hstep.ensured (Call.ensures_indexes hinorder hbook.nodup hending)
    have hdates := hstep.ensured (Call.ensures_dates hinorder hending)
    obtain ⟨hlive, -⟩ := Chain.Healthy.ends_over hhealthy hstep hending
    have hother : ∀ roundId, roundId ≠ ending.round.roundId →
        chain'.storage.archive.archivedRound.get roundId = none ∨
          chain'.storage.archive.archivedRound.get roundId =
            chain.storage.archive.archivedRound.get roundId := by
      intro roundId hid
      obtain ⟨added, hrecords⟩ := harchives.records
      rw [hrecords, Store.get_removeAll, Store.get_set_of_ne _ _ hid]
      split
      · exact .inl rfl
      · exact .inr rfl
    rw [hstep.ledger_eq]
    refine ⟨fun roundId summary hsummary => ?_, fun user => ?_⟩
    · by_cases hid : roundId = ending.round.roundId
      · subst hid
        exact (hdates summary hsummary).le
      · rcases hother roundId hid with hnone | hsame
        · cases hnone.symm.trans hsummary
        · exact hdated.past roundId summary (hsame.symm.trans hsummary)
    · have hkept : ((chain.storage.archive.userRounds user).filterMap
          chain'.storage.archive.archivedRound.get).Sublist
            (chain.storage.archive.retained user) :=
        filterMap_sublist fun roundId hlisted => hother roundId fun hid =>
          hlive (hid ▸ hover user roundId hlisted)
      have hsorted := (hdated.ordered user).sublist hkept
      unfold Archive.retained
      rw [hindexes.index]
      split
      · rw [List.filterMap_append, List.pairwise_append]
        refine ⟨hsorted, ?_, fun older holder newer hnewer => ?_⟩
        · cases hadded : chain'.storage.archive.archivedRound.get ending.round.roundId <;>
            simp [hadded]
        · obtain ⟨roundId, -, hold⟩ := List.mem_filterMap.mp (hkept.subset holder)
          obtain ⟨last, hlast, hnew⟩ := List.mem_filterMap.mp hnewer
          rw [List.mem_singleton.mp hlast] at hnew
          rw [hdates newer hnew]
          exact hdated.past roundId older hold
      · exact hsorted
  · have harchive : chain'.storage.archive = chain.storage.archive := hsame
    refine ⟨fun roundId summary hsummary => ?_, fun user => ?_⟩
    · rw [harchive] at hsummary
      exact (hdated.past roundId summary hsummary).trans hstep.ledger_le
    · rw [harchive]
      exact hdated.ordered user

/-- The dates are in order in every reachable chain. -/
theorem Reachable.dated (hreachable : Reachable host chain) :
    chain.storage.Dated chain.ledger.sequence := by
  obtain ⟨trace, ledger, hrun⟩ := hreachable
  have hgenesis : (Chain.genesis (A := A) ledger).storage.Dated ledger.sequence :=
    ⟨fun _ _ hnone => (Option.some_ne_none _ hnone.symm).elim, fun _ => List.Pairwise.nil⟩
  refine hrun.invariant_of_trace (fun _ chain => chain.storage.Dated chain.ledger.sequence)
    hgenesis ?_
  intro earlier transition hearlier hstep hdated
  have hhistory : History host earlier transition.before := ⟨ledger, hearlier⟩
  exact hstep.dated hhistory.healthy (fun user roundId => (hhistory.attests user roundId).listed)
    hdated

end Dates

/-! ## The pages -/

/-- The pages of a user's history are exact: every call ends; the pages at the multiples of their
size, as far as the index goes, hold the archived rounds of the index, newest first and each once;
and beyond the index the pages are empty. -/
structure HistoryExact (s : Storage A) (user : A) (limit : ℕ) : Prop where
  terminates : ∀ offset fuel, (s.archive.userRounds user).length ≤ fuel →
    runUserArchiveHistory fuel s user offset limit =
      some (getUserArchiveHistory s user offset limit)
  paged : ∀ count, (s.archive.userRounds user).length ≤ count * limit →
    ∃ pages, (List.range count).mapM (fun page =>
        getUserArchiveHistory s user (page * limit) limit) = .ok pages ∧
      pages.flatten = (s.archive.retained user).reverse
  retained : ∀ roundId summary,
    summary ∈ s.archive.retained user ∧ summary.roundId = roundId ↔
      roundId ∈ s.archive.userRounds user ∧ s.archive.archivedRound.get roundId = some summary
  newest : (s.archive.retained user).reverse.Pairwise fun newer older =>
    older.settledAtLedger ≤ newer.settledAtLedger
  once : ((s.archive.retained user).reverse.map (·.roundId)).Nodup
  beyond : ∀ offset, (s.archive.userRounds user).length ≤ offset →
    getUserArchiveHistory s user offset limit = .ok []

section Pages

variable {s : Storage A} {user : A} {limit : ℕ}

/-- The pages that cover the index hold all archived rounds of it. -/
theorem pages_flatten (hpos : 0 < limit) (hmax : limit ≤ maxPageSize) {count : ℕ}
    (hcount : (s.archive.userRounds user).length ≤ count * limit) :
    ∃ pages, (List.range count).mapM (fun page =>
        getUserArchiveHistory s user (page * limit) limit) = .ok pages ∧
      pages.flatten = (s.archive.retained user).reverse := by
  refine ⟨_, mapM_eq_ok fun page _ => getUserArchiveHistory_eq hpos hmax, ?_⟩
  rw [← List.flatMap_def, ← List.filterMap_flatMap, flatMap_pages,
    List.take_of_length_le (by rwa [List.length_reverse]), List.filterMap_reverse]
  rfl

/-- A distinct index is listed without repetition. -/
theorem retained_nodup (hnamed : s.archive.Named) (hnodup : (s.archive.userRounds user).Nodup) :
    ((s.archive.retained user).map (·.roundId)).Nodup := by
  rw [Archive.retained, List.map_filterMap]
  refine hnodup.filterMap fun first second roundId hfirst hsecond => ?_
  obtain ⟨summary, hsummary, rfl⟩ := Option.map_eq_some_iff.mp hfirst
  obtain ⟨other, hother, hsame⟩ := Option.map_eq_some_iff.mp hsecond
  rw [← hnamed first summary hsummary, ← hnamed second other hother, hsame]

/-- What is listed is what is archived under an id of the index. -/
theorem mem_retained_iff (hnamed : s.archive.Named) {roundId : ℕ}
    {summary : ArchivedRoundSummary} :
    summary ∈ s.archive.retained user ∧ summary.roundId = roundId ↔
      roundId ∈ s.archive.userRounds user ∧
        s.archive.archivedRound.get roundId = some summary := by
  rw [Archive.retained, List.mem_filterMap]
  constructor
  · rintro ⟨⟨listed, hlisted, hget⟩, rfl⟩
    rw [hnamed listed summary hget]
    exact ⟨hlisted, hget⟩
  · rintro ⟨hlisted, hget⟩
    exact ⟨⟨roundId, hlisted, hget⟩, hnamed roundId summary hget⟩

end Pages

/-- In every reachable chain the history of every user is exact in pages of every size. -/
theorem history_exact [LinearOrder A] {host : Host A} {chain : Chain A} {user : A} {limit : ℕ}
    (hreachable : Reachable host chain) (hpos : 0 < limit) (hmax : limit ≤ maxPageSize) :
    HistoryExact chain.storage user limit := by
  have hnamed := hreachable.named
  have hnodup : (chain.storage.archive.userRounds user).Nodup := by
    obtain ⟨trace, hhistory⟩ := hreachable
    exact List.nodup_iff_count_le_one.mpr fun roundId => (hhistory.attests user roundId).once
  refine ⟨fun offset fuel hfuel => ?_, fun count hcount => ?_, fun roundId summary => ?_, ?_, ?_,
    fun offset hbeyond => ?_⟩
  · exact runUserArchiveHistory_eq _ _ _ _ hfuel
  · exact pages_flatten hpos hmax hcount
  · exact mem_retained_iff hnamed
  · exact List.pairwise_reverse.mpr (hreachable.dated.ordered user)
  · rw [List.map_reverse, List.nodup_reverse]
    exact retained_nodup hnamed hnodup
  · rw [getUserArchiveHistory_eq hpos hmax, List.drop_eq_nil_of_le (by rwa [List.length_reverse]),
      List.take_nil]
    rfl

/-- User 3 is in two cancelled rounds. -/
def cancelledTwice : List (Action ℕ) := precisionRound ++ [
  .invoke [1] (.cancelRound 0),
  .invoke [1] (.createRound 100 (some 0)),
  .invoke [3] (.placeBet 3 70 .up),
  .invoke [1] (.cancelRound 0)]

/-- Both rounds of user 3 are found on two pages of one summary, the second round first. -/
theorem cancelled_twice_paged : ∃ chain : Chain ℕ, ∃ pages,
    Reachable trialHost chain ∧
      (List.range 2).mapM (fun page =>
        getUserArchiveHistory chain.storage 3 (page * 1) 1) = .ok pages ∧
      pages.flatten.map (·.roundId) = [2, 1] := by
  obtain ⟨trace, chain, hhistory, -, hfits⟩ := exists_trial_history cancelledTwice
    (fun chain => decide (chain.storage.archive.userRounds 3 = [1, 2] ∧
      (chain.storage.archive.retained 3).map (·.roundId) = [1, 2])) (by decide +kernel)
  obtain ⟨hindex, hretained⟩ := of_decide_eq_true hfits
  have hexact : HistoryExact chain.storage 3 1 :=
    history_exact ⟨trace, hhistory⟩ (by decide) (by decide)
  obtain ⟨pages, hpages, hflat⟩ := hexact.paged 2 (by rw [hindex]; decide)
  refine ⟨chain, pages, ⟨trace, hhistory⟩, hpages, ?_⟩
  rw [hflat, List.map_reverse, hretained]
  rfl

end XelmaMarket
