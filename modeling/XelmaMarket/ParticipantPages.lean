import XelmaMarket.PoolStats
import XelmaMarket.Participation
import XelmaMarket.Lib.Paging

/-!
# Pages of the participants

The two cursor queries cut their pages over the participants of the active round in the order of
their addresses. In a Precision round a participant with an unrevealed commitment yields no item,
and a page full of them ends the reading in front of the predictions behind it.
-/

namespace XelmaMarket

open Paging Transaction

variable {A : Type}

/-! ## The queries -/

section Queries

variable [LinearOrder A] {α β : Type}

/-- The index of the first address behind the cursor in a sorted list. -/
def findCursorPosition (sorted : List A) (cursor : Option A) : ℕ :=
  resumeAt id sorted cursor

/-- The page of a list from an index on: what is found for its items up to a limit, and the address
of the last item found. -/
def cursorPage (address : α → A) (find : α → Option β) (items : List α) (start limit : ℕ) :
    List β × Option A :=
  let total := items.length
  if start ≥ total then
    ([], none)
  else
    let last := min (saturatingAddUint 32 start limit) total
    yieldOf address find ((items.drop start).take (last - start))

/-- A page of what is found for the participants of the active round. -/
def participantsCursor (find : ℕ → A → Option β) (s : Storage A) (cursor : Option A)
    (limit : ℕ) : Except Failure (List β × Option A) :=
  if limit = 0 ∨ limit > maxPageSize then
    .error (.err .pageSizeExceeded)
  else
    match s.rounds.activeRound with
    | none => .ok ([], none)
    | some round =>
        let participants := sortAddresses (s.rounds.participants round.roundId)
        .ok (cursorPage id (find round.roundId) participants
          (findCursorPosition participants cursor) limit)

/-- A page of the Precision predictions for the active round. -/
def getPrecisionPredictionsCursor (s : Storage A) (cursor : Option A) (limit : ℕ) :
    Except Failure (List (PrecisionPrediction A) × Option A) :=
  participantsCursor (fun roundId user => s.rounds.precisionPosition.get (roundId, user)) s cursor
    limit

/-- A page of the UpDown positions for the active round. -/
def getUpdownPositionsCursor (s : Storage A) (cursor : Option A) (limit : ℕ) :
    Except Failure (List (A × UserPosition) × Option A) :=
  participantsCursor (fun roundId user =>
    (s.rounds.position.get (roundId, user)).map fun position => (user, position)) s cursor limit

/-- A page of a list that fits a vector is the page behind its cursor. -/
theorem cursorPage_eq {key : α → A} {find : α → Option β} {items : List α} {limit : ℕ}
    {cursor : Option A} (hfits : items.length ≤ maxVecLength) :
    cursorPage key find items (resumeAt key items cursor) limit =
      pageOf key find items limit cursor := by
  unfold cursorPage pageOf
  generalize resumeAt key items cursor = start
  dsimp only
  split
  · next hend => rw [List.drop_of_length_le hend, List.take_nil, yieldOf_nil]
  · next hstart =>
      have hlength : (items.drop start).length = items.length - start := List.length_drop
      congr 1
      unfold saturatingAddUint
      by_cases hlast : start + limit ≤ items.length
      · congr 1
        unfold maxVecLength at hfits
        omega
      · rw [List.take_of_length_le (by unfold maxVecLength at hfits; omega),
          List.take_of_length_le (by omega)]

/-- A page that is found by evaluation. -/
theorem eq_ok_of_toOption {result : Except Failure α} {page : α}
    (hpage : result.toOption = some page) : result = .ok page := by
  cases result with
  | error failure => cases hpage
  | ok other => exact congrArg Except.ok (Option.some.inj hpage)

end Queries

/-! ## Reading all pages -/

section Reads

variable [LinearOrder A] {β : Type} {s : Storage A} {round : Round} {limit : ℕ}
  {find : ℕ → A → Option β} {users : List A}

/-- The pages from the first one on give what is stored for every user, in the order of the
addresses and each once. -/
def ReadsAll (page : Option A → Except Failure (List β × Option A)) (stored : A → Option β) :
    Prop :=
  ∃ users : List A, users.Pairwise (· < ·) ∧ (∀ user, user ∈ users ↔ (stored user).isSome = true) ∧
    Collects page none (users.filterMap stored)

/-- Distinct addresses are sorted strictly. -/
theorem sortAddresses_pairwise (hnodup : users.Nodup) :
    (sortAddresses users).Pairwise (· < ·) := by
  have hsorted : (sortAddresses users).Pairwise (· ≤ ·) := List.pairwise_insertionSort _ _
  have hdistinct : (sortAddresses users).Nodup := (sortAddresses_perm users).nodup_iff.mpr hnodup
  exact hsorted.imp₂ (fun _ _ hle hne => lt_of_le_of_ne hle hne) hdistinct

/-- Where something is stored for participants only, they are the users to be read. -/
theorem readsAll_iff {page : Option A → Except Failure (List β × Option A)}
    {stored : A → Option β} (hnodup : users.Nodup)
    (hstored : ∀ user, (stored user).isSome = true → user ∈ users) :
    ReadsAll page stored ↔ Collects page none ((sortAddresses users).filterMap stored) := by
  have hsorted := sortAddresses_pairwise hnodup
  have hfound : ((sortAddresses users).filter fun user => (stored user).isSome).filterMap stored =
      (sortAddresses users).filterMap stored := by
    rw [List.filterMap_filter]
    refine List.filterMap_congr fun user _ => ?_
    cases hstored : stored user <;> simp
  rw [← hfound]
  constructor
  · rintro ⟨readers, hreaders, hmembers, hcollects⟩
    rwa [(hsorted.filter _).eq_of_mem_iff hreaders]
    intro user
    rw [List.mem_filter, mem_sortAddresses, hmembers]
    exact and_iff_right_of_imp (hstored user)
  · intro hcollects
    refine ⟨_, hsorted.filter _, fun user => ?_, hcollects⟩
    rw [List.mem_filter, mem_sortAddresses]
    exact and_iff_right_of_imp (hstored user)

/-- The participants are read completely when no page in front of an item is without one, and only
then. -/
theorem participantsCursor_reads_iff (hactive : s.rounds.activeRound = some round)
    (hnodup : (s.rounds.participants round.roundId).Nodup)
    (hroom : (s.rounds.participants round.roundId).length ≤ maxVecLength)
    (hpos : 0 < limit) (hmax : limit ≤ maxPageSize)
    (hstored : ∀ user, (find round.roundId user).isSome = true →
      user ∈ s.rounds.participants round.roundId) :
    ReadsAll (fun cursor => participantsCursor find s cursor limit) (find round.roundId) ↔
      Gapless (fun user => (find round.roundId user).isSome = true) limit
        (sortAddresses (s.rounds.participants round.roundId)) := by
  rw [readsAll_iff hnodup hstored]
  refine @collects_sorted_iff _ _ _ _ _ _ id _ _ _ (sortAddresses_pairwise hnodup) fun cursor => ?_
  have hlimit : ¬ (limit = 0 ∨ limit > maxPageSize) := by omega
  have hfits := (sortAddresses_perm (s.rounds.participants round.roundId)).length_eq.trans_le hroom
  simp only [participantsCursor, if_neg hlimit, hactive, findCursorPosition, cursorPage_eq hfits]

end Reads

section Active

variable [LinearOrder A] {host : Host A} {chain : Chain A} {rounds : Rounds A} {round : Round}
  {limit : ℕ}

omit [LinearOrder A] in
/-- Predictions are stored for participants only. -/
theorem mem_of_prediction (hbook : Represents rounds round) {user : A}
    (hstored : (rounds.precisionPosition.get (round.roundId, user)).isSome = true) :
    user ∈ rounds.participants round.roundId := by
  cases hmode : round.mode with
  | upDown => simp [(hbook.upDown hmode).no_prediction user] at hstored
  | precision =>
      exact ((hbook.precision hmode).staked_iff user).mp (.inl (Option.isSome_iff_exists.mp hstored))

omit [LinearOrder A] in
/-- Positions are stored for participants only. -/
theorem mem_of_position (hbook : Represents rounds round) {user : A}
    (hstored : (rounds.position.get (round.roundId, user)).isSome = true) :
    user ∈ rounds.participants round.roundId := by
  cases hmode : round.mode with
  | upDown => exact ((hbook.upDown hmode).position_iff user).mp (Option.isSome_iff_exists.mp hstored)
  | precision => simp [(hbook.precision hmode).no_position user] at hstored

/-- All participants of a round have positions or none has. -/
theorem positions_gapless (hbook : Represents rounds round) (hpos : 0 < limit) :
    Gapless (fun user => (rounds.position.get (round.roundId, user)).isSome = true) limit
      (sortAddresses (rounds.participants round.roundId)) := by
  cases hmode : round.mode with
  | upDown =>
      refine gapless_of_all hpos fun user hmem => Option.isSome_iff_exists.mpr ?_
      exact (hbook.upDown hmode).position (mem_sortAddresses.mp hmem)
  | precision =>
      refine gapless_of_none fun user _ => ?_
      simp [(hbook.precision hmode).no_position user]

/-- The pages of the active round give all predictions and all positions exactly when no full page
of participants without a prediction stands in front of a prediction. -/
theorem participants_paged_iff (hreachable : Reachable host chain)
    (hactive : chain.storage.rounds.activeRound = some round) (hpos : 0 < limit)
    (hmax : limit ≤ maxPageSize) :
    ReadsAll (fun cursor => getPrecisionPredictionsCursor chain.storage cursor limit)
        (fun user => chain.storage.rounds.precisionPosition.get (round.roundId, user)) ∧
      ReadsAll (fun cursor => getUpdownPositionsCursor chain.storage cursor limit)
        (fun user => (chain.storage.rounds.position.get (round.roundId, user)).map
          fun position => (user, position)) ↔
      Gapless (fun user =>
          (chain.storage.rounds.precisionPosition.get (round.roundId, user)).isSome = true) limit
        (sortAddresses (chain.storage.rounds.participants round.roundId)) := by
  have hordered := Storage.Healthy.ordered hreachable.healthy
  have hbook := hordered.active_represented hactive
  have hroom := hordered.room round.roundId
  have hpositions : ReadsAll (fun cursor => getUpdownPositionsCursor chain.storage cursor limit)
      fun user => (chain.storage.rounds.position.get (round.roundId, user)).map
        fun position => (user, position) := by
    refine (participantsCursor_reads_iff hactive hbook.nodup hroom hpos hmax
      fun user hstored => ?_).mpr ?_
    · exact mem_of_position hbook (by simpa using hstored)
    · simpa using positions_gapless hbook hpos
  rw [and_iff_left hpositions]
  exact participantsCursor_reads_iff hactive hbook.nodup hroom hpos hmax
    fun user => mem_of_prediction hbook

end Active

/-- On pages of two participants the prediction behind an open commitment is read. -/
theorem open_commitment_paged : ∃ chain : Chain ℕ, ∃ round,
    Reachable hashingHost chain ∧ chain.storage.rounds.activeRound = some round ∧
      chain.storage.rounds.precisionPosition.get (round.roundId, 3) = none ∧
      (chain.storage.rounds.precisionPosition.get (round.roundId, 4)).isSome = true ∧
      ReadsAll (fun cursor => getPrecisionPredictionsCursor chain.storage cursor 2)
        fun user => chain.storage.rounds.precisionPosition.get (round.roundId, user) := by
  obtain ⟨trace, chain, hhistory, -, hfits⟩ := exists_history hashingHost openCommitment
    (fun chain => chain.storage.rounds.activeRound.any fun round : Round =>
      decide (chain.storage.rounds.precisionPosition.get (round.roundId, 3) = none ∧
        (chain.storage.rounds.precisionPosition.get (round.roundId, 4)).isSome = true ∧
        Gapless (fun user =>
          (chain.storage.rounds.precisionPosition.get (round.roundId, user)).isSome = true) 2
          (sortAddresses (chain.storage.rounds.participants round.roundId)))) (by decide +kernel)
  obtain ⟨round, hactive, hround⟩ := (Option.any_eq_true _ _).mp hfits
  obtain ⟨hcommitted, hpredicted, hgapless⟩ := of_decide_eq_true hround
  obtain ⟨hpredictions, -⟩ := (participants_paged_iff ⟨trace, hhistory⟩ hactive (by decide)
    (by decide)).mpr hgapless
  exact ⟨chain, round, ⟨trace, hhistory⟩, hactive, hcommitted, hpredicted, hpredictions⟩

/-- On pages of one participant an open commitment ends the reading in front of a prediction. -/
theorem prediction_not_paged : ¬ ∀ (chain : Chain ℕ) round limit, Reachable hashingHost chain →
    chain.storage.rounds.activeRound = some round → 0 < limit → limit ≤ maxPageSize →
    ReadsAll (fun cursor => getPrecisionPredictionsCursor chain.storage cursor limit)
        (fun user => chain.storage.rounds.precisionPosition.get (round.roundId, user)) ∧
      ReadsAll (fun cursor => getUpdownPositionsCursor chain.storage cursor limit)
        (fun user => (chain.storage.rounds.position.get (round.roundId, user)).map
          fun position => (user, position)) := by
  intro hclaim
  obtain ⟨trace, chain, hhistory, -, hfits⟩ := exists_history hashingHost openCommitment
    (fun chain => chain.storage.rounds.activeRound.any fun round : Round =>
      decide ((chain.storage.rounds.precisionPosition.get (round.roundId, 4)).isSome = true ∧
        (getPrecisionPredictionsCursor chain.storage none 1).toOption = some ([], none)))
    (by decide +kernel)
  obtain ⟨round, hactive, hround⟩ := (Option.any_eq_true _ _).mp hfits
  obtain ⟨hstored, hfirst⟩ := of_decide_eq_true hround
  obtain ⟨⟨users, -, hmembers, hcollects⟩, -⟩ :=
    hclaim chain round 1 ⟨trace, hhistory⟩ hactive (by decide) (by decide)
  have hnothing := List.filterMap_eq_nil_iff.mp
    ((collects_of_last (eq_ok_of_toOption hfirst)).mp hcollects)
  rw [hnothing 4 ((hmembers 4).mpr hstored)] at hstored
  cases hstored

end XelmaMarket
