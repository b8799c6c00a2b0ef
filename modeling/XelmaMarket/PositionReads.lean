import XelmaMarket.Dispute
import XelmaMarket.Lib.SortedMap
import XelmaMarket.Lib.Windows
import XelmaMarket.ParticipantPages

/-!
# Reads of the active round's bets

The queries for all positions and predictions of the active round, and their pages from an offset
on. A page holds at most `maxPageSize` participants whatever its limit is, so that the offsets of
complete readings are the multiples of what a page holds and not of the limit.
-/

namespace XelmaMarket

variable {A : Type} [LinearOrder A] {β : Type}

/-! ## The queries -/

/-- The map of what is found for some users. -/
def collect (find : A → Option β) (users : List A) : SortedMap A β :=
  users.foldl (fun result user => (find user).elim result (result.insert user)) .empty

/-- All UpDown positions for the active round. -/
def getUpdownPositions (s : Storage A) : SortedMap A UserPosition :=
  match s.rounds.activeRound with
  | none => .empty
  | some round =>
      collect (fun user => s.rounds.position.get (round.roundId, user))
        (s.rounds.participants round.roundId)

/-- All Precision predictions for the active round. -/
def getPrecisionPredictions (s : Storage A) : List (PrecisionPrediction A) :=
  match s.rounds.activeRound with
  | none => []
  | some round =>
      (s.rounds.participants round.roundId).filterMap fun user =>
        s.rounds.precisionPosition.get (round.roundId, user)

/-- A slice of what is found for the participants of the active round in the order of their
addresses. -/
def participantsPage (find : ℕ → A → Option β) (s : Storage A) (offset limit : ℕ) : List β :=
  let limit := min limit maxPageSize
  if limit = 0 then
    []
  else
    match s.rounds.activeRound with
    | none => []
    | some round =>
        let participants := sortAddresses (s.rounds.participants round.roundId)
        let total := participants.length
        if offset ≥ total then
          []
        else
          let last := min (saturatingAddUint 32 offset limit) total
          ((participants.drop offset).take (last - offset)).filterMap (find round.roundId)

/-- A slice of the Precision predictions for the active round. -/
def getPrecisionPredictionsPage (s : Storage A) (offset limit : ℕ) :
    List (PrecisionPrediction A) :=
  participantsPage (fun roundId user => s.rounds.precisionPosition.get (roundId, user)) s offset
    limit

/-- A slice of the UpDown positions for the active round. -/
def getUpdownPositionsPage (s : Storage A) (offset limit : ℕ) : List (A × UserPosition) :=
  participantsPage (fun roundId user =>
    (s.rounds.position.get (roundId, user)).map fun position => (user, position)) s offset limit

/-! ## The maps -/

section Maps

variable {find : A → Option β} {users : List A} {s : Storage A} {round : Round}

/-- The map has what is found for the users it was collected for. -/
theorem get_collect (user : A) :
    (collect find users).get user = if user ∈ users then find user else none := by
  have hfold : ∀ result : SortedMap A β,
      (users.foldl (fun result user => (find user).elim result (result.insert user)) result).get
          user = (if user ∈ users then find user else none).or (result.get user) := by
    induction users with
    | nil => exact fun _ => rfl
    | cons head rest ih =>
        intro result
        rw [List.foldl_cons, ih]
        by_cases hhead : user = head
        · subst hhead
          cases hfound : find user with
          | none => simp
          | some value =>
              have hread : (result.insert user value).get user = some value :=
                (result.get_insert user user value).trans (if_pos rfl)
              by_cases hlater : user ∈ rest <;> simp [hread, hlater]
        · have hother : ((find head).elim result (result.insert head)).get user =
              result.get user := by
            cases find head with
            | none => rfl
            | some value => exact (result.get_insert head user value).trans (if_neg hhead)
          simp [hother, hhead]
  rw [collect, hfold, SortedMap.get_empty, Option.or_none]

/-- What is found for listed users only is all in the map. -/
theorem get_collect_stored (hlisted : ∀ user, (find user).isSome = true → user ∈ users) {user : A} :
    (collect find users).get user = find user := by
  rw [get_collect]
  split_ifs with hmem
  · rfl
  · exact (Option.not_isSome_iff_eq_none.mp (mt (hlisted user) hmem)).symm

/-- The entries are what is found for the users in ascending order, under their keys. -/
theorem entries_collect (hnodup : users.Nodup) :
    (collect find users).entries = (sortAddresses users).filterMap fun user =>
      (find user).map fun value => (user, value) := by
  have hkeys : (collect find users).keys =
      (sortAddresses users).filter fun user => (find user).isSome := by
    refine SortedMap.keys_eq _ ((sortAddresses_pairwise hnodup).filter _) fun user => ?_
    rw [List.mem_filter, mem_sortAddresses, get_collect]
    by_cases hlisted : user ∈ users <;> simp [hlisted]
  rw [SortedMap.entries_eq, hkeys, List.filterMap_filter]
  refine List.filterMap_congr fun user hmem => ?_
  rw [get_collect, if_pos (mem_sortAddresses.mp hmem)]
  cases find user <;> rfl

end Maps

/-! ## The pages -/

section Pages

variable {find : ℕ → A → Option β} {s : Storage A} {round : Round} {limit stride count : ℕ}

/-- A page is what is found in a window of the participants. -/
theorem participantsPage_eq (hactive : s.rounds.activeRound = some round)
    (hroom : (s.rounds.participants round.roundId).length ≤ maxVecLength) (offset : ℕ) :
    participantsPage find s offset limit =
      (((sortAddresses (s.rounds.participants round.roundId)).drop offset).take
        (min limit maxPageSize)).filterMap (find round.roundId) := by
  have hlength := (sortAddresses_perm (s.rounds.participants round.roundId)).length_eq
  generalize husers : sortAddresses (s.rounds.participants round.roundId) = users at hlength
  unfold participantsPage
  simp only [hactive, husers]
  split_ifs with hzero hend
  · rw [hzero]
    rfl
  · rw [List.drop_of_length_le hend, List.take_nil]
    rfl
  · have hdropped : (users.drop offset).length = users.length - offset := List.length_drop
    congr 1
    unfold saturatingAddUint maxVecLength at *
    by_cases hlast : offset + min limit maxPageSize ≤ users.length
    · congr 1
      omega
    · rw [List.take_of_length_le (by omega), List.take_of_length_le (by omega)]

/-- Pages at the multiples of a stride are what is found in windows of the participants. -/
theorem flatMap_participantsPage (hactive : s.rounds.activeRound = some round)
    (hroom : (s.rounds.participants round.roundId).length ≤ maxVecLength) :
    ((List.range count).flatMap fun page => participantsPage find s (page * stride) limit) =
      (windows (sortAddresses (s.rounds.participants round.roundId)) stride
        (min limit maxPageSize) count).filterMap (find round.roundId) := by
  rw [filterMap_windows]
  exact List.flatMap_congr fun page _ => participantsPage_eq hactive hroom _

end Pages

section Active

variable {host : Host A} {chain : Chain A} {round : Round} {limit stride count : ℕ}

omit [LinearOrder A] in
theorem mem_of_mem_windows {entries : List A} {size : ℕ} {user : A}
    (hmem : user ∈ windows entries stride size count) : user ∈ entries := by
  obtain ⟨page, -, hwindow⟩ := List.mem_flatMap.mp hmem
  exact List.mem_of_mem_drop (List.mem_of_mem_take hwindow)

omit [LinearOrder A] in
/-- A stored prediction is its user's own. -/
theorem Represents.prediction_user {rounds : Rounds A} (hbook : Represents rounds round) {user : A}
    {prediction : PrecisionPrediction A}
    (hstored : rounds.precisionPosition.get (round.roundId, user) = some prediction) :
    prediction.user = user := by
  cases hmode : round.mode with
  | upDown =>
      rw [(hbook.upDown hmode).no_prediction user] at hstored
      cases hstored
  | precision => exact ((hbook.precision hmode).prediction_pos user prediction hstored).1

omit [LinearOrder A] in
/-- Where everything listed is found, pages find it all exactly when their windows cover the
list. -/
theorem filterMap_windows_eq_iff {find : A → Option (A × β)} {users : List A} {size : ℕ}
    (hfound : ∀ user ∈ users, ∃ entry, find user = some entry ∧ entry.1 = user) :
    (windows users stride size count).filterMap find = users.filterMap find ↔
      windows users stride size count = users := by
  refine ⟨fun hsame => ?_, fun hcovers => by rw [hcovers]⟩
  have hread : ∀ listed : List A, (∀ user ∈ listed, user ∈ users) →
      (listed.filterMap find).map Prod.fst = listed := by
    intro listed hlisted
    rw [filterMap_map_eq fun user hmem => hfound user (hlisted user hmem), List.map_id']
  rw [← hread (windows users stride size count) fun user => mem_of_mem_windows, hsame]
  exact hread users fun _ => id

/-- The pages at the multiples of a stride that go past the last participant give the positions of
the active round, each once and in the order of the addresses, exactly when the stride is what a
page holds or when one page holds all participants. At what a page holds they give all predictions
of the active round too. -/
theorem offset_pages_read_iff (hreachable : Reachable host chain)
    (hactive : chain.storage.rounds.activeRound = some round)
    (hcount : (chain.storage.rounds.participants round.roundId).length ≤ count * stride) :
    (round.mode = .upDown →
      (((List.range count).flatMap fun page =>
          getUpdownPositionsPage chain.storage (page * stride) limit) =
          (getUpdownPositions chain.storage).entries ↔
        stride = min limit maxPageSize ∨
          (chain.storage.rounds.participants round.roundId).length ≤
            min stride (min limit maxPageSize))) ∧
      (stride = min limit maxPageSize →
        ((List.range count).flatMap fun page =>
          getPrecisionPredictionsPage chain.storage (page * stride) limit).Perm
            (getPrecisionPredictions chain.storage) ∧
          ((List.range count).flatMap fun page =>
            getPrecisionPredictionsPage chain.storage (page * stride) limit).Pairwise
              fun first second => first.user < second.user) := by
  have hordered := Storage.Healthy.ordered hreachable.healthy
  have hbook := hordered.active_represented hactive
  have hroom := hordered.room round.roundId
  have hperm := sortAddresses_perm (chain.storage.rounds.participants round.roundId)
  have hreach : (sortAddresses (chain.storage.rounds.participants round.roundId)).length ≤
      count * stride := by rwa [hperm.length_eq]
  constructor
  · intro hmode
    have hentries : (getUpdownPositions chain.storage).entries =
        (sortAddresses (chain.storage.rounds.participants round.roundId)).filterMap fun user =>
          (chain.storage.rounds.position.get (round.roundId, user)).map
            fun position => (user, position) := by
      unfold getUpdownPositions
      rw [hactive]
      exact entries_collect hbook.nodup
    have hfound : ∀ user ∈ sortAddresses (chain.storage.rounds.participants round.roundId),
        ∃ entry, ((chain.storage.rounds.position.get (round.roundId, user)).map
          fun position => (user, position)) = some entry ∧ entry.1 = user := by
      intro user hmem
      obtain ⟨position, hposition⟩ :=
        (hbook.upDown hmode).position (mem_sortAddresses.mp hmem)
      exact ⟨(user, position), by rw [hposition]; rfl, rfl⟩
    unfold getUpdownPositionsPage
    rw [flatMap_participantsPage hactive hroom, hentries, filterMap_windows_eq_iff hfound,
      windows_eq_iff hreach, hperm.length_eq]
  · intro hstride
    unfold getPrecisionPredictionsPage
    rw [flatMap_participantsPage hactive hroom, ← hstride, windows_self hreach]
    constructor
    · unfold getPrecisionPredictions
      rw [hactive]
      exact hperm.filterMap _
    · refine (sortAddresses_pairwise hbook.nodup).filterMap _ ?_
      intro user other hless prediction hstored rival hrival
      rw [hbook.prediction_user hstored, hbook.prediction_user hrival]
      exact hless

end Active

/-- Pages of one position read the round at consecutive offsets, and lose user 4 at every second
offset. -/
theorem settleable_round_paged : ∃ chain : Chain ℕ, Reachable trialHost chain ∧
    ((List.range 2).flatMap fun page => getUpdownPositionsPage chain.storage (page * 1) 1) =
      (getUpdownPositions chain.storage).entries ∧
    ((List.range 2).flatMap fun page => getUpdownPositionsPage chain.storage (page * 2) 1) ≠
      (getUpdownPositions chain.storage).entries := by
  obtain ⟨trace, chain, hhistory, -, hfits⟩ := exists_trial_history settleableRound
    (fun chain => chain.storage.rounds.activeRound.any fun round : Round =>
      decide (round.mode = .upDown ∧
        (chain.storage.rounds.participants round.roundId).length = 2)) (by decide +kernel)
  obtain ⟨round, hactive, hround⟩ := (Option.any_eq_true _ _).mp hfits
  obtain ⟨hmode, hlength⟩ := of_decide_eq_true hround
  have hreachable : Reachable trialHost chain := ⟨trace, hhistory⟩
  obtain ⟨hexact, -⟩ := @offset_pages_read_iff _ _ _ _ _ 1 1 2 hreachable hactive (by omega)
  obtain ⟨hskips, -⟩ := @offset_pages_read_iff _ _ _ _ _ 1 2 2 hreachable hactive (by omega)
  refine ⟨chain, hreachable, (hexact hmode).mpr (.inl rfl), fun hreads => ?_⟩
  rcases (hskips hmode).mp hreads with hstride | hfew
  · exact absurd hstride (by decide)
  · rw [hlength] at hfew
    exact absurd hfew (by decide)

end XelmaMarket
