import XelmaMarket.Lib.Windows
import XelmaMarket.PrecisionLimits
import XelmaMarket.RoundStatus

/-!
# Participation in archived rounds

The contract answers two questions about a user and an archived round: the outcome recorded for the
user, and the pages of the user's history. The outcomes are recorded when a round is settled and at
an early cash-out, the history is indexed from the participants when the round is archived. They
agree on everyone but those who cashed out.
-/

namespace XelmaMarket

open Transaction

variable {A : Type}

/-! ## The queries -/

/-- The most entries a page may ask for. -/
def maxPageSize : ℕ := 100

/-- The ids of the archived rounds a user took part in, oldest first. -/
def Archive.userRounds (archive : Archive A) (user : A) : List ℕ :=
  archive.userArchivedRoundIds.getD user []

/-- The recorded outcome of a user, as long as the round is archived. -/
def getUserArchivedParticipation (s : Storage A) (user : A) (roundId : ℕ) :
    Option (UserRoundOutcome A) :=
  if s.archive.archivedRound.has roundId then
    s.userRoundOutcome.get (roundId, user)
  else
    none

/-- Append the summary of the round listed at an index, as long as it is archived. -/
def Archive.fetch (archive : Archive A) (userRounds : List ℕ) (idx : ℕ)
    (result : List ArchivedRoundSummary) : List ArchivedRoundSummary :=
  match userRounds[idx]? with
  | some roundId =>
      match archive.archivedRound.get roundId with
      | some summary => result ++ [summary]
      | none => result
  | none => result

/-- Fetch from an index downwards until the last index of the page or until the page is full. -/
def Archive.fetchDown (archive : Archive A) (userRounds : List ℕ) (last limit : ℕ) :
    ℕ → List ArchivedRoundSummary → List ArchivedRoundSummary
  | 0, result => archive.fetch userRounds 0 result
  | idx + 1, result =>
      let fetched := archive.fetch userRounds (idx + 1) result
      if idx + 1 = last ∨ fetched.length = limit then
        fetched
      else
        archive.fetchDown userRounds last limit idx fetched

/-- A page of the archived rounds a user took part in, newest first. -/
def getUserArchiveHistory (s : Storage A) (user : A) (offset limit : ℕ) :
    Except Failure (List ArchivedRoundSummary) :=
  if limit = 0 ∨ limit > maxPageSize then
    .error (.err .pageSizeExceeded)
  else
    let userRounds := s.archive.userRounds user
    let total := userRounds.length
    if offset ≥ total then
      .ok []
    else
      let start := total - (offset + 1)
      .ok (s.archive.fetchDown userRounds (start - (limit - 1)) limit start [])

/-- All pages of one size, one after the other. -/
def archiveHistory (s : Storage A) (user : A) (limit : ℕ) : List ArchivedRoundSummary :=
  (List.range (s.archive.userRounds user).length).flatMap fun page =>
    (getUserArchiveHistory s user (page * limit) limit).toOption.getD []

/-- The two queries agree on a round: it has a participation record if and only if it is in the
history, and it is there at most once, whatever the size of the pages. -/
structure ParticipationAgrees (s : Storage A) (user : A) (roundId : ℕ) : Prop where
  listed : ∀ limit, 0 < limit → limit ≤ maxPageSize →
    ((getUserArchivedParticipation s user roundId).isSome ↔
      roundId ∈ (archiveHistory s user limit).map (·.roundId))
  once : ∀ limit, 0 < limit → limit ≤ maxPageSize →
    ((archiveHistory s user limit).map (·.roundId)).count roundId ≤ 1

/-! ## What the pages hold -/

section Pages

variable {archive : Archive A} {userRounds : List ℕ} {last limit : ℕ}

/-- A listed index is fetched from. -/
theorem fetch_eq {idx : ℕ} (hidx : idx < userRounds.length)
    (result : List ArchivedRoundSummary) : archive.fetch userRounds idx result =
      result ++ ((userRounds.take (idx + 1)).drop idx).filterMap archive.archivedRound.get := by
  have hslice : (userRounds.take (idx + 1)).drop idx = [userRounds[idx]] := by
    rw [List.take_succ_eq_append_getElem hidx, List.drop_append_of_le_length (by simp; omega)]
    simp
  rw [hslice, Archive.fetch, List.getElem?_eq_getElem hidx]
  cases hget : archive.archivedRound.get userRounds[idx] <;> simp [hget]

theorem fetch_length_le (idx : ℕ) (result : List ArchivedRoundSummary) :
    (archive.fetch userRounds idx result).length ≤ result.length + 1 := by
  unfold Archive.fetch
  split
  · split <;> simp
  · simp

/-- The loop collects the summaries of its slice of the list, from the back. -/
theorem fetchDown_eq {idx : ℕ} (hidx : idx < userRounds.length) (hlast : last ≤ idx)
    {result : List ArchivedRoundSummary} (hroom : result.length + (idx - last) < limit) :
    archive.fetchDown userRounds last limit idx result = result ++
      ((userRounds.take (idx + 1)).drop last).reverse.filterMap archive.archivedRound.get := by
  induction idx generalizing result with
  | zero =>
      obtain rfl := Nat.le_zero.mp hlast
      rw [Archive.fetchDown, fetch_eq hidx]
      have hone : ((userRounds.take (0 + 1)).drop 0).reverse = (userRounds.take (0 + 1)).drop 0 := by
        cases userRounds <;> rfl
      rw [hone]
  | succ idx ih =>
      rw [Archive.fetchDown]
      have hslice : (userRounds.take (idx + 2)).drop (idx + 1) = [userRounds[idx + 1]] := by
        rw [List.take_succ_eq_append_getElem hidx, List.drop_append_of_le_length (by simp; omega)]
        simp
      by_cases hend : idx + 1 = last
      · rw [if_pos (.inl hend), fetch_eq hidx, ← hend, hslice]
        rfl
      · have hlength := @fetch_length_le _ archive userRounds (idx + 1) result
        rw [if_neg (by omega), ih (by omega) (by omega) (by omega), fetch_eq hidx, hslice,
          List.take_succ_eq_append_getElem hidx, List.drop_append_of_le_length (by simp; omega),
          List.reverse_append, List.filterMap_append, List.append_assoc]
        rfl

variable {s : Storage A} {user : A}

/-- A page holds the archived ones of its entries. -/
theorem getUserArchiveHistory_eq {offset : ℕ} (hpos : 0 < limit) (hmax : limit ≤ maxPageSize) :
    getUserArchiveHistory s user offset limit =
      .ok ((((s.archive.userRounds user).reverse.drop offset).take limit).filterMap
        s.archive.archivedRound.get) := by
  unfold getUserArchiveHistory
  rw [if_neg (by omega)]
  by_cases hend : offset ≥ (s.archive.userRounds user).length
  · rw [if_pos hend, List.drop_eq_nil_of_le (by rwa [List.length_reverse]), List.take_nil]
    rfl
  · rw [if_neg hend]
    dsimp only
    rw [fetchDown_eq (by omega) (by omega) (by simp; omega), List.drop_reverse,
      List.take_reverse, List.nil_append, List.length_take_of_le (by omega)]
    -- the loop's first and last index are where the page starts and ends
    generalize (s.archive.userRounds user).length = total at hend ⊢
    rw [show total - (offset + 1) + 1 = total - offset by omega,
      show total - (offset + 1) - (limit - 1) = total - offset - limit by omega]

/-- All pages together hold the archived rounds of the user's index, newest first. -/
theorem archiveHistory_eq (hpos : 0 < limit) (hmax : limit ≤ maxPageSize) :
    archiveHistory s user limit =
      (s.archive.userRounds user).reverse.filterMap s.archive.archivedRound.get := by
  unfold archiveHistory
  have hpages : ∀ page, (getUserArchiveHistory s user (page * limit) limit).toOption.getD [] =
      (((s.archive.userRounds user).reverse.drop (page * limit)).take limit).filterMap
        s.archive.archivedRound.get := by
    intro page
    rw [getUserArchiveHistory_eq hpos hmax]
    rfl
  have hall : (s.archive.userRounds user).reverse.length ≤
      (s.archive.userRounds user).length * limit := by
    rw [List.length_reverse]
    exact Nat.le_mul_of_pos_right _ hpos
  simp only [hpages]
  rw [← List.filterMap_flatMap, flatMap_pages, List.take_of_length_le hall]

/-- Every archived summary carries the id it is archived under. -/
def Archive.Named (archive : Archive A) : Prop :=
  ∀ roundId summary, archive.archivedRound.get roundId = some summary → summary.roundId = roundId

/-- The history lists an archived round as often as the user's index does. -/
theorem archiveHistory_count (hnamed : s.archive.Named) {roundId : ℕ}
    (harchived : s.archive.archivedRound.get roundId ≠ none) (hpos : 0 < limit)
    (hmax : limit ≤ maxPageSize) :
    ((archiveHistory s user limit).map (·.roundId)).count roundId =
      (s.archive.userRounds user).count roundId := by
  have hreverse : (s.archive.userRounds user).count roundId =
      (s.archive.userRounds user).reverse.count roundId := List.count_reverse.symm
  rw [archiveHistory_eq hpos hmax, hreverse]
  generalize (s.archive.userRounds user).reverse = entries
  induction entries with
  | nil => rfl
  | cons entry rest ih =>
      cases hget : s.archive.archivedRound.get entry with
      | none =>
          have hother : entry ≠ roundId := fun hsame => harchived (hsame ▸ hget)
          rw [List.filterMap_cons_none hget, ih, List.count_cons_of_ne hother]
      | some summary =>
          rw [List.filterMap_cons_some hget, List.map_cons, List.count_cons, List.count_cons, ih,
            hnamed entry summary hget]

end Pages

/-! ## What ending a round does to the index -/

section Index

variable [LinearOrder A] {env : Env A} {s s' : Storage A} {call : Call A}

/-- Every participant has the round appended to their index, once. -/
theorem indexParticipants_userRounds (roundId : ℕ) {participants : List A}
    (hnodup : participants.Nodup) : Ensures (indexParticipants roundId participants) env s
      fun _ s' => ∃ index, s' = { s with archive := { s.archive with
        userArchivedRoundIds := index } } ∧ ∀ user, index.getD user [] =
          if user ∈ participants then s.archive.userRounds user ++ [roundId]
          else s.archive.userRounds user := by
  -- the index is extended for those visited so far
  have hloop : Ensures (indexParticipants roundId participants) env s fun _ s' =>
      ∃ visited, visited ++ [] = participants ∧ ∃ index, s' = { s with archive := { s.archive with
        userArchivedRoundIds := index } } ∧ ∀ user, index.getD user [] =
          if user ∈ visited then s.archive.userRounds user ++ [roundId]
          else s.archive.userRounds user := by
    refine ensures_forEach (fun rest s' => ∃ visited, visited ++ rest = participants ∧ ∃ index,
      s' = { s with archive := { s.archive with userArchivedRoundIds := index } } ∧
        ∀ user, index.getD user [] = if user ∈ visited then s.archive.userRounds user ++ [roundId]
          else s.archive.userRounds user) ?_ ⟨[], rfl, _, rfl, fun _ => by simp; rfl⟩
    rintro user rest _ ⟨visited, hvisited, index, rfl, hindex⟩
    simp only [ensures_bind, ensures_gets, ensures_pushBack, ensures_update]
    intro _
    refine ⟨visited ++ [user], by simpa using hvisited, _, rfl, fun other => ?_⟩
    have hnew : user ∉ visited := by
      rw [← hvisited, List.nodup_append] at hnodup
      exact fun hmem => hnodup.2.2 user hmem user (by simp) rfl
    rw [Store.getD_set, hindex]
    by_cases hsame : other = user
    · simp [hsame, hnew]
    · simp [hsame, hindex other]
  refine hloop.mono ?_
  rintro _ s' ⟨visited, hvisited, index, hs', hindex⟩
  rw [List.append_nil] at hvisited
  exact ⟨index, hs', hvisited ▸ hindex⟩

/-- The end of a round extends the index of its participants, and its summary carries its id. -/
structure Indexes (s : Storage A) (ending : Ending) (archive : Archive A) : Prop where
  index : ∀ user, archive.userRounds user =
    if user ∈ s.rounds.participants ending.round.roundId then
      s.archive.userRounds user ++ [ending.round.roundId]
    else s.archive.userRounds user
  named : ∀ summary, archive.archivedRound.get ending.round.roundId = some summary →
    summary.roundId = ending.round.roundId

/-- A call that ends a round indexes its participants. -/
theorem Call.ensures_indexes (hinorder : InOrder s) {ending : Ending}
    (hnodup : (s.rounds.participants ending.round.roundId).Nodup)
    (hending : call.ending s = some ending) :
    Ensures call.exec env s fun _ s' => Indexes s ending s'.archive := by
  have harchiving : Archiving env s ending fun log => Indexes s ending log.1 := by
    refine ⟨fun s₁ finalPrice confidence hlog _ => ?_,
      fun _ _ hpost => ⟨hpost.index, hpost.named⟩⟩
    have harchive : s₁.archive = s.archive := congrArg Prod.fst hlog
    simp only [archiveRound, ensures_bind, ensures_ledgerSequence]
    refine (indexParticipants_userRounds _ hnodup).mono ?_
    rintro _ _ ⟨index, rfl, hindex⟩
    simp only [ensures_update, ensures_gets, ensures_pushBack, enforceRetention_eq]
    rw [harchive] at hindex ⊢
    refine fun _ => ⟨hindex, fun summary hsummary => ?_⟩
    simp only [Storage.log, Archive.pruneAll, Store.get_removeAll, Store.get_set_self] at hsummary
    split at hsummary
    · cases hsummary
    · obtain rfl := Option.some.inj hsummary
      rfl
  exact Call.ensures_archiving hinorder hending harchiving

end Index

/-! ## What a step does for one user and one round -/

section Steps

variable [LinearOrder A] {env : Env A} {s s' : Storage A} {call : Call A} {host : Host A}
  {chain chain' : Chain A} {action : Action A} {earlier : List (Transition (Chain A) (Action A))}
  {transition : Transition (Chain A) (Action A)} {user : A} {roundId : ℕ}

/-- What an early cash-out of a position does. -/
structure CashesOut (env : Env A) (s s' : Storage A) (user : A) (round : Round)
    (position : UserPosition) (penaltyBps : ℕ) : Prop where
  active : s.rounds.activeRound = some round
  mode : round.mode = .upDown
  held : s.rounds.position.get (round.roundId, user) = some position
  penalty : penaltyBps ≤ 10000
  stake_pos : 0 < position.amount
  vault : s'.vault =
    (s.vault.creditAll env.ledger.sequence
      ([(user, position.amount - forfeitOf position.amount penaltyBps)].filter
        fun credit => 0 < credit.2)).collectFee
      s.control.settings.insuranceSplitBps (forfeitOf position.amount penaltyBps)
  rounds : s'.rounds = s.rounds.leave round user position
  outcomes : s'.userRoundOutcome = recordAll s.userRoundOutcome round.roundId
    [cashOutRecord user position (forfeitOf position.amount penaltyBps)]

/-- An early cash-out takes the user out of the active round and records an outcome. -/
theorem Effect.of_cashOut (heffect : Effect env s (.cashOutEarly user) s') :
    ∃ round position penaltyBps, CashesOut env s s' user round position penaltyBps := by
  generalize hcall : Call.cashOutEarly user = call at heffect
  cases heffect with
  | quiet _ _ _ _ _ hstays => exact absurd hcall.symm (hstays user)
  | mint | treasuryAddress | topUp | reclaim | reveal => cases hcall
  | payFee _ _ _ _ hcase | payFund _ _ _ _ hcase =>
      rcases hcase with h | ⟨_, _, h⟩ <;> rw [h] at hcall <;> cases hcall
  | claim _ _ _ hcase =>
      rcases hcase with ⟨_, h, -⟩ | h <;> rw [h] at hcall <;> cases hcall
  | openRound _ _ _ hcase =>
      rcases hcase with ⟨_, _, h⟩ | h <;> rw [h] at hcall <;> cases hcall
  | stake _ _ _ _ _ _ _ _ _ _ hplaced => exact absurd hcall.symm (hplaced.not_cashOut user)
  | cashOut round _ position penaltyBps _ hround hmode _ hposition hpenalty hstake hvault hrounds
      houtcomes =>
      cases hcall
      exact ⟨round, position, penaltyBps, hround, hmode, hposition, hpenalty, hstake, hvault,
        hrounds, houtcomes⟩
  | stage _ _ _ _ hprice =>
      rw [← hcall] at hprice
      cases hprice
  | ending _ _ _ hending =>
      rw [← hcall] at hending
      cases hending

/-- Outcomes are recorded by the calls that end a round and by early cash-outs only. -/
theorem Effect.same_outcomes (heffect : Effect env s call s') (hending : call.ending s = none)
    (hstays : ∀ user, call ≠ .cashOutEarly user) : s'.userRoundOutcome = s.userRoundOutcome := by
  cases heffect with
  | quiet _ _ hsame => exact hsame.outcomes
  | mint _ _ _ _ _ hsame | treasuryAddress _ _ _ _ _ _ _ _ hsame | payFee _ _ _ _ _ _ _ hsame
  | payFund _ _ _ _ _ _ _ hsame | topUp _ _ _ _ _ _ _ hsame
  | reclaim _ _ _ _ _ _ _ _ _ _ _ hsame | claim _ _ _ _ _ _ hsame => exact hsame.outcomes
  | openRound _ _ _ _ _ _ _ _ _ _ houtcomes | stake _ _ _ _ _ _ _ _ _ _ _ _ houtcomes
  | reveal _ _ _ _ _ _ _ _ _ _ _ _ houtcomes | stage _ _ _ _ _ _ _ _ _ _ _ houtcomes =>
      exact houtcomes
  | cashOut _ other => exact absurd rfl (hstays other)
  | ending _ ending _ hends =>
      rw [hending] at hends
      cases hends

/-- Whoever becomes a participant joins the active round while it is open. -/
theorem Effect.joins (hordered : s.rounds.Ordered) (heffect : Effect env s call s')
    (hnot : user ∉ s.rounds.participants roundId) (hmem : user ∈ s'.rounds.participants roundId) :
    ∃ round, s.rounds.activeRound = some round ∧ round.roundId = roundId ∧
      env.ledger.sequence < round.betEndLedger := by
  have hkept : ¬ SameBook s.rounds s'.rounds roundId := fun hbook => hnot (hbook.participants ▸ hmem)
  cases heffect with
  | quiet _ _ hsame => exact absurd (hsame.rounds ▸ .refl _ _) hkept
  | mint _ _ _ _ _ hsame | treasuryAddress _ _ _ _ _ _ _ _ hsame | payFee _ _ _ _ _ _ _ hsame
  | payFund _ _ _ _ _ _ _ hsame | topUp _ _ _ _ _ _ _ hsame
  | reclaim _ _ _ _ _ _ _ _ _ _ _ hsame | claim _ _ _ _ _ _ hsame =>
      exact absurd (hsame.rounds ▸ .refl _ _) hkept
  | openRound _ _ _ _ _ _ _ _ _ hrounds | stage _ _ _ _ _ _ _ _ _ _ hrounds
  | reveal _ _ _ _ _ _ _ _ _ _ _ hrounds =>
      rw [hrounds] at hmem
      exact absurd hmem hnot
  | stake _ round other amount _ hround _ hopen hamount _ hplaced =>
      have hjoined := hplaced.joined (hordered.active_represented hround) hround hamount.1
      refine ⟨round, hround, ?_, hopen⟩
      by_contra hid
      exact hkept (hjoined.other roundId (Ne.symm hid))
  | cashOut round other position _ _ _ _ _ _ _ _ _ hrounds =>
      by_cases hid : roundId = round.roundId
      · subst hid
        rw [hrounds, leave_participants] at hmem
        exact absurd (List.mem_of_mem_filter hmem) hnot
      · exact absurd (hrounds ▸ leave_sameBook hid) hkept
  | ending _ ending _ hending hends =>
      by_cases hid : roundId = ending.round.roundId
      · subst hid
        rw [(hends.over hordered hending).no_book.participants] at hmem
        cases hmem
      · exact absurd (hends.rounds ▸ roundsAfter_other ending hid) hkept

/-! ## The records of a user for a round -/

/-- The user cashed out of the round. -/
def Left (trace : List (Transition (Chain A) (Action A))) (user : A) (roundId : ℕ) : Prop :=
  ∃ transition ∈ trace, leaver transition roundId = some user

omit [LinearOrder A] in
theorem left_concat : Left (earlier ++ [transition]) user roundId ↔
    Left earlier user roundId ∨ leaver transition roundId = some user := by
  simp [Left, or_and_right, exists_or]

/-- What is stored about a user and a round: there is an outcome if and only if the round is in the
user's index or the user cashed out of it, and who cashed out is neither a participant nor indexed. -/
structure Attests (trace : List (Transition (Chain A) (Action A))) (s : Storage A) (user : A)
    (roundId : ℕ) : Prop where
  recorded : s.userRoundOutcome.get (roundId, user) ≠ none ↔
    roundId ∈ s.archive.userRounds user ∨ Left trace user roundId
  left : Left trace user roundId →
    user ∉ s.rounds.participants roundId ∧ roundId ∉ s.archive.userRounds user
  listed : roundId ∈ s.archive.userRounds user → s.rounds.Over roundId
  once : (s.archive.userRounds user).count roundId ≤ 1

omit [LinearOrder A] in
/-- A step that records nothing for the user and the round keeps what is stored, when who cashed out
stays out. -/
theorem Attests.kept (hattests : Attests earlier s user roundId)
    (houtcome : s'.userRoundOutcome.get (roundId, user) = s.userRoundOutcome.get (roundId, user))
    (hindex : (s'.archive.userRounds user).count roundId =
      (s.archive.userRounds user).count roundId)
    (hstays : leaver transition roundId ≠ some user)
    (hover : s.rounds.Over roundId → s'.rounds.Over roundId)
    (hout : Left earlier user roundId → user ∉ s'.rounds.participants roundId) :
    Attests (earlier ++ [transition]) s' user roundId := by
  have hleft : Left (earlier ++ [transition]) user roundId ↔ Left earlier user roundId := by
    rw [left_concat]
    exact or_iff_left hstays
  have hmem : roundId ∈ s'.archive.userRounds user ↔ roundId ∈ s.archive.userRounds user := by
    rw [← List.count_pos_iff, ← List.count_pos_iff, hindex]
  constructor
  · rw [houtcome, hmem, hleft]
    exact hattests.recorded
  · rw [hleft, hmem]
    exact fun hgone => ⟨hout hgone, (hattests.left hgone).2⟩
  · rw [hmem]
    exact fun hlisted => hover (hattests.listed hlisted)
  · rw [hindex]
    exact hattests.once

/-- Who cashed out of a round stays out: its betting is closed. -/
theorem Attests.stays_out {signers : List A} (hattests : Attests earlier chain.storage user roundId)
    (hhealthy : chain.Healthy) (hstep : Step host chain (.invoke signers call) chain')
    (hgone : Left earlier user roundId) : user ∉ chain'.storage.rounds.participants roundId := by
  intro hmem
  obtain ⟨round, hround, rfl, hopen⟩ := (hhealthy.effect hstep).joins
    (Storage.Healthy.ordered hhealthy) (hattests.left hgone).1 hmem
  obtain ⟨stored, hstored⟩ := Option.ne_none_iff_exists'.mp (hattests.recorded.mpr (.inr hgone))
  have hclosed := hhealthy.recorded.closed round hround user stored hstored
  exact absurd hopen (not_lt.mpr hclosed)

/-- The end of a round records and indexes its participants. -/
theorem Step.attests_ended {signers : List A} {ending : Ending} (hhealthy : chain.Healthy)
    (hstep : Step host chain (.invoke signers call) chain')
    (hending : call.ending chain.storage = some ending)
    (hattests : Attests earlier chain.storage user roundId) :
    Attests (earlier ++ [⟨chain, .invoke signers call, chain'⟩]) chain'.storage user roundId := by
  have hordered := Storage.Healthy.ordered hhealthy
  have hinorder := Storage.Healthy.inOrder hhealthy chain.ledger.sequence_lt
  have hlive := (Call.endsBy hending).live hordered
  have hbook := (hordered.live _ _ hlive).2
  have hends := Chain.Healthy.ends hhealthy hstep hending
  have hindexes := hstep.ensured (Call.ensures_indexes hinorder hbook.nodup hending)
  obtain ⟨hnotOver, hover⟩ := Chain.Healthy.ends_over hhealthy hstep hending
  have hnobody : leaver ⟨chain, .invoke signers call, chain'⟩ roundId = none :=
    leaver_eq_none fun user hcall => by rw [hcall] at hending; cases hending
  by_cases hid : roundId = ending.round.roundId
  · subst hid
    have hunlisted : ending.round.roundId ∉ chain.storage.archive.userRounds user :=
      fun hlisted => hnotOver (hattests.listed hlisted)
    by_cases hmem : user ∈ chain.storage.rounds.participants ending.round.roundId
    · have hstayed : ¬ Left (earlier ++ [⟨chain, .invoke signers call, chain'⟩]) user
          ending.round.roundId := by
        rw [left_concat, hnobody]
        rintro (hgone | hleaves)
        · exact (hattests.left hgone).1 hmem
        · cases hleaves
      have hindex := hindexes.index user
      rw [if_pos hmem] at hindex
      have hlisted : ending.round.roundId ∈ chain'.storage.archive.userRounds user := by
        rw [hindex]
        simp
      have hnew := hhealthy.recorded.unrecorded _ _ hlive
      obtain ⟨record, hrecord, huser⟩ := List.mem_map.mp
        ((mem_records_iff hbook hinorder.fee_capped user).mpr hmem)
      have hstored := hends.outcome_of_mem hbook hinorder.fee_capped hnew hrecord
      rw [huser] at hstored
      refine ⟨⟨fun _ => .inl hlisted, fun _ => by simp [hstored]⟩,
        fun hgone => absurd hgone hstayed, fun _ => hover, ?_⟩
      rw [hindex, List.count_append, List.count_eq_zero_of_not_mem hunlisted]
      simp
    · have hindex := hindexes.index user
      rw [if_neg hmem] at hindex
      refine hattests.kept ?_ (by rw [hindex]) (by rw [hnobody]; nofun) (fun _ => hover) ?_
      · rw [hends.outcomes, recordAll_get_of_not_mem]
        intro record hrecord hkey
        obtain rfl := (Prod.mk.inj hkey).2
        exact hmem ((mem_records_iff hbook hinorder.fee_capped _).mp (List.mem_map_of_mem hrecord))
      · rw [hover.no_book.participants]
        exact fun _ => List.not_mem_nil
  · refine hattests.kept ?_ ?_ (by rw [hnobody]; nofun)
      (Chain.Healthy.over_of_step hhealthy hstep) fun hgone => ?_
    · rw [hends.outcomes, recordAll_get_of_not_mem]
      exact fun record _ hkey => hid (Prod.mk.inj hkey).1
    · rw [hindexes.index]
      split
      · rw [List.count_append, List.count_singleton, if_neg (by simpa using Ne.symm hid), add_zero]
      · rfl
    · rw [hends.rounds, (roundsAfter_other ending hid).participants]
      exact (hattests.left hgone).1

/-- An early cash-out records who leaves, and is not indexed. -/
theorem Step.attests_cashOut {signers : List A} {other : A} (hhealthy : chain.Healthy)
    (hstep : Step host chain (.invoke signers (.cashOutEarly other)) chain')
    (hattests : Attests earlier chain.storage user roundId) :
    Attests (earlier ++ [⟨chain, .invoke signers (.cashOutEarly other), chain'⟩]) chain'.storage
      user roundId := by
  have heffect := hhealthy.effect hstep
  obtain ⟨round, position, penaltyBps, hcashes⟩ := heffect.of_cashOut
  have hround := hcashes.active
  have hrounds := hcashes.rounds
  have houtcomes := hcashes.outcomes
  have harchive : chain'.storage.archive = chain.storage.archive :=
    (hstep.ensured (Call.cashOutEarly other).ensures_archive).kept rfl
  by_cases hleaves : roundId = round.roundId ∧ user = other
  · obtain ⟨rfl, rfl⟩ := hleaves
    have hunlisted : round.roundId ∉ chain.storage.archive.userRounds user :=
      fun hlisted => (hattests.listed hlisted).not_live round (.inl ⟨hround, rfl⟩)
    have hgone : Left (earlier ++ [⟨chain, .invoke signers (.cashOutEarly user), chain'⟩]) user
        round.roundId := left_concat.mpr (.inr (if_pos (by simp [hround])))
    have hstored : chain'.storage.userRoundOutcome.get (round.roundId, user) ≠ none := by
      rw [houtcomes, recordAll, List.foldl_cons, List.foldl_nil, recordOutcome]
      split
      · next hhas => simpa [Option.ne_none_iff_exists', cashOutRecord, upDownOutcome] using hhas
      · simp [cashOutRecord, upDownOutcome]
    rw [← harchive] at hunlisted
    refine ⟨⟨fun _ => .inr hgone, fun _ => hstored⟩, fun _ => ⟨?_, hunlisted⟩,
      fun hlisted => absurd hlisted hunlisted, ?_⟩
    · rw [hrounds, leave_participants]
      simp
    · rw [List.count_eq_zero_of_not_mem hunlisted]
      exact Nat.zero_le _
  · refine hattests.kept ?_ (by rw [harchive]) ?_ (Chain.Healthy.over_of_step hhealthy hstep)
      fun hgone hmem => ?_
    · rw [houtcomes, recordAll_get_of_not_mem]
      intro stored hstored hkey
      obtain rfl := List.mem_singleton.mp hstored
      obtain ⟨hid, hwho⟩ := Prod.mk.inj hkey
      exact hleaves ⟨hid, hwho⟩
    · intro hleaver
      simp only [leaver, hround, Option.map_some, Option.some.injEq] at hleaver
      split at hleaver
      · next hid => exact hleaves ⟨hid.symm, (Option.some.inj hleaver).symm⟩
      · cases hleaver
    · exact hattests.stays_out hhealthy hstep hgone hmem

/-- Every step keeps what is stored about a user and a round. -/
theorem Step.attests (hstep : Step host chain action chain') (hhealthy : chain.Healthy)
    (hattests : Attests earlier chain.storage user roundId) :
    Attests (earlier ++ [⟨chain, action, chain'⟩]) chain'.storage user roundId := by
  obtain ⟨signers, call, rfl⟩ | ⟨hidle, meter, hsame⟩ := hstep.invokes_or_idles
  · by_cases hcash : ∃ other, call = .cashOutEarly other
    · obtain ⟨other, rfl⟩ := hcash
      exact hstep.attests_cashOut hhealthy hattests
    · have hstays : ∀ other, call ≠ .cashOutEarly other := fun other h => hcash ⟨other, h⟩
      cases hending : call.ending chain.storage with
      | some ending => exact hstep.attests_ended hhealthy hending hattests
      | none =>
          have harchive := (hstep.ensured call.ensures_archive).kept hending
          have houtcomes := (hhealthy.effect hstep).same_outcomes hending hstays
          refine hattests.kept (by rw [houtcomes]) (by rw [harchive]) ?_
            (Chain.Healthy.over_of_step hhealthy hstep) (hattests.stays_out hhealthy hstep)
          rw [leaver_eq_none fun other h => absurd h (hstays other)]
          nofun
  · refine hattests.kept (by rw [hsame]) (by rw [hsame]) ?_
      (Chain.Healthy.over_of_step hhealthy hstep) fun hgone => ?_
    · cases action with
      | invoke signers call => exact absurd rfl (hidle signers call)
      | closeLedger | expire => nofun
    · rw [hsame]
      exact (hattests.left hgone).1

variable {trace : List (Transition (Chain A) (Action A))}

/-- What is stored about a user and a round, in every history. -/
theorem History.attests (hhistory : History host trace chain) (user : A) (roundId : ℕ) :
    Attests trace chain.storage user roundId := by
  obtain ⟨ledger, hrun⟩ := hhistory
  refine hrun.invariant_of_trace (fun trace chain => Attests trace chain.storage user roundId) ?_
    fun earlier transition hearlier hstep hattests =>
      hstep.attests (History.healthy ⟨ledger, hearlier⟩) hattests
  have hindex : (Chain.genesis (A := A) ledger).storage.archive.userRounds user = [] := rfl
  refine ⟨?_, ?_, ?_, ?_⟩
  · rw [hindex]
    simp [Left, Chain.genesis, Storage.empty]
  · rintro ⟨_, hmem, -⟩
    cases hmem
  · simp [hindex]
  · simp [hindex]

/-- The archived summaries carry their ids. -/
theorem Reachable.named (hreachable : Reachable host chain) : chain.storage.archive.Named := by
  obtain ⟨trace, ledger, hrun⟩ := hreachable
  refine (hrun.invariant (fun chain => chain.Healthy ∧ chain.storage.archive.Named)
    ⟨healthy_empty ledger.sequence, fun _ _ hnone => by cases hnone⟩ ?_).2
  rintro ⟨before, action, after⟩ _ hstep ⟨hhealthy, hnamed⟩
  refine ⟨hstep.healthy hhealthy, fun roundId summary hsummary => ?_⟩
  rcases hstep.archive with ⟨signers, call, ending, rfl, hending, harchives⟩ | ⟨-, hsame⟩
  · have hordered := Storage.Healthy.ordered hhealthy
    have hbook := (hordered.live _ _ ((Call.endsBy hending).live hordered)).2
    have hindexes := hstep.ensured (Call.ensures_indexes
      (Storage.Healthy.inOrder hhealthy before.ledger.sequence_lt) hbook.nodup hending)
    by_cases hid : roundId = ending.round.roundId
    · subst hid
      exact hindexes.named summary hsummary
    · obtain ⟨added, hrecords⟩ := harchives.records
      rw [hrecords, Store.get_removeAll, Store.get_set_of_ne _ _ hid] at hsummary
      split at hsummary
      · cases hsummary
      · exact hnamed roundId summary hsummary
  · rw [show after.storage.archive = before.storage.archive from hsame] at hsummary
    exact hnamed roundId summary hsummary

/-- On an archived round the two queries agree about exactly those who did not cash out of it. -/
theorem participation_agrees_iff (hhistory : History host trace chain)
    (harchived : chain.storage.archive.archivedRound.get roundId ≠ none) :
    ParticipationAgrees chain.storage user roundId ↔ ¬ Left trace user roundId := by
  have hattests := hhistory.attests user roundId
  have hnamed := Reachable.named ⟨trace, hhistory⟩
  have hhas : chain.storage.archive.archivedRound.has roundId = true := by
    rw [Store.has_iff]
    exact Option.ne_none_iff_exists'.mp harchived
  have hrecord : (getUserArchivedParticipation chain.storage user roundId).isSome ↔
      roundId ∈ chain.storage.archive.userRounds user ∨ Left trace user roundId := by
    rw [← hattests.recorded, getUserArchivedParticipation, if_pos hhas, Option.isSome_iff_ne_none]
  have hcount := fun limit hpos hmax =>
    @archiveHistory_count A limit chain.storage user hnamed roundId harchived hpos hmax
  have hlisted : ∀ limit, 0 < limit → limit ≤ maxPageSize →
      (roundId ∈ (archiveHistory chain.storage user limit).map (·.roundId) ↔
        roundId ∈ chain.storage.archive.userRounds user) := by
    intro limit hpos hmax
    rw [← List.count_pos_iff, hcount limit hpos hmax, List.count_pos_iff]
  constructor
  · intro hagrees hgone
    have hfound := (hagrees.listed 1 (by decide) (by decide)).mp (hrecord.mpr (.inr hgone))
    exact (hattests.left hgone).2 ((hlisted 1 (by decide) (by decide)).mp hfound)
  · intro hstayed
    refine ⟨fun limit hpos hmax => ?_, fun limit hpos hmax => ?_⟩
    · rw [hrecord, hlisted limit hpos hmax]
      exact or_iff_left hstayed
    · rw [hcount limit hpos hmax]
      exact hattests.once

end Steps

/-- User 5 cashes out of a round that is then settled. -/
def cashedOutRound : List (Action ℕ) := trialSetup ++ [
  .invoke [1] (.control (.setEarlyCashoutBps (some 1000))),
  .invoke [1] (.createRound 100 (some 0)),
  .invoke [3] (.placeBet 3 70 .up),
  .invoke [4] (.placeBet 4 30 .down),
  .invoke [5] (.placeBet 5 50 .up),
  .closeLedger (ledgerAt 8),
  .invoke [5] (.cashOutEarly 5),
  .closeLedger (ledgerAt 20),
  .invoke [2] (.control (.updateOracleHeartbeat 0)),
  .invoke [2] (.resolveRound (trialPayload 1 101 100))]

/-- The queries agree on user 3, who stays in the round. -/
theorem staying_user_agrees : ∃ chain : Chain ℕ,
    (getUserArchivedParticipation chain.storage 3 1).isSome = true ∧
      ParticipationAgrees chain.storage 3 1 := by
  obtain ⟨trace, chain, hhistory, -, hfits, hend⟩ := exists_trial_trace cashedOutRound
    (fun transition => decide (leaver transition 1 ≠ some 3))
    (fun chain => (chain.storage.archive.archivedRound.get 1).isSome &&
      (getUserArchivedParticipation chain.storage 3 1).isSome) (by decide +kernel)
  rw [Bool.and_eq_true] at hend
  have harchived : chain.storage.archive.archivedRound.get 1 ≠ none :=
    Option.isSome_iff_ne_none.mp hend.1
  refine ⟨chain, hend.2, (participation_agrees_iff hhistory harchived).mpr ?_⟩
  rintro ⟨transition, hmem, hleaves⟩
  exact of_decide_eq_true (hfits transition hmem) hleaves

/-- User 5 has a participation record of the archived round and an empty history. -/
theorem cashed_out_user_unlisted : ¬ ∀ (trace : List (Transition (Chain ℕ) (Action ℕ))) chain,
    History trialHost trace chain → ∀ user roundId,
      chain.storage.archive.archivedRound.get roundId ≠ none →
      ParticipationAgrees chain.storage user roundId := by
  intro hclaim
  obtain ⟨trace, chain, hhistory, -, hend⟩ := exists_trial_history cashedOutRound
    (fun chain => (chain.storage.archive.archivedRound.get 1).isSome &&
      ((getUserArchivedParticipation chain.storage 5 1).isSome &&
        decide (archiveHistory chain.storage 5 100 = []))) (by decide +kernel)
  rw [Bool.and_eq_true, Bool.and_eq_true, decide_eq_true_eq] at hend
  obtain ⟨harchived, hrecord, hempty⟩ := hend
  have hagrees := hclaim trace chain hhistory 5 1 (Option.isSome_iff_ne_none.mp harchived)
  have hlisted := (hagrees.listed 100 (by decide) le_rfl).mp hrecord
  rw [hempty] at hlisted
  cases hlisted

end XelmaMarket
