import XelmaMarket.Summaries
import XelmaMarket.Timing

/-!
# The status of a round

The status of a round is derived from the active round, the archive and the cancellation markers.
It goes through the stages of the round in order, and is unknown only after the record of the round
was pruned, in the histories that stage no round: a staged round is in none of the three.
-/

namespace XelmaMarket

variable {A : Type}

/-! ## The query -/

inductive RoundPhase where
  | betting
  | running
  | resolvable
  deriving DecidableEq, Repr

inductive RoundStatus where
  | unknown
  | betting
  | running
  | awaitingResolve
  | resolved
  | cancelled
  | fallbackRefund
  | voided
  deriving DecidableEq, Repr

/-- The phase a round is in at a ledger. -/
def deriveRoundPhase (ledgerSequence : ℕ) (round : Round) : RoundPhase :=
  if ledgerSequence < round.betEndLedger then
    .betting
  else if ledgerSequence < round.endLedger then
    .running
  else
    .resolvable

/-- The status of an active round. -/
def RoundPhase.roundStatus : RoundPhase → RoundStatus
  | .betting => .betting
  | .running => .running
  | .resolvable => .awaitingResolve

/-- The status of an archived round. -/
def RoundArchiveStatus.roundStatus : RoundArchiveStatus → RoundStatus
  | .resolved => .resolved
  | .cancelled => .cancelled
  | .fallbackRefund => .fallbackRefund
  | .voided => .voided

/-- Whether a round is marked as cancelled. -/
def Archive.isRoundCancelled (archive : Archive A) (roundId : ℕ) : Bool :=
  (archive.cancelledRound.get roundId).getD false

/-- The status of a round that is not active. -/
def Archive.roundStatus (archive : Archive A) (roundId : ℕ) : RoundStatus :=
  match archive.archivedRound.get roundId with
  | some summary => summary.status.roundStatus
  | none => if archive.isRoundCancelled roundId then .cancelled else .unknown

/-- The status of a round by its id. -/
def getRoundStatus (ledgerSequence : ℕ) (s : Storage A) (roundId : ℕ) : RoundStatus :=
  match s.rounds.activeRound with
  | some activeRound =>
      if activeRound.roundId = roundId then
        (deriveRoundPhase ledgerSequence activeRound).roundStatus
      else
        s.archive.roundStatus roundId
  | none => s.archive.roundStatus roundId

/-! ## The stages -/

/-- The stages of a round: betting, running, waiting for its price, ended. -/
def RoundStatus.stage : RoundStatus → ℕ
  | .unknown => 0
  | .betting => 1
  | .running => 2
  | .awaitingResolve => 3
  | .resolved | .cancelled | .fallbackRefund | .voided => 4

/-- A status of an ended round. -/
def RoundStatus.IsTerminal (status : RoundStatus) : Prop :=
  status.stage = 4

theorem RoundPhase.stage_pos (phase : RoundPhase) :
    0 < phase.roundStatus.stage ∧ phase.roundStatus.stage < 4 := by
  cases phase <;> decide

theorem RoundArchiveStatus.isTerminal (status : RoundArchiveStatus) :
    status.roundStatus.IsTerminal := by
  cases status <;> rfl

/-- An active round stays in its phase or goes on to a later one. -/
theorem deriveRoundPhase_later {ledger ledger' : ℕ} {round round' : Round}
    (hledger : ledger ≤ ledger') (hterms : round.SameTerms round') :
    deriveRoundPhase ledger' round' = deriveRoundPhase ledger round ∨
      (deriveRoundPhase ledger round).roundStatus.stage <
        (deriveRoundPhase ledger' round').roundStatus.stage := by
  rw [hterms]
  simp only [deriveRoundPhase]
  split_ifs <;> first | omega | simp [RoundPhase.roundStatus, RoundStatus.stage]

variable {s : Storage A} {ledger roundId : ℕ}

/-- The active round has the status of its phase. -/
theorem getRoundStatus_of_active {round : Round} (hactive : s.rounds.activeRound = some round) :
    getRoundStatus ledger s round.roundId = (deriveRoundPhase ledger round).roundStatus := by
  simp [getRoundStatus, hactive]

/-- Every other round has the status the archive gives it. -/
theorem getRoundStatus_of_inactive
    (hinactive : ∀ round, s.rounds.activeRound = some round → round.roundId ≠ roundId) :
    getRoundStatus ledger s roundId = s.archive.roundStatus roundId := by
  cases hactive : s.rounds.activeRound with
  | none => simp [getRoundStatus, hactive]
  | some round => simp [getRoundStatus, hactive, hinactive round hactive]

/-- A record gives a round a terminal status. -/
theorem Archive.isTerminal_of_record {archive : Archive A}
    (hstored : archive.archivedRound.get roundId ≠ none) :
    (archive.roundStatus roundId).IsTerminal := by
  obtain ⟨summary, hsummary⟩ := Option.ne_none_iff_exists'.mp hstored
  simp only [Archive.roundStatus, hsummary]
  exact summary.status.isTerminal

/-! ## How the archive changes a status -/

section Archives

variable {limit ended : ℕ} {archive archive' : Archive A}

/-- The loop does not prune the newest round. -/
theorem last_not_pruned {ids : List ℕ} (hlimit : 1 ≤ limit)
    (hnodup : (ids ++ [ended]).Nodup) : ended ∉ prunedIds limit (ids ++ [ended]) := by
  generalize hlist : ids ++ [ended] = list at hnodup ⊢
  fun_induction prunedIds limit list generalizing ids with
  | case1 => simp
  | case2 oldest hfull => omega
  | case3 => simp
  | case4 oldest second rest hfull ih =>
      cases ids with
      | nil => simp at hlist
      | cons first later =>
          cases later with
          | nil =>
              simp only [List.cons_append, List.nil_append, List.cons.injEq] at hlist
              obtain ⟨rfl, rfl, rfl⟩ := hlist
              simp only [List.nodup_cons, List.mem_singleton] at hnodup
              simp [prunedIds, Ne.symm hnodup.1]
          | cons next others =>
              simp only [List.cons_append, List.cons.injEq] at hlist
              obtain ⟨rfl, rfl, hrest⟩ := hlist
              obtain ⟨hfirst, -, hothers⟩ := by simpa only [List.nodup_cons] using hnodup
              intro hmem
              rcases List.mem_cons.mp hmem with rfl | hpruned
              · exact hfirst (List.mem_cons_of_mem _ (hrest ▸ List.mem_append_right _ (by simp)))
              · exact ih hrest hothers hpruned
  | case5 => simp

/-- The round that is archived has a record. -/
theorem Archives.stored_new (harchives : Archives limit ended archive archive')
    (hlimit : 1 ≤ limit) (hnodup : (archive.ids ++ [ended]).Nodup) :
    archive'.archivedRound.get ended ≠ none :=
  harchives.stored (last_not_pruned hlimit hnodup) (.inl rfl)

/-- Archiving a round leaves the status of another one, or prunes its record. -/
theorem Archives.roundStatus_other (harchives : Archives limit ended archive archive')
    (hstored : ∀ id ∈ archive.ids, archive.archivedRound.get id ≠ none) (hother : roundId ≠ ended) :
    archive'.roundStatus roundId = archive.roundStatus roundId ∨
      archive.archivedRound.get roundId ≠ none ∧ archive'.archivedRound.get roundId = none ∧
        archive'.roundStatus roundId = .unknown := by
  obtain ⟨summary, hrecords⟩ := harchives.records
  have hrecord : archive'.archivedRound.get roundId =
      if roundId ∈ prunedIds limit (archive.ids ++ [ended]) then none
      else archive.archivedRound.get roundId := by
    rw [hrecords, Store.get_removeAll, Store.get_set_of_ne _ _ hother]
  have hmarker : archive'.cancelledRound.get roundId =
      if roundId ∈ prunedIds limit (archive.ids ++ [ended]) then none
      else archive.cancelledRound.get roundId := by
    rw [harchives.markers roundId hother, Store.get_removeAll]
  by_cases hpruned : roundId ∈ prunedIds limit (archive.ids ++ [ended])
  · right
    rw [if_pos hpruned] at hrecord hmarker
    have hlisted : roundId ∈ archive.ids := by
      simpa [hother] using prunedIds_subset _ _ hpruned
    exact ⟨hstored roundId hlisted, hrecord, by
      simp [Archive.roundStatus, hrecord, Archive.isRoundCancelled, hmarker]⟩
  · left
    rw [if_neg hpruned] at hrecord hmarker
    rw [Archive.roundStatus, Archive.roundStatus, hrecord, Archive.isRoundCancelled,
      Archive.isRoundCancelled, hmarker]

end Archives

/-! ## How a step changes a status -/

/-- A round was opened under the id. -/
def Rounds.Created (rounds : Rounds A) (roundId : ℕ) : Prop :=
  0 < roundId ∧ roundId ≤ rounds.lastRoundId.getD 0

/-- The status of a round by its id, now. -/
def Chain.roundStatus (chain : Chain A) (roundId : ℕ) : RoundStatus :=
  getRoundStatus chain.ledger.sequence chain.storage roundId

/-- A transition deletes the record of a round. -/
def Prunes (transition : Transition (Chain A) (Action A)) (roundId : ℕ) : Prop :=
  transition.before.storage.archive.archivedRound.get roundId ≠ none ∧
    transition.after.storage.archive.archivedRound.get roundId = none

/-- How the status of a created round moves: it stays, it goes on to a later stage, or an ended
round becomes unknown as its record is deleted. -/
inductive Advances (transition : Transition (Chain A) (Action A)) (roundId : ℕ) : Prop where
  | kept (hsame : transition.after.roundStatus roundId = transition.before.roundStatus roundId)
  | onward (hknown : transition.before.roundStatus roundId ≠ .unknown)
      (hlater : (transition.before.roundStatus roundId).stage <
        (transition.after.roundStatus roundId).stage)
  | pruned (hterminal : (transition.before.roundStatus roundId).IsTerminal)
      (hunknown : transition.after.roundStatus roundId = .unknown)
      (hprunes : Prunes transition roundId)

/-- A round is opened for betting, and from then on its status advances. -/
structure StatusStep (transition : Transition (Chain A) (Action A)) : Prop where
  opened : ∀ roundId, ¬ transition.before.storage.rounds.Created roundId →
    transition.after.storage.rounds.Created roundId →
    transition.after.roundStatus roundId = .betting
  advances : ∀ roundId ≤ transition.before.storage.rounds.lastRoundId.getD 0,
    Advances transition roundId

/-- The status of every round follows its life: every transition advances it, it is unknown only
before the round is created or after its record was deleted, and never while stakes are held. -/
structure StatusLaw (trace : List (Transition (Chain A) (Action A))) (chain : Chain A) :
    Prop where
  steps : ∀ transition ∈ trace, StatusStep transition
  unknown : ∀ roundId, chain.storage.rounds.Created roundId →
    chain.roundStatus roundId = .unknown → ∃ transition ∈ trace, Prunes transition roundId
  escrowed : ∀ roundId, 0 < chain.storage.rounds.heldIn roundId →
    chain.roundStatus roundId ≠ .unknown

section Steps

variable [LinearOrder A] {host : Host A} {chain chain' : Chain A} {action : Action A}
  {trace : List (Transition (Chain A) (Action A))}

/-- What has a record or a marker is over. -/
theorem Reachable.archived_over (hreachable : Reachable host chain) (roundId : ℕ)
    (harchived : chain.storage.archive.archivedRound.get roundId ≠ none ∨
      chain.storage.archive.cancelledRound.get roundId ≠ none) :
    chain.storage.rounds.Over roundId := by
  obtain ⟨trace, ledger, hrun⟩ := hreachable
  revert roundId
  refine (hrun.invariant (fun chain => chain.Healthy ∧ ∀ roundId,
    chain.storage.archive.archivedRound.get roundId ≠ none ∨
      chain.storage.archive.cancelledRound.get roundId ≠ none →
    chain.storage.rounds.Over roundId) ⟨healthy_empty ledger.sequence, ?_⟩ ?_).2
  · rintro roundId (hnone | hnone) <;> exact absurd rfl hnone
  rintro ⟨before, action, after⟩ _ hstep ⟨hhealthy, hover⟩
  refine ⟨hstep.healthy hhealthy, fun roundId harchived => ?_⟩
  rcases hstep.archive with ⟨signers, call, ending, rfl, hending, harchives⟩ | ⟨-, hsame⟩
  · by_cases hended : roundId = ending.round.roundId
    · rw [hended]
      exact (Chain.Healthy.ends_over hhealthy hstep hending).2
    · refine Chain.Healthy.over_of_step hhealthy hstep (hover roundId ?_)
      obtain ⟨summary, hrecords⟩ := harchives.records
      rw [hrecords, harchives.markers roundId hended, Store.get_removeAll, Store.get_removeAll,
        Store.get_set_of_ne _ _ hended] at harchived
      split at harchived
      · exact absurd harchived (by simp)
      · exact harchived
  · rw [show after.storage.archive = before.storage.archive from hsame] at harchived
    exact Chain.Healthy.over_of_step hhealthy hstep (hover roundId harchived)

/-- A step creates no round, or it opens the next one at the current ledger. -/
theorem Step.created_cases (hstep : Step host chain action chain') (hhealthy : chain.Healthy) :
    chain'.storage.rounds.lastRoundId.getD 0 = chain.storage.rounds.lastRoundId.getD 0 ∨
      ∃ round, round.roundId = chain.storage.rounds.lastRoundId.getD 0 + 1 ∧
        round.startLedger = chain'.ledger.sequence ∧
        chain'.storage.rounds = chain.storage.rounds.openRound round := by
  obtain ⟨signers, call, rfl⟩ | ⟨-, meter, hsame⟩ := hstep.invokes_or_idles
  · rw [hstep.ledger_eq]
    exact (hhealthy.effect hstep).last_cases (Storage.Healthy.ordered hhealthy)
  · exact .inl (by rw [hsame])

/-- A round that is created is open for betting. -/
theorem Step.opened_betting (hstep : Step host chain action chain') (hhealthy : chain.Healthy)
    (htimed : chain'.Timed) {roundId : ℕ} (hnew : ¬ chain.storage.rounds.Created roundId)
    (hcreated : chain'.storage.rounds.Created roundId) :
    chain'.roundStatus roundId = .betting ∧
      ∃ round, chain'.storage.rounds.activeRound = some round ∧ round.roundId = roundId := by
  obtain ⟨hpos, hle⟩ := hcreated
  have hlater : chain.storage.rounds.lastRoundId.getD 0 < roundId := by
    by_contra hbefore
    exact hnew ⟨hpos, not_lt.mp hbefore⟩
  rcases hstep.created_cases hhealthy with hsame | ⟨round, hid, hstart, hrounds⟩
  · omega
  · have hactive : chain'.storage.rounds.activeRound = some round := by
      rw [hrounds]
      rfl
    have hlast : chain'.storage.rounds.lastRoundId.getD 0 = round.roundId := by
      rw [hrounds]
      rfl
    obtain rfl : round.roundId = roundId := by omega
    refine ⟨?_, round, hactive, rfl⟩
    have hwindows := htimed.rounds.windows round.roundId round (.inl ⟨hactive, rfl⟩)
    have hopen : chain'.ledger.sequence < round.betEndLedger := by
      unfold Round.WindowsOrdered at hwindows
      omega
    rw [Chain.roundStatus, getRoundStatus_of_active hactive, deriveRoundPhase, if_pos hopen]
    rfl

omit [LinearOrder A] in
/-- A round that stays active advances with the ledger. -/
theorem advances_of_active {transition : Transition (Chain A) (Action A)} {round round' : Round}
    (hledger : transition.before.ledger.sequence ≤ transition.after.ledger.sequence)
    (hactive : transition.before.storage.rounds.activeRound = some round)
    (hactive' : transition.after.storage.rounds.activeRound = some round')
    (hterms : round.SameTerms round') : Advances transition round.roundId := by
  have hbefore : transition.before.roundStatus round.roundId =
      (deriveRoundPhase transition.before.ledger.sequence round).roundStatus :=
    getRoundStatus_of_active hactive
  have hafter : transition.after.roundStatus round.roundId =
      (deriveRoundPhase transition.after.ledger.sequence round').roundStatus := by
    rw [← getRoundStatus_of_active hactive', show round'.roundId = round.roundId by rw [hterms]]
    rfl
  rcases deriveRoundPhase_later hledger hterms with hsame | hlater
  · exact .kept (by rw [hbefore, hafter, hsame])
  · refine .onward (fun hunknown => ?_) (by rw [hbefore, hafter]; exact hlater)
    have hpos := (deriveRoundPhase transition.before.ledger.sequence round).stage_pos.1
    rw [← hbefore, hunknown] at hpos
    exact absurd hpos (by decide)

omit [LinearOrder A] in
/-- A round that ends advances to a terminal status. -/
theorem advances_of_ended {transition : Transition (Chain A) (Action A)} {round : Round}
    (hactive : transition.before.storage.rounds.activeRound = some round)
    (hover : transition.after.storage.rounds.Over round.roundId)
    (hstored : transition.after.storage.archive.archivedRound.get round.roundId ≠ none) :
    Advances transition round.roundId := by
  have hbefore : transition.before.roundStatus round.roundId =
      (deriveRoundPhase transition.before.ledger.sequence round).roundStatus :=
    getRoundStatus_of_active hactive
  have hafter : (transition.after.roundStatus round.roundId).stage = 4 := by
    rw [Chain.roundStatus, getRoundStatus_of_inactive fun active hround hid =>
      hover.not_live active (.inl ⟨hround, hid⟩)]
    exact Archive.isTerminal_of_record hstored
  obtain ⟨hpos, hless⟩ := (deriveRoundPhase transition.before.ledger.sequence round).stage_pos
  rw [← hbefore] at hpos hless
  refine .onward (fun hunknown => ?_) (by omega)
  rw [hunknown] at hpos
  exact absurd hpos (by decide)

/-- A round that is not live keeps its status until its record is pruned. -/
theorem Step.advances_of_gone (hstep : Step host chain action chain') (hhealthy : chain.Healthy)
    (hkept : chain.storage.ArchiveKept) {roundId : ℕ}
    (hknown : roundId ≤ chain.storage.rounds.lastRoundId.getD 0)
    (hgone : ∀ round, ¬ chain.storage.rounds.IsLive roundId round) :
    Advances ⟨chain, action, chain'⟩ roundId := by
  obtain ⟨-, hgone', -⟩ := hstep.round_gone hhealthy hknown hgone
  have hbefore : chain.roundStatus roundId = chain.storage.archive.roundStatus roundId :=
    getRoundStatus_of_inactive fun active hround hid => hgone active (.inl ⟨hround, hid⟩)
  have hafter : chain'.roundStatus roundId = chain'.storage.archive.roundStatus roundId :=
    getRoundStatus_of_inactive fun active hround hid => hgone' active (.inl ⟨hround, hid⟩)
  rcases hstep.archive with ⟨signers, call, ending, rfl, hending, harchives⟩ | ⟨-, hsame⟩
  · have hother : roundId ≠ ending.round.roundId := by
      rintro rfl
      exact hgone _ ((Call.endsBy hending).live (Storage.Healthy.ordered hhealthy))
    rcases harchives.roundStatus_other hkept.stored hother with
      hstays | ⟨hrecord, hnone, hunknown⟩
    · exact .kept (hafter.trans (hstays.trans hbefore.symm))
    · refine .pruned ?_ (hafter.trans hunknown) ⟨hrecord, hnone⟩
      rw [hbefore]
      exact Archive.isTerminal_of_record hrecord
  · refine .kept (hafter.trans ?_)
    rw [hsame, hbefore]

/-- When nothing is staged before and after a step, the active round stays active, or it is over and
has a record. -/
theorem Step.active_or_over (hstep : Step host chain action chain') (hhealthy : chain.Healthy)
    (htimed : chain.Timed) (hkept : chain.storage.ArchiveKept)
    (hempty : ∀ id, chain.storage.rounds.pendingDisputes.get id = none)
    (hempty' : ∀ id, chain'.storage.rounds.pendingDisputes.get id = none) {round : Round}
    (hactive : chain.storage.rounds.activeRound = some round) :
    (∃ round', chain'.storage.rounds.activeRound = some round' ∧ round.SameTerms round') ∨
      chain'.storage.rounds.Over round.roundId ∧
        chain'.storage.archive.archivedRound.get round.roundId ≠ none := by
  have hstays : ∀ round', round.SameTerms round' →
      chain'.storage.rounds.IsLive round.roundId round' →
      ∃ round', chain'.storage.rounds.activeRound = some round' ∧ round.SameTerms round' := by
    rintro round' hterms (⟨hactive', -⟩ | ⟨pending, hpending, -⟩)
    · exact ⟨round', hactive', hterms⟩
    · exact absurd (hpending.symm.trans (hempty' _)) (Option.some_ne_none _)
  have hroundStep := hstep.roundStep hhealthy htimed (.inl ⟨hactive, rfl⟩)
  generalize leaver ⟨chain, action, chain'⟩ round.roundId = leaves at hroundStep
  cases hroundStep with
  | kept _ hlive' => exact .inl (hstays round rfl hlive')
  | staked _ round' _ _ hterms hlive' => exact .inl (hstays round' hterms hlive')
  | revealed _ hlive' => exact .inl (hstays round rfl hlive')
  | cashedOut _ round' _ hterms hlive' => exact .inl (hstays round' hterms hlive')
  | ended signers call ending hlabel hending hround =>
      obtain rfl : action = .invoke signers call := hlabel
      subst hround
      have hended := Chain.Healthy.ends_over hhealthy hstep hending
      have harchives := (hstep.ensured call.ensures_archive).ended _ hending
      exact .inr ⟨hended.2, harchives.stored_new hkept.limit (hkept.nodup_append hended.1)⟩
  | dropped hdrops =>
      obtain ⟨signers, stagedId, _, hlabel, -, -⟩ := hdrops
      obtain rfl : action = .invoke signers (.finalizeRound stagedId) := hlabel
      obtain ⟨pending, hpending⟩ := hstep.ensured (finalizeRound_staged stagedId)
      exact absurd (hpending.symm.trans (hempty _)) (Option.some_ne_none _)

omit [LinearOrder A] in
/-- Without staged rounds a round is live when it is active. -/
theorem not_live_of_inactive {rounds : Rounds A} {roundId : ℕ}
    (hempty : ∀ id, rounds.pendingDisputes.get id = none)
    (hinactive : ¬ ∃ round, rounds.activeRound = some round ∧ round.roundId = roundId) :
    ∀ round, ¬ rounds.IsLive roundId round := by
  rintro round (⟨hactive, hid⟩ | ⟨pending, hpending, -⟩)
  · exact hinactive ⟨round, hactive, hid⟩
  · exact absurd (hpending.symm.trans (hempty _)) (Option.some_ne_none _)

/-- When nothing is staged before and after a step, every created round advances. -/
theorem Step.advances (hstep : Step host chain action chain') (hhealthy : chain.Healthy)
    (htimed : chain.Timed) (hkept : chain.storage.ArchiveKept)
    (hempty : ∀ id, chain.storage.rounds.pendingDisputes.get id = none)
    (hempty' : ∀ id, chain'.storage.rounds.pendingDisputes.get id = none) {roundId : ℕ}
    (hknown : roundId ≤ chain.storage.rounds.lastRoundId.getD 0) :
    Advances ⟨chain, action, chain'⟩ roundId := by
  by_cases hlive : ∃ round, chain.storage.rounds.activeRound = some round ∧
      round.roundId = roundId
  · obtain ⟨round, hactive, rfl⟩ := hlive
    rcases hstep.active_or_over hhealthy htimed hkept hempty hempty' hactive with
      ⟨round', hactive', hterms⟩ | ⟨hover, hstored⟩
    · exact advances_of_active hstep.ledger_le hactive hactive' hterms
    · exact advances_of_ended hactive hover hstored
  · exact hstep.advances_of_gone hhealthy hkept hknown (not_live_of_inactive hempty hlive)

/-- The only round with participants is the active one. -/
def Rounds.HeldByActive (rounds : Rounds A) : Prop :=
  ∀ roundId, rounds.participants roundId ≠ [] →
    ∃ round, rounds.activeRound = some round ∧ round.roundId = roundId

/-- When nothing is staged before and after a step, only the active round gets participants. -/
theorem Step.heldByActive (hstep : Step host chain action chain') (hhealthy : chain.Healthy)
    (htimed : chain.Timed) (htimed' : chain'.Timed) (hkept : chain.storage.ArchiveKept)
    (hempty : ∀ id, chain.storage.rounds.pendingDisputes.get id = none)
    (hempty' : ∀ id, chain'.storage.rounds.pendingDisputes.get id = none)
    (hheld : chain.storage.rounds.HeldByActive) : chain'.storage.rounds.HeldByActive := by
  intro roundId hsome
  have hlisted : chain'.storage.rounds.roundParticipants.get roundId ≠ none := by
    intro hnone
    exact hsome (by simp [Rounds.participants, Store.getD, hnone])
  have hknown' := (Storage.Healthy.ordered (hstep.healthy hhealthy)).listed_known roundId hlisted
  by_cases hknown : roundId ≤ chain.storage.rounds.lastRoundId.getD 0
  · by_cases hlive : ∃ round, chain.storage.rounds.activeRound = some round ∧
        round.roundId = roundId
    · obtain ⟨round, hactive, rfl⟩ := hlive
      rcases hstep.active_or_over hhealthy htimed hkept hempty hempty' hactive with
        ⟨round', hactive', hterms⟩ | ⟨hover, -⟩
      · exact ⟨round', hactive', by rw [hterms]⟩
      · exact absurd hover.no_book.listed hlisted
    · obtain ⟨hbook, -, -⟩ :=
        hstep.round_gone hhealthy hknown (not_live_of_inactive hempty hlive)
      rw [hbook.participants] at hsome
      exact absurd (hheld roundId hsome) hlive
  · have hnew : ¬ chain.storage.rounds.Created roundId := fun hcreated => hknown hcreated.2
    exact (hstep.opened_betting hhealthy htimed' hnew ⟨by omega, hknown'⟩).2

/-! ## Over whole histories -/

/-- What holds as long as no round is staged. -/
structure NothingStaged (chain : Chain A) : Prop where
  empty : ∀ roundId, chain.storage.rounds.pendingDisputes.get roundId = none
  held : chain.storage.rounds.HeldByActive

theorem History.nothingStaged (hhistory : History host trace chain)
    (hnot : ∀ transition ∈ trace, ¬ StagesRound transition) : NothingStaged chain := by
  obtain ⟨ledger, hrun⟩ := hhistory
  refine hrun.invariant_of_trace (fun trace chain =>
    (∀ transition ∈ trace, ¬ StagesRound transition) → NothingStaged chain) ?_ ?_ hnot
  · exact fun _ => ⟨fun _ => rfl, fun _ hsome => absurd rfl hsome⟩
  · intro earlier transition hearlier hstep hinv hall
    have hbefore : History host earlier transition.before := ⟨ledger, hearlier⟩
    have hafter : History host (earlier ++ [transition]) transition.after :=
      ⟨ledger, .snoc hearlier hstep⟩
    obtain ⟨hempty, hheld⟩ := hinv fun before hmem => hall before (by simp [hmem])
    have hempty' := hstep.unstaged hbefore.healthy (hall transition (by simp)) hempty
    exact ⟨hempty', hstep.heldByActive hbefore.healthy hbefore.timed hafter.timed
      (Reachable.archiveKept ⟨earlier, hbefore⟩) hempty hempty' hheld⟩

/-- A step of a history that stages no round obeys the law. -/
theorem History.statusStep {earlier later : List (Transition (Chain A) (Action A))}
    {transition : Transition (Chain A) (Action A)}
    (hhistory : History host (earlier ++ transition :: later) chain)
    (hnot : ∀ other ∈ earlier ++ transition :: later, ¬ StagesRound other) :
    StatusStep transition := by
  obtain ⟨hbefore, hstep, -⟩ := hhistory.cut
  have hafter : History host (earlier ++ [transition]) transition.after := by
    obtain ⟨ledger, hearlier⟩ := hbefore
    exact ⟨ledger, .snoc hearlier hstep⟩
  have hempty := (hbefore.nothingStaged fun other hmem => hnot other (by simp [hmem])).empty
  have hempty' := (hafter.nothingStaged fun other hmem => hnot other (by
    simp only [List.mem_append, List.mem_singleton] at hmem
    simp only [List.mem_append, List.mem_cons]
    tauto)).empty
  constructor
  · intro roundId hnew hcreated
    exact (hstep.opened_betting hbefore.healthy hafter.timed hnew hcreated).1
  · intro roundId hknown
    exact hstep.advances hbefore.healthy hbefore.timed (Reachable.archiveKept ⟨_, hbefore⟩) hempty
      hempty' hknown

/-- A created round whose status is unknown was pruned, when every step obeys the law. -/
theorem History.pruned_of_unknown (hhistory : History host trace chain)
    (hsteps : ∀ transition ∈ trace, StatusStep transition) {roundId : ℕ}
    (hcreated : chain.storage.rounds.Created roundId)
    (hunknown : chain.roundStatus roundId = .unknown) :
    ∃ transition ∈ trace, Prunes transition roundId := by
  obtain ⟨ledger, hrun⟩ := hhistory
  revert hsteps hcreated hunknown
  refine hrun.invariant_of_trace (fun trace chain =>
    (∀ transition ∈ trace, StatusStep transition) → chain.storage.rounds.Created roundId →
      chain.roundStatus roundId = .unknown → ∃ transition ∈ trace, Prunes transition roundId) ?_ ?_
  · rintro - ⟨hpos, hle⟩ -
    exact absurd hle (not_le.mpr hpos)
  intro earlier transition _ _ hinv hall hcreated hunknown
  have hlaw := hall transition (by simp)
  by_cases hbefore : transition.before.storage.rounds.Created roundId
  · cases hlaw.advances roundId hbefore.2 with
    | kept hsame =>
        obtain ⟨other, hmem, hprunes⟩ := hinv (fun other hmem => hall other (by simp [hmem])) hbefore
          (hsame.symm.trans hunknown)
        exact ⟨other, by simp [hmem], hprunes⟩
    | onward _ hlater =>
        rw [hunknown] at hlater
        exact absurd hlater (Nat.not_lt_zero _)
    | pruned _ _ hprunes => exact ⟨transition, by simp, hprunes⟩
  · rw [hlaw.opened roundId hbefore hcreated] at hunknown
    cases hunknown

/-- The round a step stages is unknown afterwards. -/
theorem Step.unknown_of_stages {transition : Transition (Chain A) (Action A)}
    (hstep : Step host transition.before transition.label transition.after)
    (hreachable : Reachable host transition.before) (hstages : StagesRound transition) :
    ∃ round, transition.before.storage.rounds.activeRound = some round ∧
      transition.after.roundStatus round.roundId = .unknown := by
  obtain ⟨signers, call, round, pending, hlabel, hending, hactive, -, hrounds⟩ :=
    hstep.stages hreachable.healthy hstages
  refine ⟨round, hactive, ?_⟩
  have hnotOver : ¬ transition.before.storage.rounds.Over round.roundId :=
    fun hover => hover.not_live round (.inl ⟨hactive, rfl⟩)
  have hrecord : transition.before.storage.archive.archivedRound.get round.roundId = none := by
    by_contra hstored
    exact hnotOver (hreachable.archived_over _ (.inl hstored))
  have hmarker : transition.before.storage.archive.cancelledRound.get round.roundId = none := by
    by_contra hstored
    exact hnotOver (hreachable.archived_over _ (.inr hstored))
  rw [hlabel] at hstep
  have harchive := (hstep.ensured call.ensures_archive).kept hending
  rw [Chain.roundStatus, getRoundStatus_of_inactive (fun active hround => by
    rw [hrounds] at hround
    cases hround), harchive]
  simp [Archive.roundStatus, hrecord, Archive.isRoundCancelled, hmarker]

/-- The status of every round follows its life exactly in the histories that stage no round. -/
theorem round_status_law_iff (hhistory : History host trace chain) :
    StatusLaw trace chain ↔ ∀ transition ∈ trace, ¬ StagesRound transition := by
  constructor
  · intro hlaw transition hmem hstages
    obtain ⟨hreachable, hstep⟩ := hhistory.of_mem hmem
    obtain ⟨round, hactive, hunknown⟩ := hstep.unknown_of_stages hreachable hstages
    have hbefore : transition.before.roundStatus round.roundId =
        (deriveRoundPhase transition.before.ledger.sequence round).roundStatus :=
      getRoundStatus_of_active hactive
    obtain ⟨hpos, hless⟩ :=
      (deriveRoundPhase transition.before.ledger.sequence round).stage_pos
    rw [← hbefore] at hpos hless
    have hknown := hreachable.healthy.ordered.active_last round hactive
    cases (hlaw.steps transition hmem).advances round.roundId (by rw [hknown]; rfl) with
    | kept hsame =>
        rw [← hsame, hunknown] at hpos
        exact absurd hpos (by decide)
    | onward _ hlater =>
        rw [hunknown] at hlater
        exact absurd hlater (Nat.not_lt_zero _)
    | pruned hterminal =>
        unfold RoundStatus.IsTerminal at hterminal
        omega
  · intro hnot
    have hsteps : ∀ transition ∈ trace, StatusStep transition := by
      intro transition hmem
      obtain ⟨earlier, later, rfl⟩ := List.append_of_mem hmem
      exact hhistory.statusStep hnot
    refine ⟨hsteps, fun roundId => hhistory.pruned_of_unknown hsteps, fun roundId hheld => ?_⟩
    have hsome : chain.storage.rounds.participants roundId ≠ [] := by
      intro hnone
      rw [Rounds.heldIn, hnone] at hheld
      exact absurd hheld (by simp)
    obtain ⟨round, hactive, rfl⟩ := (hhistory.nothingStaged hnot).held roundId hsome
    rw [Chain.roundStatus, getRoundStatus_of_active hactive]
    intro hunknown
    have hpos := (deriveRoundPhase chain.ledger.sequence round).stage_pos.1
    rw [hunknown] at hpos
    exact absurd hpos (by decide)

end Steps

/-- The trial round that is cancelled is never staged, and its status follows its life. -/
theorem cancelled_round_status : ∃ trace chain, History trialHost trace chain ∧
    chain.roundStatus 1 = .cancelled ∧ StatusLaw trace chain := by
  obtain ⟨trace, chain, hhistory, -, hfits, hstatus⟩ := exists_trial_trace cancelledRound
    (fun transition => transition.before.storage.control.settings.getDisputeLedgers == 0)
    (fun chain => decide (chain.roundStatus 1 = .cancelled)) (by decide +kernel)
  refine ⟨trace, chain, hhistory, of_decide_eq_true hstatus,
    (round_status_law_iff hhistory).mpr ?_⟩
  rintro transition hmem ⟨signers, call, finalPrice, round, -, -, -, -, hwindow⟩
  have hnone := beq_iff_eq.mp (hfits transition hmem)
  omega

/-- The status of the staged trial round is unknown while its stakes are held. -/
theorem staged_round_unknown :
    ¬ ∀ (trace : List (Transition (Chain ℕ) (Action ℕ))) chain, History trialHost trace chain →
      StatusLaw trace chain := by
  intro hclaim
  obtain ⟨trace, chain, hhistory, -, hfits⟩ := exists_trial_history overlappingRounds
    (fun chain => decide (0 < chain.storage.rounds.heldIn 1) &&
      decide (chain.roundStatus 1 = .unknown)) (by decide +kernel)
  rw [Bool.and_eq_true, decide_eq_true_eq, decide_eq_true_eq] at hfits
  exact (hclaim trace chain hhistory).escrowed 1 hfits.1 hfits.2

end XelmaMarket
