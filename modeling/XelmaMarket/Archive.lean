import XelmaMarket.RoundLife

/-!
# The archive of ended rounds

What ending a round does to the archived summaries, to the cancellation markers and to the list of
archived ids, and when that is what the retention limit asks for: the pruning loop drops two ids
from the list for every record it deletes.
-/

namespace XelmaMarket

open Transaction

variable {A : Type}

/-! ## The pruning loop -/

/-- The ids under which the pruning loop deletes records. -/
def prunedIds (limit : ℕ) : List ℕ → List ℕ
  | [] => []
  | [oldest] => if 1 > limit then [oldest] else []
  | oldest :: second :: rest =>
      if (oldest :: second :: rest).length > limit then oldest :: prunedIds limit rest else []

/-- The ids the pruning loop leaves in the list. -/
def keptIds (limit : ℕ) : List ℕ → List ℕ
  | [] => []
  | [oldest] => if 1 > limit then [] else [oldest]
  | oldest :: second :: rest =>
      if (oldest :: second :: rest).length > limit then keptIds limit rest
      else oldest :: second :: rest

/-- The archive without the records and markers under several ids. -/
def Archive.pruneAll (archive : Archive A) (ids : List ℕ) : Archive A :=
  { archive with
    archivedRound := archive.archivedRound.removeAll ids
    cancelledRound := archive.cancelledRound.removeAll ids }

/-- What the pruning loop deletes and keeps. -/
theorem enforceRetention_eq (limit : ℕ) (ids : List ℕ) (archive : Archive A) :
    Archive.enforceRetention limit ids archive =
      (archive.pruneAll (prunedIds limit ids), keptIds limit ids) := by
  fun_induction Archive.enforceRetention limit ids archive with
  | case1 => rfl
  | case2 archive oldest hfull => simp [prunedIds, keptIds, hfull, Archive.prune, Archive.pruneAll,
      Store.removeAll]
  | case3 archive oldest hroom => simp [prunedIds, keptIds, hroom, Archive.pruneAll,
      Store.removeAll]
  | case4 archive oldest second rest hfull ih =>
      rw [ih]
      simp only [prunedIds, keptIds, if_pos hfull]
      rfl
  | case5 archive oldest second rest hroom =>
      simp only [prunedIds, keptIds, if_neg hroom]
      rfl

/-- The loop prunes ids of the list only. -/
theorem prunedIds_subset (limit : ℕ) (ids : List ℕ) : prunedIds limit ids ⊆ ids := by
  fun_induction prunedIds limit ids with
  | case1 => simp
  | case2 => simp
  | case3 => simp
  | case4 oldest second rest hfull ih =>
      exact List.cons_subset_cons _ (List.Subset.trans ih (List.subset_cons_self _ _))
  | case5 => simp

/-- The loop keeps the end of the list. -/
theorem keptIds_suffix (limit : ℕ) (ids : List ℕ) : keptIds limit ids <:+ ids := by
  fun_induction keptIds limit ids with
  | case1 => exact List.nil_suffix
  | case2 => exact List.nil_suffix
  | case3 => exact List.suffix_rfl
  | case4 oldest second rest hfull ih =>
      exact ih.trans ((List.suffix_cons _ _).trans (List.suffix_cons _ _))
  | case5 => exact List.suffix_rfl

/-- What the loop keeps of a list was not pruned. -/
theorem not_pruned_of_kept {limit id : ℕ} {ids : List ℕ} (hnodup : ids.Nodup)
    (hkept : id ∈ keptIds limit ids) : id ∉ prunedIds limit ids := by
  fun_induction prunedIds limit ids with
  | case1 => simp
  | case2 oldest hfull => simp [keptIds, hfull] at hkept
  | case3 => simp
  | case4 oldest second rest hfull ih =>
      obtain ⟨holdest, -, hrest⟩ := by simpa only [List.nodup_cons] using hnodup
      simp only [keptIds, if_pos hfull] at hkept
      have hmem : id ∈ rest := (keptIds_suffix limit rest).subset hkept
      intro hpruned
      rcases List.mem_cons.mp hpruned with rfl | hpruned
      · exact holdest (List.mem_cons_of_mem _ hmem)
      · exact ih hrest hkept hpruned
  | case5 => simp

/-- A list within the limit is left alone. -/
theorem keptIds_of_room {limit : ℕ} {ids : List ℕ} (hroom : ids.length ≤ limit) :
    prunedIds limit ids = [] ∧ keptIds limit ids = ids := by
  match ids with
  | [] => exact ⟨rfl, rfl⟩
  | [oldest] =>
      have hone : ¬ 1 > limit := not_lt.mpr hroom
      simp [prunedIds, keptIds, hone]
  | oldest :: second :: rest =>
      have hfits : ¬ (oldest :: second :: rest).length > limit := not_lt.mpr hroom
      simp only [prunedIds, keptIds, if_neg hfits, and_self]

/-- The second id of a list over the limit is dropped from it, and its record stays. -/
theorem second_of_full {limit : ℕ} {oldest second : ℕ} {rest : List ℕ}
    (hnodup : (oldest :: second :: rest).Nodup)
    (hfull : limit < (oldest :: second :: rest).length) :
    second ∉ keptIds limit (oldest :: second :: rest) ∧
      second ∉ prunedIds limit (oldest :: second :: rest) := by
  obtain ⟨holdest, hsecond, -⟩ := by simpa only [List.nodup_cons] using hnodup
  simp only [prunedIds, keptIds, if_pos (show (oldest :: second :: rest).length > limit from hfull)]
  constructor
  · exact fun hmem => hsecond ((keptIds_suffix limit rest).subset hmem)
  · intro hmem
    rcases List.mem_cons.mp hmem with rfl | hrest
    · exact holdest (List.mem_cons_self ..)
    · exact hsecond (prunedIds_subset limit rest hrest)

/-! ## Archiving a round -/

/-- The archived ids, oldest first. -/
def Archive.ids (archive : Archive A) : List ℕ :=
  archive.recentArchivedRoundIds.getD []

/-- The number of archived rounds to keep. -/
def Settings.retentionLimit (settings : Settings) : ℕ :=
  settings.archiveRetention.getD defaultArchiveRetention

/-- What archiving a round does: the summary is stored, the id is appended and the list is pruned.
A cancellation marks its round on top of that. -/
structure Archives (limit roundId : ℕ) (archive archive' : Archive A) : Prop where
  ids : archive'.ids = keptIds limit (archive.ids ++ [roundId])
  records : ∃ summary, archive'.archivedRound =
    (archive.archivedRound.set roundId summary).removeAll
      (prunedIds limit (archive.ids ++ [roundId]))
  markers : ∀ id, id ≠ roundId → archive'.cancelledRound.get id =
    (archive.cancelledRound.removeAll (prunedIds limit (archive.ids ++ [roundId]))).get id

variable {env : Env A} {s s' : Storage A}

section Calls

variable [LinearOrder A]

/-- Indexing the participants touches their index only. -/
theorem indexParticipants_spec (roundId : ℕ) (participants : List A) :
    Ensures (indexParticipants roundId participants) env s fun _ s' =>
      ∃ index, s' = { s with archive := { s.archive with userArchivedRoundIds := index } } := by
  refine ensures_forEach (fun _ s' => ∃ index,
    s' = { s with archive := { s.archive with userArchivedRoundIds := index } }) ?_
    ⟨s.archive.userArchivedRoundIds, rfl⟩
  rintro user rest _ ⟨index, rfl⟩
  simp only [ensures_bind, ensures_gets, ensures_pushBack, ensures_update]
  exact fun _ => ⟨_, rfl⟩

/-- Archiving a round stores it and prunes the list. -/
theorem archiveRound_archives (round : Round) (status : RoundArchiveStatus) (finalPrice : ℕ)
    (participants : List A) (feeAmount : ℤ) (confidence : Option ℕ) :
    Ensures (archiveRound round status finalPrice participants feeAmount confidence) env s
      fun _ s' => Archives s.control.settings.retentionLimit round.roundId s.archive s'.archive := by
  simp only [archiveRound, ensures_bind, ensures_ledgerSequence]
  refine (indexParticipants_spec _ _).mono ?_
  rintro _ _ ⟨index, rfl⟩
  simp only [ensures_update, ensures_gets, ensures_pushBack, enforceRetention_eq]
  exact fun _ => ⟨rfl, ⟨_, rfl⟩, fun _ _ => rfl⟩

omit [LinearOrder A] in
/-- What keeps the archive changes nothing there. -/
theorem ensures_same_archive {α : Type} (m : ContractM A α) [Keeps Storage.archive m] :
    Ensures m env s fun _ s' => s'.archive = s.archive :=
  @Keeps.ensures _ _ _ _ _ Storage.archive _ _ env s

omit [LinearOrder A] in
instance (m : ControlM A α) : Keeps Storage.archive (onControl m) :=
  ⟨fun _ _ => (ensures_onControl _ _ _).mpr fun _ _ _ => rfl⟩

/-- A completed settlement archives its round. -/
theorem completeSettlement_archives (round : Round) (finalPrice : ℕ) (confidence : Option ℕ) :
    Ensures (completeSettlement round finalPrice confidence) env s fun _ s' =>
      Archives s.control.settings.retentionLimit round.roundId s.archive s'.archive := by
  have hsettle := (@ensures_same_archive _ env s _ (settleMode round finalPrice) _).and
    (ensures_same_control (settleMode round finalPrice))
  refine hsettle.bind ?_
  intro fee s₁ hsame
  obtain ⟨harchive, hcontrol⟩ := hsame
  simp only [ensures_bind, ensures_gets]
  refine (archiveRound_archives _ _ _ _ _ _).mono fun _ s₂ harchives => ?_
  simp only [ensures_updateRounds, ensures_pure]
  rw [← harchive, ← hcontrol]
  exact harchives

/-- What a call does to the archive: ending a round archives it, and nothing else does. -/
structure ArchiveChange (s : Storage A) (ends : Option Ending) (s' : Storage A) : Prop where
  ended : ∀ ending, ends = some ending → Archives s.control.settings.retentionLimit
    ending.round.roundId s.archive s'.archive
  kept : ends = none → s'.archive = s.archive

omit [LinearOrder A] in
theorem ArchiveChange.of_same (hsame : s'.archive = s.archive) : ArchiveChange s none s' :=
  ⟨nofun, fun _ => hsame⟩

omit [LinearOrder A] in
theorem ArchiveChange.of_ending {ending : Ending} (harchives :
    Archives s.control.settings.retentionLimit ending.round.roundId s.archive s'.archive) :
    ArchiveChange s (some ending) s' :=
  ⟨fun other hother => by cases hother; exact harchives, nofun⟩

/-- Settling the active round archives it unless it is staged. -/
theorem settleRoundWithPrice_archive {round : Round}
    (hactive : s.rounds.activeRound = some round) (finalPrice : ℕ) (confidence : Option ℕ) :
    Ensures (settleRoundWithPrice round finalPrice confidence) env s fun _ s' =>
      ArchiveChange s (s.resolution finalPrice) s' := by
  have hresolution : s.resolution finalPrice =
      if s.control.settings.belowMinimum (s.rounds.participants round.roundId).length then
        some ⟨round, .fallbackRefund⟩
      else if s.control.settings.getDisputeLedgers > 0 then none
      else some ⟨round, .resolved finalPrice⟩ := by
    simp [Storage.resolution, hactive]
  simp only [settleRoundWithPrice, ensures_bind, ensures_gets, ensures_ite]
  refine ⟨fun hbelow => ?_, fun habove => ⟨fun hwindow => ?_, fun hnow => ?_⟩⟩
  · rw [hresolution, if_pos hbelow]
    refine (archiveRound_archives _ _ _ _ _ _).mono fun _ s₁ harchives => ?_
    refine (ensures_same_archive _).mono fun _ s' hsame => ?_
    exact .of_ending (hsame ▸ harchives)
  · rw [hresolution, if_neg habove, if_pos hwindow]
    exact (ensures_same_archive _).mono fun _ s' hsame => .of_same hsame
  · rw [hresolution, if_neg habove, if_neg hnow]
    refine (completeSettlement_archives _ _ _).mono fun _ s' harchives => ?_
    exact (ensures_pure _).mpr (.of_ending harchives)

/-- A cancellation archives the active round, and then marks it. -/
theorem cancelRound_archives {round : Round} (hactive : s.rounds.activeRound = some round)
    (reason : ℕ) :
    Ensures (XelmaMarket.cancelRound reason) env s fun _ s' =>
      Archives s.control.settings.retentionLimit round.roundId s.archive s'.archive := by
  simp only [cancelRound, ensures_bind, ensures_onControl, requireSupportedSchema, ensures_gets,
    ensures_reject, ensures_pure, authorizedAdmin, readActiveRound, ensures_orError,
    ensures_requireAuth, hactive, Option.some.injEq]
  intro _ _ _ _ other hround
  subst hround
  -- everything before the archiving keeps the archive and the limit
  have hkeep : ∀ {α : Type} (m : ContractM A α) [Keeps Storage.archive m] [Keeps Storage.control m]
      (s₁ : Storage A), s₁.archive = s.archive ∧ s₁.control = s.control →
      Ensures m env s₁ fun _ s₂ => s₂.archive = s.archive ∧ s₂.control = s.control := by
    intro α m _ _ s₁ hsame
    refine ((ensures_same_archive m).and (ensures_same_control m)).mono fun _ s₂ hsame' => ?_
    exact ⟨hsame'.1.trans hsame.1, hsame'.2.trans hsame.2⟩
  refine (hkeep (cancelStakes _ _) s ⟨rfl, rfl⟩).mono fun tally s₁ hfirst => ?_
  have hpay : Ensures (onlyIf (s.control.settings.isCoverageEligible reason = true ∧ tally.1 ≠ [])
      (payCoverage (s.rounds.participants round.roundId) tally)) env s₁ fun _ s₂ =>
        s₂.archive = s.archive ∧ s₂.control = s.control := hkeep _ s₁ hfirst
  refine hpay.mono fun _ s₂ hsecond => ?_
  simp only [ensures_updateRounds]
  refine (archiveRound_archives _ _ _ _ _ _).mono fun _ s₃ harchives => ?_
  simp only [ensures_update]
  rw [← hsecond.1, ← hsecond.2]
  refine ⟨harchives.ids, harchives.records, fun id hother => ?_⟩
  exact (Store.get_set_of_ne _ _ hother).trans (harchives.markers id hother)

/-- A void archives the staged round. -/
theorem voidRound_archives {roundId : ℕ} {pending : PendingDisputeSettlement}
    (hpending : s.rounds.pendingDisputes.get roundId = some pending) :
    Ensures (XelmaMarket.voidRound roundId) env s fun _ s' =>
      Archives s.control.settings.retentionLimit pending.round.roundId s.archive s'.archive := by
  simp only [voidRound, ensures_bind, ensures_onControl, requireSupportedSchema, ensures_gets,
    ensures_reject, ensures_pure, ensureNotPaused, policyGate, readPendingDispute,
    ensures_orError, ensures_ledgerSequence, hpending, Option.some.injEq]
  rintro - - _ rfl -
  refine ((ensures_same_archive _).and (ensures_same_control _)).mono fun _ s₁ hsame => ?_
  refine (archiveRound_archives _ _ _ _ _ _).mono fun _ s₂ harchives => ?_
  simp only [removePendingDispute, ensures_updateRounds]
  rw [← hsame.1, ← hsame.2]
  exact harchives

/-- A finalization archives the staged round. -/
theorem finalizeRound_archives {roundId : ℕ} {pending : PendingDisputeSettlement}
    (hpending : s.rounds.pendingDisputes.get roundId = some pending) :
    Ensures (XelmaMarket.finalizeRound roundId) env s fun _ s' =>
      Archives s.control.settings.retentionLimit pending.round.roundId s.archive s'.archive := by
  simp only [finalizeRound, ensures_bind, ensures_onControl, requireSupportedSchema, ensures_gets,
    ensures_reject, ensures_pure, ensureNotPaused, policyGate, readPendingDispute,
    ensures_orError, ensures_ledgerSequence, hpending, Option.some.injEq]
  rintro - - _ rfl -
  refine (completeSettlement_archives _ _ _).mono fun _ s₁ harchives => ?_
  simp only [removePendingDispute, ensures_updateRounds]
  exact harchives

/-- What a successful call does to the archive. -/
theorem Call.ensures_archive (call : Call A) :
    Ensures call.exec env s fun _ s' => ArchiveChange s (call.ending s) s' := by
  cases call with
  | resolveRound payload =>
      refine resolveRound_checked payload fun round s₁ hchecked _ _ => ?_
      obtain ⟨config, armed, feed, rfl⟩ := hchecked.oracle
      have hsettle := @settleRoundWithPrice_archive _ env (s.withOracle config armed feed) _ _
        hchecked.active
      exact (hsettle _ _).mono fun _ s' hchange => ⟨hchange.ended, hchange.kept⟩
  | resolveRoundMulti payload =>
      refine resolveRoundMulti_checked payload fun round median s₁ hchecked hmedian _ => ?_
      obtain ⟨config, armed, feed, rfl⟩ := hchecked.oracle
      have hending : (Call.resolveRoundMulti payload).ending s = s.resolution median := by
        simp [Call.ending, hmedian, Except.toOption]
      rw [hending]
      have hsettle := @settleRoundWithPrice_archive _ env (s.withOracle config armed feed) _ _
        hchecked.active
      exact (hsettle _ _).mono fun _ s' hchange => ⟨hchange.ended, hchange.kept⟩
  | cancelRound reason =>
      cases hactive : s.rounds.activeRound with
      | none => simp [Call.exec, XelmaMarket.cancelRound, readActiveRound, hactive]
      | some round =>
          refine (cancelRound_archives hactive reason).mono fun _ s' harchives => ?_
          rw [show (Call.cancelRound reason).ending s = some ⟨round, .cancelled reason⟩ by
            simp [Call.ending, hactive]]
          exact .of_ending harchives
  | voidRound roundId =>
      cases hpending : s.rounds.pendingDisputes.get roundId with
      | none => simp [Call.exec, XelmaMarket.voidRound, readPendingDispute, hpending, ensureNotPaused]
      | some pending =>
          refine (voidRound_archives hpending).mono fun _ s' harchives => ?_
          rw [show (Call.voidRound roundId).ending s = some ⟨pending.round, .voided⟩ by
            simp [Call.ending, hpending]]
          exact .of_ending harchives
  | finalizeRound roundId =>
      cases hpending : s.rounds.pendingDisputes.get roundId with
      | none =>
          simp [Call.exec, XelmaMarket.finalizeRound, readPendingDispute, hpending, ensureNotPaused]
      | some pending =>
          refine (finalizeRound_archives hpending).mono fun _ s' harchives => ?_
          rw [show (Call.finalizeRound roundId).ending s =
            some ⟨pending.round, .finalized pending.finalPrice⟩ by simp [Call.ending, hpending]]
          exact .of_ending harchives
  | executeGovProposal executor proposalId =>
      have hperform : ∀ action : GovAction A, Keeps Storage.archive (performGovAction action) := by
        intro action
        unfold performGovAction
        cases action <;> infer_instance
      have hexecute : Keeps Storage.archive (execute executor proposalId) := by
        unfold execute
        infer_instance
      simp only [Call.exec]
      exact (ensures_same_archive _).mono fun _ s' hsame => .of_same hsame
  | migrateSchemaV1ToV2 dryRun | migrateSchemaV2ToV3 dryRun =>
      have hgate : ∀ version, Keeps Storage.archive (migrationGate version : ContractM A _) := by
        intro version
        unfold migrationGate
        infer_instance
      simp only [Call.exec, XelmaMarket.migrateSchemaV1ToV2, XelmaMarket.migrateSchemaV2ToV3]
      exact (ensures_same_archive _).mono fun _ s' hsame => .of_same hsame
  | _ =>
      simp only [Call.exec, XelmaMarket.predictPrice]
      exact (ensures_same_archive _).mono fun _ s' hsame => .of_same hsame

end Calls

/-! ## What the retention limit asks for -/

/-- Archiving a round keeps the last `limit` ids, and deletes the records and markers of exactly the
ids it drops. -/
structure Retains (limit roundId : ℕ) (archive archive' : Archive A) : Prop where
  ids : archive'.ids = (archive.ids ++ [roundId]).drop (archive.ids.length + 1 - limit)
  recorded : archive'.archivedRound.get roundId ≠ none
  records : ∀ id, id ≠ roundId → archive'.archivedRound.get id =
    if id ∈ (archive.ids ++ [roundId]).take (archive.ids.length + 1 - limit) then none
    else archive.archivedRound.get id
  markers : ∀ id, id ≠ roundId → archive'.cancelledRound.get id =
    if id ∈ (archive.ids ++ [roundId]).take (archive.ids.length + 1 - limit) then none
    else archive.cancelledRound.get id

section Retention

variable {limit roundId : ℕ} {archive archive' : Archive A}

/-- With room in the list archiving a round only adds it. -/
theorem Archives.of_room (harchives : Archives limit roundId archive archive')
    (hroom : archive.ids.length + 1 ≤ limit) :
    archive'.ids = archive.ids ++ [roundId] ∧
      (∃ summary, archive'.archivedRound = archive.archivedRound.set roundId summary) ∧
      ∀ id, id ≠ roundId → archive'.cancelledRound.get id = archive.cancelledRound.get id := by
  obtain ⟨hpruned, hkept⟩ := @keptIds_of_room limit (archive.ids ++ [roundId])
    (by simpa using hroom)
  obtain ⟨summary, hrecords⟩ := harchives.records
  refine ⟨harchives.ids.trans hkept, ⟨summary, ?_⟩, fun id hother => ?_⟩
  · rw [hrecords, hpruned]
    rfl
  · rw [harchives.markers id hother, hpruned]
    rfl

/-- A record that is not pruned stays, and the new one is there unless it is pruned. -/
theorem Archives.stored (harchives : Archives limit roundId archive archive') {id : ℕ}
    (hkept : id ∉ prunedIds limit (archive.ids ++ [roundId]))
    (hstored : id = roundId ∨ archive.archivedRound.get id ≠ none) :
    archive'.archivedRound.get id ≠ none := by
  obtain ⟨summary, hrecords⟩ := harchives.records
  rw [hrecords, Store.get_removeAll, if_neg hkept, Store.get_set]
  split
  · nofun
  · next hother => exact hstored.resolve_left hother

/-- In a full list the second id is dropped while its record stays. -/
theorem Archives.orphan (harchives : Archives limit roundId archive archive')
    (hnodup : (archive.ids ++ [roundId]).Nodup)
    (hstored : ∀ id ∈ archive.ids, archive.archivedRound.get id ≠ none) (hlimit : 1 ≤ limit)
    (hfull : limit < archive.ids.length + 1) :
    ∃ id ∈ archive.ids ++ [roundId], id ∉ archive'.ids ∧
      archive'.archivedRound.get id ≠ none := by
  match hlist : archive.ids ++ [roundId] with
  | [] => simp at hlist
  | [only] =>
      have hlength := congrArg List.length hlist
      simp only [List.length_append, List.length_singleton] at hlength
      omega
  | oldest :: second :: rest =>
      have hlength : limit < (oldest :: second :: rest).length := by
        rw [← hlist]
        simpa using hfull
      obtain ⟨hdropped, hkept⟩ := second_of_full (hlist ▸ hnodup) hlength
      rw [← hlist] at hdropped hkept
      have hmem : second ∈ archive.ids ++ [roundId] := by
        rw [hlist]
        simp
      refine ⟨second, by simp, by rwa [harchives.ids], harchives.stored hkept ?_⟩
      rcases List.mem_append.mp hmem with hearlier | hnew
      · exact .inr (hstored second hearlier)
      · exact .inl (List.mem_singleton.mp hnew)

/-- Archiving a round does what the retention limit asks for if and only if there is room. -/
theorem Archives.retains_iff (harchives : Archives limit roundId archive archive')
    (hnodup : (archive.ids ++ [roundId]).Nodup)
    (hstored : ∀ id ∈ archive.ids, archive.archivedRound.get id ≠ none) (hlimit : 1 ≤ limit) :
    Retains limit roundId archive archive' ↔ archive.ids.length + 1 ≤ limit := by
  constructor
  · intro hretains
    by_contra hfull
    obtain ⟨id, hmem, hdropped, hkept⟩ :=
      harchives.orphan hnodup hstored hlimit (not_le.mp hfull)
    rw [hretains.ids] at hdropped
    have htaken : id ∈ (archive.ids ++ [roundId]).take (archive.ids.length + 1 - limit) := by
      rw [← List.take_append_drop (archive.ids.length + 1 - limit) (archive.ids ++ [roundId])]
        at hmem
      exact (List.mem_append.mp hmem).resolve_right hdropped
    have hother : id ≠ roundId := by
      intro hnew
      rw [List.drop_append_of_le_length (by omega)] at hdropped
      exact hdropped (by simp [hnew])
    rw [hretains.records id hother, if_pos htaken] at hkept
    exact hkept rfl
  · intro hroom
    obtain ⟨hids, ⟨summary, hrecords⟩, hmarkers⟩ := harchives.of_room hroom
    have hnone : archive.ids.length + 1 - limit = 0 := by omega
    constructor
    · rw [hnone]
      exact hids
    · simp [hrecords]
    · intro id hother
      simp [hrecords, hnone, Store.get_set_of_ne _ _ hother]
    · intro id hother
      simp [hmarkers id hother, hnone]

end Retention

/-! ## Along histories -/

/-- What holds of the archive throughout every history: the limit is positive, and the listed rounds
are distinct, recorded and over. -/
structure Storage.ArchiveKept (s : Storage A) : Prop where
  limit : 1 ≤ s.control.settings.retentionLimit
  nodup : s.archive.ids.Nodup
  stored : ∀ id ∈ s.archive.ids, s.archive.archivedRound.get id ≠ none
  gone : ∀ id ∈ s.archive.ids, s.rounds.Over id

/-- A record and no entry in the list: what a round that is over keeps for good. -/
structure Storage.Orphan (s : Storage A) (id : ℕ) : Prop where
  gone : s.rounds.Over id
  unlisted : id ∉ s.archive.ids
  stored : s.archive.archivedRound.get id ≠ none

variable [LinearOrder A]

/-- The round a transition ends. -/
def endedRound (transition : Transition (Chain A) (Action A)) : Option ℕ :=
  match transition.label with
  | .invoke _ call => (call.ending transition.before.storage).map (·.round.roundId)
  | _ => none

/-- The rounds ended so far, in the order they ended. -/
def endedRounds (trace : List (Transition (Chain A) (Action A))) : List ℕ :=
  trace.filterMap endedRound

/-- A transition that ends a round finds room for it in the list. -/
def FindsRoom (transition : Transition (Chain A) (Action A)) : Prop :=
  transition.before.storage.archive.ids.length + 1 ≤
    transition.before.storage.control.settings.retentionLimit

/-- Whenever a round ended there was room for it in the list. -/
def NeverFull (trace : List (Transition (Chain A) (Action A))) : Prop :=
  ∀ transition ∈ trace, ∀ roundId, EndsRound transition roundId → FindsRoom transition

omit [LinearOrder A] in
theorem endsRound_iff {transition : Transition (Chain A) (Action A)} {roundId : ℕ} :
    EndsRound transition roundId ↔ endedRound transition = some roundId := by
  unfold EndsRound endedRound
  cases transition.label with
  | invoke signers call =>
      constructor
      · rintro ⟨_, _, ending, hlabel, hending, hid⟩
        cases hlabel
        simp [hending, hid]
      · intro hended
        obtain ⟨ending, hending, hid⟩ := Option.map_eq_some_iff.mp hended
        exact ⟨signers, call, ending, rfl, hending, hid⟩
  | closeLedger | expire => simp

variable {host : Host A} {chain chain' : Chain A} {action : Action A}

/-- No call sets a retention limit of zero. -/
theorem ControlChange.retention {call : Call A} (hchange : ControlChange env s call s')
    (hlimit : 1 ≤ s.control.settings.retentionLimit) :
    1 ≤ s'.control.settings.retentionLimit := by
  unfold Settings.retentionLimit at hlimit ⊢
  cases hchange with
  | administered call _ heffect =>
      generalize s'.control = control at heffect
      cases heffect with
      | configured _ payload _ hvalid =>
          cases payload with
          | archiveRetention limit => exact hvalid.retention limit rfl
          | _ => exact hlimit
      | switched _ mode =>
          rw [Control.withMode_retention]
          exact hlimit
      | other _ _ _ hsame =>
          rw [hsame.retention]
          exact hlimit
      | _ => exact hlimit
  | executed _ _ _ _ hexecutes =>
      rw [hexecutes.control]
      show 1 ≤ (s.control.enact _).settings.archiveRetention.getD _
      rw [Control.enact_retention]
      exact hlimit
  | submitted _ _ _ _ _ _ _ hcontrol =>
      rw [hcontrol]
      exact hlimit
  | kept _ _ _ hsame =>
      rw [hsame.retention]
      exact hlimit

/-- A step ends a round and archives it, or leaves the archive alone. -/
theorem Step.archive (hstep : Step host chain action chain') :
    (∃ signers call ending, action = .invoke signers call ∧
      call.ending chain.storage = some ending ∧
      Archives chain.storage.control.settings.retentionLimit ending.round.roundId
        chain.storage.archive chain'.storage.archive) ∨
    (endedRound ⟨chain, action, chain'⟩ = none ∧
      chain'.storage.archive = chain.storage.archive) := by
  cases action with
  | invoke signers call =>
      have hchange := hstep.ensured call.ensures_archive
      cases hending : call.ending chain.storage with
      | some ending => exact .inl ⟨signers, call, ending, rfl, hending, hchange.ended _ hending⟩
      | none => exact .inr ⟨by simp [endedRound, hending], hchange.kept hending⟩
  | closeLedger ledger =>
      obtain ⟨meter, hsame⟩ := hstep.idle nofun
      exact .inr ⟨rfl, by rw [hsame]⟩
  | expire key =>
      obtain ⟨meter, hsame⟩ := hstep.idle nofun
      exact .inr ⟨rfl, by rw [hsame]⟩

/-- The round a step ends was not over before and is afterwards. -/
theorem Chain.Healthy.ends_over {signers : List A} {call : Call A} {ending : Ending}
    (hhealthy : chain.Healthy) (hstep : Step host chain (.invoke signers call) chain')
    (hending : call.ending chain.storage = some ending) :
    ¬ chain.storage.rounds.Over ending.round.roundId ∧
      chain'.storage.rounds.Over ending.round.roundId := by
  have hhealthy' : chain.storage.Healthy chain.ledger.sequence := hhealthy
  refine ⟨fun hover => hover.not_ending hhealthy'.ordered hending rfl, ?_⟩
  exact @Ends.over _ _ ⟨host, chain.ledger, signers⟩ _ _ _ hhealthy'.ordered _ hending
    (Chain.Healthy.ends hhealthy hstep hending)

omit [LinearOrder A] in
/-- Appending a round that was not over keeps the listed ids distinct. -/
theorem Storage.ArchiveKept.nodup_append (hkept : s.ArchiveKept) {roundId : ℕ}
    (hlive : ¬ s.rounds.Over roundId) : (s.archive.ids ++ [roundId]).Nodup := by
  refine List.nodup_append.mpr ⟨hkept.nodup, List.nodup_singleton _, ?_⟩
  rintro id hid _ hnew rfl
  obtain rfl := List.mem_singleton.mp hnew
  exact hlive (hkept.gone id hid)

/-- Every step keeps the archive in order. -/
theorem Step.archiveKept (hstep : Step host chain action chain') (hhealthy : chain.Healthy)
    (hkept : chain.storage.ArchiveKept) : chain'.storage.ArchiveKept := by
  have hlimit : 1 ≤ chain'.storage.control.settings.retentionLimit := by
    rcases hstep.administration with ⟨signers, call, rfl, hchange⟩ | ⟨-, hsame⟩
    · exact hchange.retention hkept.limit
    · rw [hsame]
      exact hkept.limit
  rcases hstep.archive with ⟨signers, call, ending, rfl, hending, harchives⟩ | ⟨-, hsame⟩
  · obtain ⟨hlive, hover⟩ := Chain.Healthy.ends_over hhealthy hstep hending
    have hnodup := hkept.nodup_append hlive
    have hsub : ∀ id ∈ chain'.storage.archive.ids,
        id ∈ chain.storage.archive.ids ∨ id = ending.round.roundId := by
      intro id hid
      rw [harchives.ids] at hid
      simpa using (keptIds_suffix _ _).subset hid
    refine ⟨hlimit, ?_, fun id hid => ?_, fun id hid => ?_⟩
    · rw [harchives.ids]
      exact hnodup.sublist (keptIds_suffix _ _).sublist
    · have hmem := harchives.ids ▸ hid
      refine harchives.stored (not_pruned_of_kept hnodup hmem) ?_
      exact (hsub id hid).symm.imp_right (hkept.stored id)
    · rcases hsub id hid with hearlier | rfl
      · exact Chain.Healthy.over_of_step hhealthy hstep (hkept.gone id hearlier)
      · exact hover
  · refine ⟨hlimit, ?_, ?_, fun id hid => ?_⟩
    · rw [hsame]
      exact hkept.nodup
    · rw [hsame]
      exact hkept.stored
    · rw [hsame] at hid
      exact Chain.Healthy.over_of_step hhealthy hstep (hkept.gone id hid)

/-- The archive is in order throughout every history. -/
theorem Reachable.archiveKept (hreachable : Reachable host chain) :
    chain.storage.ArchiveKept := by
  obtain ⟨trace, ledger, hrun⟩ := hreachable
  refine (hrun.invariant (fun chain => chain.Healthy ∧ chain.storage.ArchiveKept)
    ⟨healthy_empty ledger.sequence, ?_⟩ ?_).2
  · refine ⟨show 1 ≤ defaultArchiveRetention by decide, ?_, ?_, ?_⟩ <;>
      simp [Chain.genesis, Storage.empty, Archive.ids]
  · rintro transition _ hstep ⟨hhealthy, hkept⟩
    exact ⟨hstep.healthy hhealthy, hstep.archiveKept hhealthy hkept⟩

/-- An orphan stays one. -/
theorem Step.orphan (hstep : Step host chain action chain') (hhealthy : chain.Healthy) {id : ℕ}
    (horphan : chain.storage.Orphan id) : chain'.storage.Orphan id := by
  have hover := Chain.Healthy.over_of_step hhealthy hstep horphan.gone
  rcases hstep.archive with ⟨signers, call, ending, rfl, hending, harchives⟩ | ⟨-, hsame⟩
  · obtain ⟨hlive, -⟩ := Chain.Healthy.ends_over hhealthy hstep hending
    have hunlisted : id ∉ chain.storage.archive.ids ++ [ending.round.roundId] := by
      intro hmem
      rcases List.mem_append.mp hmem with hearlier | hnew
      · exact horphan.unlisted hearlier
      · obtain rfl := List.mem_singleton.mp hnew
        exact hlive horphan.gone
    refine ⟨hover, fun hlisted => hunlisted ?_, ?_⟩
    · rw [harchives.ids] at hlisted
      exact (keptIds_suffix _ _).subset hlisted
    · exact harchives.stored (fun hpruned => hunlisted (prunedIds_subset _ _ hpruned))
        (.inr horphan.stored)
  · exact ⟨hover, hsame ▸ horphan.unlisted, hsame ▸ horphan.stored⟩

/-- The records are those of the listed ids. -/
def Archive.Mirrored (archive : Archive A) : Prop :=
  ∀ id, archive.archivedRound.get id ≠ none ↔ id ∈ archive.ids

variable {trace : List (Transition (Chain A) (Action A))}

omit [LinearOrder A] in
/-- An orphan has a record and is not listed. -/
theorem Storage.Orphan.not_mirrored {id : ℕ} (horphan : s.Orphan id) : ¬ s.archive.Mirrored :=
  fun hmirrored => horphan.unlisted ((hmirrored id).mp horphan.stored)

omit [LinearOrder A] in
theorem neverFull_append {transition : Transition (Chain A) (Action A)} :
    NeverFull (trace ++ [transition]) ↔
      NeverFull trace ∧ ∀ roundId, EndsRound transition roundId → FindsRoom transition := by
  simp only [NeverFull, List.forall_mem_append, List.forall_mem_singleton]

/-- What the list holds as long as it was never full: the rounds ended so far, in the order they
ended and each with its record. They are no more than a limit that was in force at every end. -/
structure KeepsAll (trace : List (Transition (Chain A) (Action A))) (archive : Archive A) :
    Prop where
  mirrored : archive.Mirrored
  ids : archive.ids = endedRounds trace
  within : ∀ limit, (∀ transition ∈ trace, ∀ roundId, EndsRound transition roundId →
    transition.before.storage.control.settings.retentionLimit = limit) →
    (endedRounds trace).length ≤ limit

/-- A history in which the list was never full keeps every ended round. -/
theorem History.keepsAll (hhistory : History host trace chain) (hroom : NeverFull trace) :
    KeepsAll trace chain.storage.archive := by
  obtain ⟨ledger, hrun⟩ := hhistory
  revert hroom
  refine hrun.invariant_of_trace
    (fun trace chain => NeverFull trace → KeepsAll trace chain.storage.archive) ?_ ?_
  · intro _
    refine ⟨fun id => ?_, rfl, fun _ _ => Nat.zero_le _⟩
    simp [Chain.genesis, Storage.empty, Archive.ids]
  · intro earlier last _ hstep hinv hroom
    obtain ⟨hearlier, hlast⟩ := neverFull_append.mp hroom
    have hkeeps := hinv hearlier
    have hended : endedRounds (earlier ++ [last]) =
        endedRounds earlier ++ (endedRound last).toList := by
      simp [endedRounds, List.filterMap_cons]
      cases endedRound last <;> rfl
    rcases hstep.archive with ⟨signers, call, ending, hlabel, hending, harchives⟩ | ⟨hnone, hsame⟩
    · have hends : EndsRound last ending.round.roundId :=
        ⟨signers, call, ending, hlabel, hending, rfl⟩
      have hfound := hlast _ hends
      obtain ⟨hids, ⟨summary, hrecords⟩, -⟩ := harchives.of_room hfound
      rw [endsRound_iff.mp hends, Option.toList_some] at hended
      refine ⟨fun id => ?_, ?_, fun limit hlimit => ?_⟩
      · rw [hids, hrecords, Store.get_set, List.mem_append, List.mem_singleton]
        by_cases hid : id = ending.round.roundId
        · simp [hid]
        · simp [hid, hkeeps.mirrored id]
      · rw [hids, hended, hkeeps.ids]
      · unfold FindsRoom at hfound
        rw [hended, List.length_append, List.length_singleton, ← hkeeps.ids,
          ← hlimit last (by simp) _ hends]
        exact hfound
    · rw [show endedRound last = none from hnone, Option.toList_none, List.append_nil] at hended
      rw [hsame]
      refine ⟨hkeeps.mirrored, by rw [hended, hkeeps.ids], fun limit hlimit => ?_⟩
      rw [hended]
      exact hkeeps.within limit fun transition hmem =>
        hlimit transition (List.mem_append_left _ hmem)

/-- A history in which the list was once full leaves an orphan. -/
theorem History.exists_orphan (hhistory : History host trace chain) (hfull : ¬ NeverFull trace) :
    ∃ id, chain.storage.Orphan id := by
  unfold NeverFull at hfull
  push Not at hfull
  obtain ⟨transition, hmem, roundId, hends, hroom⟩ := hfull
  obtain ⟨earlier, later, rfl⟩ := List.append_of_mem hmem
  obtain ⟨⟨ledger, hearlier⟩, hstep, hlater⟩ := hhistory.cut
  have hbefore : Reachable host transition.before := ⟨earlier, ledger, hearlier⟩
  obtain ⟨signers, call, ending, hlabel, hending, -⟩ := hends
  rw [hlabel] at hstep
  have harchives := (hstep.ensured call.ensures_archive).ended _ hending
  have hkept := hbefore.archiveKept
  obtain ⟨hlive, hover⟩ := Chain.Healthy.ends_over hbefore.healthy hstep hending
  obtain ⟨id, hlisted, hdropped, hstored⟩ := harchives.orphan (hkept.nodup_append hlive)
    hkept.stored hkept.limit (not_le.mp hroom)
  have horphan : transition.after.storage.Orphan id := by
    refine ⟨?_, hdropped, hstored⟩
    rcases List.mem_append.mp hlisted with hold | hnew
    · exact Chain.Healthy.over_of_step hbefore.healthy hstep (hkept.gone id hold)
    · exact List.mem_singleton.mp hnew ▸ hover
  refine ⟨id, (hlater.invariant (fun chain => chain.Healthy ∧ chain.storage.Orphan id)
    ⟨(hbefore.step hstep).healthy, horphan⟩ ?_).2⟩
  rintro other - hnext ⟨hhealthy, hold⟩
  exact ⟨hnext.healthy hhealthy, hnext.orphan hhealthy hold⟩

/-- The end of a round does what the retention limit asks for if and only if there is room for the
round in the list. The records are those of the listed ids if and only if the list was never full at
the end of a round; then it holds every round ended so far. -/
theorem archive_retention_iff (hhistory : History host trace chain) :
    (∀ transition ∈ trace, ∀ roundId, EndsRound transition roundId →
      (Retains transition.before.storage.control.settings.retentionLimit roundId
        transition.before.storage.archive transition.after.storage.archive ↔
        FindsRoom transition)) ∧
    (chain.storage.archive.Mirrored ↔ NeverFull trace) ∧
    (NeverFull trace → chain.storage.archive.ids = endedRounds trace ∧
      ∀ limit, (∀ transition ∈ trace, ∀ roundId, EndsRound transition roundId →
        transition.before.storage.control.settings.retentionLimit = limit) →
        chain.storage.archive.ids =
          (endedRounds trace).drop ((endedRounds trace).length - limit)) := by
  refine ⟨fun transition hmem roundId hends => ?_, ⟨fun hmirrored => ?_, fun hroom => ?_⟩,
    fun hroom => ?_⟩
  · obtain ⟨hbefore, hstep⟩ := hhistory.of_mem hmem
    obtain ⟨signers, call, ending, hlabel, hending, rfl⟩ := hends
    rw [hlabel] at hstep
    have hkept := hbefore.archiveKept
    obtain ⟨hlive, -⟩ := Chain.Healthy.ends_over hbefore.healthy hstep hending
    exact ((hstep.ensured call.ensures_archive).ended _ hending).retains_iff
      (hkept.nodup_append hlive) hkept.stored hkept.limit
  · by_contra hfull
    obtain ⟨id, horphan⟩ := hhistory.exists_orphan hfull
    exact horphan.not_mirrored hmirrored
  · exact (hhistory.keepsAll hroom).mirrored
  · have hkeeps := hhistory.keepsAll hroom
    refine ⟨hkeeps.ids, fun limit hlimit => ?_⟩
    have hnone : (endedRounds trace).length - limit = 0 :=
      Nat.sub_eq_zero_of_le (hkeeps.within limit hlimit)
    rw [hnone]
    exact hkeeps.ids

/-- A round is cancelled, and another one is opened in a later ledger. -/
def cancelledRound : List (Action ℕ) := trialSetup ++ [
  .invoke [1] (.createRound 100 (some 0)),
  .invoke [1] (.cancelRound 0),
  .closeLedger (ledgerAt 2),
  .invoke [1] (.createRound 100 (some 0))]

/-- At the default limit the second cancelled round joins the first one in the list. -/
theorem second_round_retained : ∃ chain chain' : Chain ℕ,
    Step trialHost chain (.invoke [1] (.cancelRound 0)) chain' ∧
      chain'.storage.archive.ids = [1, 2] ∧
      Retains 128 2 chain.storage.archive chain'.storage.archive := by
  obtain ⟨trace, chain, chain', hhistory, hfits⟩ := exists_trial cancelledRound
    (.invoke [1] (.cancelRound 0))
    (fun chain chain' => decide (chain.storage.archive.ids = [1] ∧
      chain.storage.control.settings.retentionLimit = 128 ∧
      ((Call.cancelRound 0).ending chain.storage).map (·.round.roundId) = some 2 ∧
      chain'.storage.archive.ids = [1, 2])) (by decide +kernel)
  obtain ⟨hids, hlimit, hended, hids'⟩ := of_decide_eq_true hfits
  obtain ⟨ending, hending, hid⟩ := Option.map_eq_some_iff.mp hended
  have hretains := (archive_retention_iff hhistory).1 ⟨chain, .invoke [1] (.cancelRound 0), chain'⟩
    (by simp) 2 ⟨[1], _, ending, rfl, hending, hid⟩
  refine ⟨chain, chain', hhistory.last.2, hids', hlimit ▸ hretains.mpr ?_⟩
  simp [FindsRoom, hids, hlimit]

/-- At a limit of one the end of the second round empties the list, and its record stays. -/
theorem second_round_dropped : ∃ trace, ∃ chain chain' : Chain ℕ,
    History trialHost (trace ++ [⟨chain, .invoke [1] (.cancelRound 0), chain'⟩]) chain' ∧
      EndsRound ⟨chain, .invoke [1] (.cancelRound 0), chain'⟩ 2 ∧
      chain.storage.control.settings.retentionLimit = 1 ∧ chain.storage.archive.ids = [1] ∧
      chain'.storage.archive.ids = [] ∧
      ¬ Retains 1 2 chain.storage.archive chain'.storage.archive ∧
      ¬ chain'.storage.archive.Mirrored := by
  obtain ⟨trace, chain, chain', hhistory, hfits⟩ := exists_trial
    (cancelledRound ++ [.invoke [1] (.control (.setArchiveRetention 1))])
    (.invoke [1] (.cancelRound 0))
    (fun chain chain' => decide (chain.storage.archive.ids = [1] ∧
      chain.storage.control.settings.retentionLimit = 1 ∧
      ((Call.cancelRound 0).ending chain.storage).map (·.round.roundId) = some 2 ∧
      chain'.storage.archive.ids = [] ∧
      (chain'.storage.archive.archivedRound.get 2).isSome)) (by decide +kernel)
  obtain ⟨hids, hlimit, hended, hids', hrecord⟩ := of_decide_eq_true hfits
  obtain ⟨ending, hending, hid⟩ := Option.map_eq_some_iff.mp hended
  refine ⟨trace, chain, chain', hhistory, ⟨[1], _, ending, rfl, hending, hid⟩, hlimit, hids, hids',
    fun hretains => ?_, fun hmirrored => ?_⟩
  · have hlist := hretains.ids
    rw [hids, hids'] at hlist
    cases hlist
  · have hlisted := (hmirrored 2).mp (Option.isSome_iff_ne_none.mp hrecord)
    rw [hids'] at hlisted
    cases hlisted

end XelmaMarket
