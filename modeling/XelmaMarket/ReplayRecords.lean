import Mathlib.Data.List.Sort
import XelmaMarket.Reproduction

/-!
# Verifying recorded rounds

A recorded round carries the outcome captured when it was settled. The verifier replays the round
and reports every difference; it accepts exactly the outcome of the replay. Rows may be recorded in
any order: sorting them by index restores the transcript.
-/

namespace XelmaMarket

/-! ## Records -/

/-- The expected payout of a participant. -/
structure ExpectedPayout where
  index : ℕ
  payout : ℤ
  outcome : UserOutcomeType
  deriving DecidableEq

/-- The outcome captured at record time. -/
structure ExpectedOutcome where
  archiveStatus : RoundArchiveStatus
  totalFee : ℤ
  payouts : List ExpectedPayout
  deriving DecidableEq

/-- The outcome block of a replay. -/
def replayToExpected (replay : ReplayResult) : ExpectedOutcome where
  archiveStatus := replay.archiveStatus
  totalFee := replay.totalFee
  payouts := replay.payouts.map fun p => ⟨p.index, p.payout, p.outcome⟩

/-- Sort the participants by index and count them. -/
def RoundTranscript.canonicalizeParticipants (transcript : RoundTranscript) : RoundTranscript :=
  { transcript with
    participants := transcript.participants.mergeSort fun p q => decide (p.index ≤ q.index)
    participantCount := transcript.participants.length % 2 ^ 32 }

/-! ## Diagnostics -/

/-- A field in which the record and the replay differ. -/
structure MismatchDiagnostic where
  field : String
  expected : String
  replayed : String
  deriving DecidableEq

/-- How a report shows an archive status. -/
def RoundArchiveStatus.debug : RoundArchiveStatus → String
  | .resolved => "Resolved"
  | .cancelled => "Cancelled"
  | .fallbackRefund => "FallbackRefund"
  | .voided => "Voided"

/-- How a report shows an outcome. -/
def UserOutcomeType.debug : UserOutcomeType → String
  | .win => "Win"
  | .loss => "Loss"
  | .refund => "Refund"
  | .cancel => "Cancel"
  | .void => "Void"

/-- The report of one field, empty when the two agree. -/
def mismatch {α : Type} [DecidableEq α] (field : String) (shown : α → String)
    (expected replayed : α) : List MismatchDiagnostic :=
  if expected ≠ replayed then [⟨field, shown expected, shown replayed⟩] else []

/-- The report of one payout entry, its fields named by the expected index. -/
def comparePayout (expected : ExpectedPayout) (replayed : ReplayPayout) :
    List MismatchDiagnostic :=
  let entry := "payouts[" ++ toString expected.index ++ "]"
  mismatch (entry ++ ".index") toString expected.index replayed.index ++
    mismatch (entry ++ ".payout") toString expected.payout replayed.payout ++
    mismatch (entry ++ ".outcome") UserOutcomeType.debug expected.outcome replayed.outcome

/-- Report where the expected outcome and the replay differ. Payouts are compared one by one only
when there are equally many. -/
def compareReplay (expected : ExpectedOutcome) (replay : ReplayResult) :
    List MismatchDiagnostic :=
  mismatch "archive_status" RoundArchiveStatus.debug expected.archiveStatus replay.archiveStatus ++
    mismatch "total_fee" toString expected.totalFee replay.totalFee ++
    if expected.payouts.length ≠ replay.payouts.length then
      mismatch "payouts.len" toString expected.payouts.length replay.payouts.length
    else
      (expected.payouts.zip replay.payouts).flatMap fun entry => comparePayout entry.1 entry.2

/-- Succeed when nothing differs, otherwise fail with the report. -/
def assertLiveMatchesReplay (expected : ExpectedOutcome) (replay : ReplayResult) :
    Except (List MismatchDiagnostic) Unit :=
  if compareReplay expected replay = [] then .ok () else .error (compareReplay expected replay)

/-- Why a verification fails. -/
inductive VerifyFailure where
  | replay (error : ReplayError)
  | mismatches (report : List MismatchDiagnostic)
  deriving DecidableEq

/-- Replay a transcript and compare with its expected outcome. -/
def verifyTranscript (transcript : RoundTranscript) (expected : ExpectedOutcome) :
    Except VerifyFailure Unit := do
  let replay ← (replayRound transcript).mapError .replay
  (assertLiveMatchesReplay expected replay).mapError .mismatches

/-! ## What a report leaves out -/

theorem mismatch_eq_nil {α : Type} [DecidableEq α] {field : String} {shown : α → String}
    {expected replayed : α} : mismatch field shown expected replayed = [] ↔ expected = replayed := by
  unfold mismatch
  split
  · next hdiffer => simpa using hdiffer
  · next hsame => simpa using hsame

theorem comparePayout_eq_nil {expected : ExpectedPayout} {replayed : ReplayPayout} :
    comparePayout expected replayed = [] ↔
      expected = ⟨replayed.index, replayed.payout, replayed.outcome⟩ := by
  unfold comparePayout
  obtain ⟨index, payout, outcome⟩ := expected
  simp only [List.append_eq_nil_iff, mismatch_eq_nil, ExpectedPayout.mk.injEq, and_assoc]

/-- Equally many entries are all reported equal exactly when the lists are. -/
theorem comparePayouts_eq_nil {expected : List ExpectedPayout} {replayed : List ReplayPayout}
    (hlength : expected.length = replayed.length) :
    ((expected.zip replayed).flatMap fun entry => comparePayout entry.1 entry.2) = [] ↔
      expected = replayed.map fun p => ⟨p.index, p.payout, p.outcome⟩ := by
  induction expected generalizing replayed with
  | nil =>
      obtain rfl := List.length_eq_zero_iff.mp hlength.symm
      exact iff_of_true rfl rfl
  | cons first rest ih =>
      cases replayed with
      | nil => cases hlength
      | cons entry entries =>
          have hrest : rest.length = entries.length := Nat.succ.inj hlength
          simp only [List.zip_cons_cons, List.flatMap_cons, List.append_eq_nil_iff,
            comparePayout_eq_nil, ih hrest, List.map_cons, List.cons.injEq]

/-- Nothing is reported exactly when the expected outcome is the outcome of the replay. -/
theorem compareReplay_eq_nil {expected : ExpectedOutcome} {replay : ReplayResult} :
    compareReplay expected replay = [] ↔ expected = replayToExpected replay := by
  obtain ⟨archiveStatus, totalFee, payouts⟩ := expected
  simp only [compareReplay, replayToExpected, List.append_eq_nil_iff, mismatch_eq_nil,
    ExpectedOutcome.mk.injEq, and_assoc]
  refine and_congr_right fun _ => and_congr_right fun _ => ?_
  split
  · next hlength =>
      refine iff_of_false (fun hnil => hlength (mismatch_eq_nil.mp hnil)) ?_
      rintro rfl
      exact hlength (List.length_map _)
  · next hlength => exact comparePayouts_eq_nil (not_not.mp hlength)

/-- The verifier accepts exactly the outcome of a replay that succeeds. -/
theorem verifyTranscript_eq_ok {transcript : RoundTranscript} {expected : ExpectedOutcome} :
    verifyTranscript transcript expected = .ok () ↔
      ∃ replay, replayRound transcript = .ok replay ∧ expected = replayToExpected replay := by
  unfold verifyTranscript
  cases replayRound transcript with
  | error error =>
      refine iff_of_false (fun h => by cases h) ?_
      rintro ⟨replay, hreplay, -⟩
      cases hreplay
  | ok replay =>
      show (assertLiveMatchesReplay expected replay).mapError VerifyFailure.mismatches = .ok () ↔ _
      unfold assertLiveMatchesReplay
      split
      · next hnil =>
          exact iff_of_true rfl ⟨replay, rfl, compareReplay_eq_nil.mp hnil⟩
      · next hreport =>
          refine iff_of_false (fun h => by cases h) ?_
          rintro ⟨result, hresult, hexpected⟩
          obtain rfl := Except.ok.inj hresult
          exact hreport (compareReplay_eq_nil.mpr hexpected)

/-! ## The order of the rows -/

section Order

variable {transcript : RoundTranscript}

/-- The indices of a valid transcript count up from 0, and the participants are counted. -/
theorem validateSchema_eq_ok (hvalid : transcript.validateSchema = .ok ()) :
    (transcript.participants.map (·.index) = List.range transcript.participants.length) ∧
      transcript.participantCount = transcript.participants.length := by
  unfold RoundTranscript.validateSchema at hvalid
  split at hvalid
  · cases hvalid
  split at hvalid
  · cases hvalid
  split at hvalid
  · cases hvalid
  · next hordered =>
      split at hvalid
      · cases hvalid
      · next hcount =>
          refine ⟨List.ext_getElem (by simp) fun i hrow _ => ?_, not_not.mp hcount⟩
          rw [List.length_map] at hrow
          have hplaced := List.find?_eq_none.mp hordered (transcript.participants[i], i)
            (List.mk_mem_zipIdx_iff_getElem?.mpr (List.getElem?_eq_getElem hrow))
          simpa using hplaced

/-- Sorting the rows of a valid transcript, recorded in any order, restores it. -/
theorem canonicalizeParticipants_of_perm (hvalid : transcript.validateSchema = .ok ())
    (hfits : transcript.participantCount < 2 ^ 32) {rows : List TranscriptParticipant}
    (hrows : rows.Perm transcript.participants) (count : ℕ) :
    RoundTranscript.canonicalizeParticipants
      { transcript with participants := rows, participantCount := count } = transcript := by
  obtain ⟨hindices, hcount⟩ := validateSchema_eq_ok hvalid
  have hascending : transcript.participants.Pairwise fun p q => p.index < q.index := by
    have hrange := List.pairwise_lt_range (n := transcript.participants.length)
    rw [← hindices, List.pairwise_map] at hrange
    exact hrange
  have hsorted : rows.mergeSort (fun p q => decide (p.index ≤ q.index)) =
      transcript.participants := by
    have hpairs := @List.pairwise_mergeSort _
      (fun p q : TranscriptParticipant => decide (p.index ≤ q.index))
      (fun p q r hpq hqr => by simp only [decide_eq_true_eq] at *; exact hpq.trans hqr)
      (fun p q => by simpa using le_total p.index q.index) rows
    have hback := (List.mergeSort_perm rows fun p q => decide (p.index ≤ q.index)).trans hrows
    refine List.Perm.eq_of_pairwise (fun p q hp hq hle hge => ?_) hpairs
      (hascending.imp fun hlt => decide_eq_true hlt.le) hback
    -- equal indices are those of one row
    refine List.inj_on_of_nodup_map (hindices ▸ List.nodup_range) (hback.mem_iff.mp hp) hq ?_
    exact le_antisymm (of_decide_eq_true hle) (of_decide_eq_true hge)
  have hlength : rows.length % 2 ^ 32 = transcript.participantCount := by
    rw [hrows.length_eq, ← hcount, Nat.mod_eq_of_lt hfits]
  unfold RoundTranscript.canonicalizeParticipants
  simp only [hsorted, hlength]

end Order

/-! ## Records of ended rounds -/

/-- The replay an expected outcome is the outcome of. -/
def ExpectedOutcome.asReplay (expected : ExpectedOutcome) : ReplayResult where
  archiveStatus := expected.archiveStatus
  totalFee := expected.totalFee
  payouts := expected.payouts.map fun p => ⟨p.index, p.payout, p.outcome⟩

theorem eq_replayToExpected_iff {expected : ExpectedOutcome} {replay : ReplayResult} :
    expected = replayToExpected replay ↔ expected.asReplay = replay := by
  constructor
  · rintro rfl
    unfold ExpectedOutcome.asReplay replayToExpected
    rw [List.map_map]
    exact congrArg (ReplayResult.mk _ _) (List.map_id _)
  · rintro rfl
    unfold ExpectedOutcome.asReplay replayToExpected
    rw [List.map_map]
    exact congrArg (ExpectedOutcome.mk _ _) (List.map_id _).symm

theorem eq_of_fields {entry other : ReplayPayout} (hindex : entry.index = other.index)
    (hpayout : entry.payout = other.payout) (houtcome : entry.outcome = other.outcome) :
    entry = other := by
  obtain ⟨index, payout, outcome⟩ := entry
  obtain ⟨index', payout', outcome'⟩ := other
  simp only at hindex hpayout houtcome
  rw [hindex, hpayout, houtcome]

variable {A : Type} [LinearOrder A] {s s' : Storage A} {roundId : ℕ}

/-- An expected outcome is what the contract did to a round. -/
def RecordsOutcome (s s' : Storage A) (roundId : ℕ) (expected : ExpectedOutcome) : Prop :=
  ReplaysAs s s' roundId expected.asReplay

/-- The contract did one thing to a round. -/
theorem ReplaysAs.unique {result other : ReplayResult} (hresult : ReplaysAs s s' roundId result)
    (hother : ReplaysAs s s' roundId other) : result = other := by
  obtain ⟨event, hevents, -, hstatus, hfee⟩ := hresult.summarized.event
  obtain ⟨event', hevents', -, hstatus', hfee'⟩ := hother.summarized.event
  obtain rfl : event = event' := by simpa using hevents.symm.trans hevents'
  have hsame : result.archiveStatus = other.archiveStatus := by
    have hvalue := hstatus.symm.trans hstatus'
    revert hvalue
    cases result.archiveStatus <;> cases other.archiveStatus <;> decide
  have hpayouts : result.payouts = other.payouts := by
    have hindex := hresult.indices.trans hother.indices.symm
    have hlength : result.payouts.length = other.payouts.length := by
      simpa using congrArg List.length hindex
    refine List.ext_getElem hlength fun i hi hi' => ?_
    have hparticipants : i < (sortAddresses (s.rounds.participants roundId)).length := by
      have hrange := congrArg List.length hresult.indices
      rw [List.length_map, List.length_range] at hrange
      rwa [(sortAddresses_perm _).length_eq, ← hrange]
    have hzipped : ∀ {payouts : List ReplayPayout} (hi : i < payouts.length),
        ((sortAddresses (s.rounds.participants roundId))[i], payouts[i]) ∈
          (sortAddresses (s.rounds.participants roundId)).zip payouts := by
      intro payouts hi
      refine List.mem_iff_getElem.mpr ⟨i, by simp [hparticipants, hi], by simp⟩
    obtain ⟨record, hrecord, hpaid, hended⟩ := hresult.recorded _ (hzipped hi)
    obtain ⟨record', hrecord', hpaid', hended'⟩ := hother.recorded _ (hzipped hi')
    obtain rfl := Option.some.inj (hrecord.symm.trans hrecord')
    have hplace : result.payouts[i].index = other.payouts[i].index := by
      have hget := congrArg (fun indices => indices[i]?) hindex
      simpa [hi, hi'] using hget
    exact eq_of_fields hplace (hpaid.symm.trans hpaid') (hended.symm.trans hended')
  obtain ⟨status, fee, payouts⟩ := result
  obtain ⟨status', fee', payouts'⟩ := other
  simp only at hsame hpayouts hfee hfee'
  rw [hsame, hpayouts, ← hfee, ← hfee']

section Live

variable {host : Host A} {chain chain' : Chain A} {signers : List A} {call : Call A}
  {ending : Ending} {finalPrice : ℕ}

/-- The recorded rows of an ended round, in any order and whatever their count says, sort back into
its transcript. -/
theorem canonicalize_transcript (hreachable : Reachable host chain)
    (hne : chain.storage.rounds.participants ending.round.roundId ≠ [])
    {rows : List TranscriptParticipant}
    (hrows : rows.Perm (chain.storage.transcript ending finalPrice).participants) (count : ℕ) :
    RoundTranscript.canonicalizeParticipants
        { chain.storage.transcript ending finalPrice with
          participants := rows, participantCount := count } =
      chain.storage.transcript ending finalPrice := by
  refine canonicalizeParticipants_of_perm (validateSchema_transcript hne) ?_ hrows count
  have hroom := (Storage.Healthy.ordered hreachable.healthy).room ending.round.roundId
  have hmax : maxVecLength < 2 ^ 32 := by decide
  show (chain.storage.rounds.participants ending.round.roundId).length < 2 ^ 32
  omega

/-- Whenever a call ends a round with a participant, recorded with its rows in any order: the
verifier accepts what the contract did exactly when the ending is replayable, and of a replayable
ending it accepts nothing else. -/
theorem live_record_verified (hreachable : Reachable host chain)
    (hstep : Step host chain (.invoke signers call) chain')
    (hending : call.ending chain.storage = some ending)
    (hne : chain.storage.rounds.participants ending.round.roundId ≠ [])
    (hfinal : ∀ price, ending.kind.price = some price → finalPrice = price)
    {rows : List TranscriptParticipant}
    (hrows : rows.Perm (chain.storage.transcript ending finalPrice).participants) (count : ℕ)
    (expected : ExpectedOutcome) :
    (RecordsOutcome chain.storage chain'.storage ending.round.roundId expected →
      (verifyTranscript (RoundTranscript.canonicalizeParticipants
          { chain.storage.transcript ending finalPrice with
            participants := rows, participantCount := count }) expected = .ok () ↔
        chain.storage.Replayable ending)) ∧
      (chain.storage.Replayable ending →
        (verifyTranscript (RoundTranscript.canonicalizeParticipants
            { chain.storage.transcript ending finalPrice with
              participants := rows, participantCount := count }) expected = .ok () ↔
          RecordsOutcome chain.storage chain'.storage ending.round.roundId expected)) := by
  have hreplays := Chain.Healthy.replays_iff hreachable.healthy hstep hending hne hfinal
  rw [canonicalize_transcript hreachable hne hrows, verifyTranscript_eq_ok]
  simp only [eq_replayToExpected_iff]
  unfold RecordsOutcome
  constructor
  · intro hrecords
    rw [← hreplays]
    constructor
    · rintro ⟨replay, hreplay, rfl⟩
      exact ⟨_, hreplay, hrecords⟩
    · rintro ⟨replay, hreplay, hlive⟩
      exact ⟨replay, hreplay, hrecords.unique hlive⟩
  · intro hreplayable
    obtain ⟨replay, hreplay, hlive⟩ := hreplays.mpr hreplayable
    constructor
    · rintro ⟨other, hother, hsame⟩
      obtain rfl := Except.ok.inj (hreplay.symm.trans hother)
      rwa [hsame]
    · exact fun hrecords => ⟨replay, hreplay, hrecords.unique hlive⟩

/-- Without a minimum, a fee on winnings or weighted shares every ending is replayable. -/
theorem replayable_of_plain (hminimum : chain.storage.control.settings.minParticipants = none)
    (hmodel : chain.storage.control.settings.readFeeModel = .feeOnPot)
    (hpolicy : chain.storage.control.settings.readPrecisionPayoutPolicy = .equal) :
    chain.storage.Replayable ending := by
  intro finalPrice _
  refine ⟨by simp [Settings.belowMinimum, hminimum], ?_⟩
  have hplain : chain.storage.control.settings.terms.feeModel ≠ .feeOnWinnings ∧
      chain.storage.control.settings.terms.payoutPolicy ≠ .stakeWeighted := by
    simp [Settings.terms, hmodel, hpolicy]
  unfold Terms.PaysPlainly
  cases ending.round.mode with
  | upDown => exact fun _ h => absurd h hplain.1
  | precision => exact fun _ => ⟨fun h => absurd h hplain.1, fun h => absurd h hplain.2⟩

end Live

/-- The record of the trial Precision round, with its rows in reverse, is accepted. -/
theorem reversed_record_verified : ∃ chain chain' : Chain ℕ, ∃ ending expected,
    Step trialHost chain (.invoke [2] (.resolveRound (trialPayload 1 1000 100))) chain' ∧
      RecordsOutcome chain.storage chain'.storage ending.round.roundId expected ∧
      verifyTranscript (RoundTranscript.canonicalizeParticipants
        { chain.storage.transcript ending 1000 with
          participants := (chain.storage.transcript ending 1000).participants.reverse
          participantCount := 0 }) expected = .ok () := by
  obtain ⟨trace, chain, chain', hhistory, hfits⟩ := exists_trial precisionRound
    (.invoke [2] (.resolveRound (trialPayload 1 1000 100)))
    (fun chain _ => decide (
      ((Call.resolveRound (trialPayload 1 1000 100)).ending chain.storage).any fun ending =>
      ending.kind = .resolved 1000 ∧
      chain.storage.rounds.participants ending.round.roundId ≠ [] ∧
      chain.storage.control.settings.minParticipants = none ∧
      chain.storage.control.settings.readPrecisionPayoutPolicy = .equal ∧
      chain.storage.control.settings.readFeeModel = .feeOnPot)) (by decide +kernel)
  obtain ⟨ending, hending, hfits⟩ := (Option.any_eq_true _ _).mp (of_decide_eq_true hfits)
  obtain ⟨hkind, hne, hminimum, hpolicy, hmodel⟩ := of_decide_eq_true hfits
  have hfinal : ∀ price, ending.kind.price = some price → 1000 = price := by
    rw [hkind]
    exact fun price hprice => Option.some.inj hprice
  have hreplayable : chain.storage.Replayable ending := replayable_of_plain hminimum hmodel hpolicy
  obtain ⟨hreachable, hstep⟩ := hhistory.last
  obtain ⟨replay, hreplay, hlive⟩ :=
    (Chain.Healthy.replays_iff hreachable.healthy hstep hending hne hfinal).mpr hreplayable
  have hrecords : RecordsOutcome chain.storage chain'.storage ending.round.roundId
      (replayToExpected replay) := by
    unfold RecordsOutcome
    rwa [eq_replayToExpected_iff.mp rfl]
  exact ⟨chain, chain', ending, _, hstep, hrecords,
    ((live_record_verified hreachable hstep hending hne hfinal (List.reverse_perm _) 0 _).2
      hreplayable).mpr hrecords⟩

end XelmaMarket
