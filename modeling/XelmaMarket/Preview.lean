import XelmaMarket.Parity
import XelmaMarket.Queries

/-!
# The payout preview

`simulatePayout` recomputes a settlement with loops of its own. Where the settlement succeeds the
preview succeeds as well, and its outcomes are the records the settlement persists.
-/

namespace XelmaMarket

open Transaction

variable {A : Type} [LinearOrder A]

/-! ## UpDown previews -/

section UpDown

variable {s : Storage A} {round : Round} {finalPrice : ℕ}

omit [LinearOrder A] in
/-- A loop that appends an outcome for every participant collects the outcomes. -/
theorem foldlM_append {participants : List A} {outcomes : List (UserRoundOutcome A)}
    {body : List (UserRoundOutcome A) → A → Except Failure (List (UserRoundOutcome A))}
    {outcome : A → UserRoundOutcome A}
    (hbody : ∀ user ∈ participants, ∀ seen, body seen user = .ok (seen ++ [outcome user])) :
    participants.foldlM body outcomes = .ok (outcomes ++ participants.map outcome) := by
  induction participants generalizing outcomes with
  | nil => simp [pure, Except.pure]
  | cons user rest ih =>
      rw [List.foldlM_cons, hbody user List.mem_cons_self, ok_bind,
        ih fun other hmem => hbody other (List.mem_cons_of_mem _ hmem), List.map_cons,
        List.append_assoc]
      rfl

omit [LinearOrder A] in
/-- The preview's condition for a refund is the settlement's. -/
theorem refunded_eq :
    (decide (finalPrice = round.priceStart) ||
      (decide (round.poolUp = 0) != decide (round.poolDown = 0))) =
      decide (round.refundsAt finalPrice) := by
  rw [← Bool.coe_iff_coe, decide_eq_true_iff]
  unfold Round.refundsAt isOneSidedPool
  rw [Bool.or_eq_true, decide_eq_true_iff, or_comm]

omit [LinearOrder A] in
/-- The preview of the pools of a competitive round applies the fee to the winning side. -/
theorem previewPools_eq {bps : Option ℕ} {feeModel : FeeModel} :
    previewPools bps feeModel round finalPrice false = (do
      let fee ← calculateProtocolFeeUpdown bps feeModel
        (round.pool (round.winningSide finalPrice))
        (round.pool (round.winningSide finalPrice).other)
      return ⟨round.winningSide finalPrice, round.pool (round.winningSide finalPrice), fee.1,
        fee.2.1, fee.2.2⟩) := by
  unfold previewPools Round.winningSide
  by_cases hup : finalPrice > round.priceStart
  · simp only [if_pos hup]
    rfl
  · simp only [if_neg hup]
    rfl

omit [LinearOrder A] in
/-- Without participants there is nothing to compute but the fee of empty pools. -/
theorem upDownComputes_empty {terms : Terms} {rounds : Rounds A} (hbook : UpDownBook rounds round)
    (hempty : rounds.participants round.roundId = []) (side : BetSide) :
    UpDownComputes terms rounds round side [] := by
  have hup : round.poolUp = 0 := by simp [hbook.pool_up, Rounds.sideTotal, hempty]
  have hdown : round.poolDown = 0 := by simp [hbook.pool_down, Rounds.sideTotal, hempty]
  have hpool : ∀ side, round.pool side = 0 := by
    intro side
    cases side <;> simp [Round.pool, hup, hdown]
  have hrate : ∀ bps, rateOf bps 0 = 0 := by
    intro bps
    cases bps <;> simp [rateOf]
  have hpot : terms.upDownPot round side = 0 := by
    unfold Terms.upDownPot Terms.upDownFee
    cases terms.feeModel <;> simp [hup, hdown, hpool, hrate]
  have hfee : calculateProtocolFeeUpdown terms.protocolFeeBps terms.feeModel 0 0 =
      .ok (0, 0, 0) := by
    cases terms.protocolFeeBps with
    | none => rfl
    | some rate =>
        cases terms.feeModel <;>
          simp [calculateProtocolFeeUpdown, payoutAdd, checked, divide, i128Min, i128Max,
            bpsDenominator, bind, Except.bind, pure, Except.pure]
  refine ⟨(0, 0, 0), by rw [hpool, hpool, hfee], ?_, fun _ hmem => absurd hmem List.not_mem_nil⟩
  rw [hpot]
  rfl

omit [LinearOrder A] in
/-- A loop that finds the outcome of every participant collects them. -/
theorem previewLoop_eq {participants : List A} (record : A → UserRoundOutcome A)
    (hposition : ∀ user ∈ participants,
      ∃ position, s.rounds.position.get (round.roundId, user) = some position)
    (refunded : Bool) (preview : UpDownPreview) (total : ℤ)
    (hpreview : ∀ user ∈ participants, ∀ position,
      s.rounds.position.get (round.roundId, user) = some position →
      previewPosition refunded preview total user position = .ok (record user)) :
    participants.foldlM (fun outcomes user =>
        match s.rounds.position.get (round.roundId, user) with
        | none => (return outcomes : Except Failure (List (UserRoundOutcome A)))
        | some position => do
            let outcome ← previewPosition refunded preview total user position
            return outcomes ++ [outcome]) [] =
      .ok (participants.map record) := by
  refine foldlM_append fun user huser seen => ?_
  obtain ⟨position, hget⟩ := hposition user huser
  rw [hget]
  simp only
  rw [hpreview user huser position hget]
  rfl

/-- Where an UpDown settlement is in range, its preview is the records and the fee of its plan. -/
theorem previewUpDown_eq (hbook : Represents s.rounds round) (hmode : round.mode = .upDown)
    (hcomputes : Computes s.control.settings.terms s.rounds round finalPrice) :
    previewUpDown s round finalPrice (sortAddresses (s.rounds.participants round.roundId)) =
      .ok ((sortAddresses (s.rounds.participants round.roundId)).map
          (s.control.settings.terms.recordOf s.rounds round finalPrice),
        (s.control.settings.terms.plan s.rounds round finalPrice).fee) := by
  have hbook' := hbook.upDown hmode
  have hposition : ∀ user ∈ sortAddresses (s.rounds.participants round.roundId),
      ∃ position, s.rounds.position.get (round.roundId, user) = some position :=
    fun user huser => hbook'.position (mem_sortAddresses.mp huser)
  have hloop := previewLoop_eq (s.control.settings.terms.recordOf s.rounds round finalPrice)
    hposition
  unfold previewUpDown Terms.plan
  simp only [refunded_eq, hmode, Terms.upDownPlan]
  by_cases hrefunds : round.refundsAt finalPrice
  · have hzero : payoutAdd 0 0 = .ok 0 := rfl
    simp only [hrefunds, decide_true, if_true, previewPools, pure_bind, hzero, ok_bind]
    refine (congrArg (· >>= _) (hloop true _ 0 ?_)).trans rfl
    · intro user _ position hget
      rw [previewPosition, if_pos rfl, Terms.recordOf, hmode]
      simp only [if_pos hrefunds]
      rw [upDownOutcome_eq hget 0, Rounds.stakeOf, hget]
      rfl
  · have hcomputes' : UpDownComputes s.control.settings.terms s.rounds round
        (round.winningSide finalPrice)
        (sortAddresses (s.rounds.participants round.roundId)) := by
      by_cases hempty : sortAddresses (s.rounds.participants round.roundId) = []
      · rw [hempty]
        exact upDownComputes_empty hbook' (List.nil_perm.mp (hempty ▸ sortAddresses_perm _)) _
      · unfold Computes at hcomputes
        simp only [hmode] at hcomputes
        exact hcomputes hrefunds hempty
    obtain ⟨dist, hdist, htotal, hpayout⟩ := hcomputes'
    obtain ⟨hfee, -⟩ := calculateProtocolFeeUpdown_spec
      ⟨hbook'.pool_nonneg _, hbook'.pool_nonneg _⟩ hdist
    have hpools : previewPools s.control.settings.protocolFeeBps
        s.control.settings.readFeeModel round finalPrice false =
          .ok ⟨round.winningSide finalPrice, round.pool (round.winningSide finalPrice), dist.1,
            dist.2.1, dist.2.2⟩ := by
      rw [previewPools_eq]
      exact congrArg (· >>= _) hdist
    simp only [hrefunds, decide_false, if_false, hpools, ok_bind, htotal]
    refine (congrArg (· >>= _) (hloop false _ _ ?_)).trans ?_
    · intro user huser position hget
      have hne : s.rounds.participants round.roundId ≠ [] :=
        List.ne_nil_of_mem (mem_sortAddresses.mp huser)
      have hpools' := pools_pos hbook hmode hrefunds hne
      have hpool : round.pool (round.winningSide finalPrice) ≠ 0 := by
        cases round.winningSide finalPrice with
        | up => exact hpools'.1.ne'
        | down => exact hpools'.2.ne'
      simp only [previewPosition, Bool.false_eq_true, if_false, Terms.recordOf, hmode,
        if_neg hrefunds]
      by_cases hside : position.side = round.winningSide finalPrice
      · have hpaid := hpayout user huser position hget hside
        rw [computeUpdownWinnerPayout, if_neg hpool] at hpaid
        obtain ⟨product, hproduct, hdivide⟩ := bind_eq_ok.mp hpaid
        rw [if_pos hside, hproduct, ok_bind, hdivide, ok_bind]
        simp [Terms.upDownRecord, Rounds.betOn, hget, hside, upDownOutcome_eq hget 0,
          Rounds.stakeOf]
        rfl
      · rw [if_neg hside]
        simp [Terms.upDownRecord, Rounds.betOn, hget, hside, upDownOutcome_eq hget 0]
        rfl
    · rw [← hfee]
      rfl

end UpDown

/-! ## The scan of a Precision preview -/

/-- A preview's scan has seen what the settlement's scan has. -/
structure Mirrors (preview : PreviewScan A) (scan : PrecisionScan A) : Prop where
  minDiff : preview.minDiff = scan.minDiff
  winners : preview.winners = scan.winners
  totalPot : preview.totalPot = scan.totalPot
  mask : preview.isWinnerMask = scan.isWinnerMask
  amounts : preview.userAmounts = scan.amounts
  prices : preview.preds.map (·.predictedPrice) = scan.prices

section Scan

variable {rounds : Rounds A} {roundId finalPrice : ℕ} {preview : PreviewScan A}
  {scan next : PrecisionScan A} {participants : List A}

omit [LinearOrder A] in
/-- A prediction keeps the scans alike. -/
theorem Mirrors.observe (hmirrors : Mirrors preview scan) (prediction : PrecisionPrediction A) :
    Mirrors (preview.observe prediction finalPrice) (scan.observe prediction finalPrice) := by
  obtain ⟨hmin, hwinners, htotal, hmask, hamounts, hprices⟩ := hmirrors
  unfold PreviewScan.observe PrecisionScan.observe
  rw [hmin]
  cases hleast : scan.minDiff with
  | none => exact ⟨rfl, by simp [hwinners], htotal, by simp [hmask], hamounts, hprices⟩
  | some currentMin =>
      simp only
      split
      · exact ⟨rfl, rfl, htotal, by simp [hmask], hamounts, hprices⟩
      · split
        · exact ⟨rfl, by simp [hwinners], htotal, by simp [hmask], hamounts, hprices⟩
        · exact ⟨rfl, hwinners, htotal, by simp [hmask], hamounts, hprices⟩

omit [LinearOrder A] in
/-- Where the settlement takes a participant, so does the preview, and they stay alike. -/
theorem Mirrors.visit [DecidableEq A] (hmirrors : Mirrors preview scan) {user : A}
    (hvisit : scan.visit rounds roundId finalPrice user = .ok next) :
    ∃ preview', preview.visit rounds roundId finalPrice user = .ok preview' ∧
      Mirrors preview' next := by
  obtain ⟨hmin, hwinners, htotal, hmask, hamounts, hprices⟩ := hmirrors
  simp only [PrecisionScan.visit, bind_eq_ok, payoutAdd_eq_ok] at hvisit
  obtain ⟨total, ⟨rfl, hlow, hhigh⟩, hnext⟩ := hvisit
  unfold PreviewScan.visit
  cases hprediction : rounds.precisionPosition.get (roundId, user) with
  | some prediction =>
      have hstake : precisionStake rounds roundId user = prediction.amount := by
        simp [precisionStake, hprediction]
      have hprice : revealedPrice rounds roundId user = prediction.predictedPrice := by
        simp [revealedPrice, hprediction]
      rw [hstake, ← htotal] at hlow hhigh
      simp only [hprediction, hstake, hprice, pure, Except.pure, Except.ok.injEq] at hnext
      subst hnext
      dsimp only
      rw [checked_eq_ok.mpr ⟨rfl, hlow, hhigh⟩]
      refine ⟨_, rfl, Mirrors.observe ?_ prediction⟩
      exact ⟨hmin, hwinners, by simp [htotal], hmask, by simp [hamounts], by simp [hprices]⟩
  | none =>
      have hprice : revealedPrice rounds roundId user = 0 := by
        simp [revealedPrice, hprediction]
      have hstake : precisionStake rounds roundId user =
          (rounds.precisionCommitment.get (roundId, user)).elim 0 (·.amount) := by
        simp [precisionStake, hprediction]
      rw [hstake, ← htotal] at hlow hhigh
      simp only [hprediction, hstake, hprice, pure, Except.pure, Except.ok.injEq] at hnext
      subst hnext
      cases hcommitment : rounds.precisionCommitment.get (roundId, user) with
      | some commitment =>
          rw [hcommitment, Option.elim_some] at hlow hhigh
          dsimp only
          rw [checked_eq_ok.mpr ⟨rfl, hlow, hhigh⟩]
          refine ⟨_, rfl, ?_⟩
          exact ⟨hmin, hwinners, by simp [htotal], by simp [hmask], by simp [hamounts],
            by simp [hprices]⟩
      | none =>
          rw [hcommitment, Option.elim_none] at hlow hhigh
          dsimp only
          rw [checked_eq_ok.mpr ⟨rfl, hlow, hhigh⟩]
          refine ⟨_, rfl, ?_⟩
          exact ⟨hmin, hwinners, by simp [htotal], by simp [hmask], by simp [hamounts],
            by simp [hprices]⟩

omit [LinearOrder A] in
/-- Where the settlement scans the participants, so does the preview. -/
theorem Mirrors.foldlM_visit [DecidableEq A] (hmirrors : Mirrors preview scan)
    (hscan : participants.foldlM (PrecisionScan.visit rounds roundId finalPrice) scan = .ok next) :
    ∃ preview', participants.foldlM (PreviewScan.visit rounds roundId finalPrice) preview =
        .ok preview' ∧ Mirrors preview' next := by
  induction participants generalizing preview scan with
  | nil =>
      cases hscan
      exact ⟨preview, rfl, hmirrors⟩
  | cons user rest ih =>
      rw [List.foldlM_cons] at hscan
      obtain ⟨middle, hvisit, hrest⟩ := bind_eq_ok.mp hscan
      obtain ⟨preview', hvisit', hmirrors'⟩ := hmirrors.visit hvisit
      rw [List.foldlM_cons, hvisit', ok_bind]
      exact ih hmirrors' hrest

end Scan

/-! ## The outcomes of a Precision preview -/

section Outcomes

variable {rounds : Rounds A} {round : Round} {terms : Terms} {finalPrice : ℕ}
  {participants : List A}

omit [LinearOrder A] in
/-- A loop that hands the payouts to the winners one after the other gives each winner the payout
at the place among the winners. -/
theorem foldl_handOut [DecidableEq A] {wins : A → Bool} {won lost : A → ℤ → UserRoundOutcome A}
    {payouts : List ℤ} {seen rest : List A} {outcomes : List (UserRoundOutcome A)}
    (hnodup : (seen ++ rest).Nodup) :
    (rest.foldl (fun state user =>
      if wins user then
        (state.1 ++ [won user (payouts.getD state.2 0)], state.2 + 1)
      else
        (state.1 ++ [lost user 0], state.2)) (outcomes, (seen.filter wins).length)).1 =
      outcomes ++ rest.map fun user =>
        if wins user then
          won user (payouts.getD (((seen ++ rest).filter wins).idxOf user) 0)
        else lost user 0 := by
  induction rest generalizing seen outcomes with
  | nil => simp
  | cons user rest ih =>
      have hnodup' : ((seen ++ [user]) ++ rest).Nodup := by simpa using hnodup
      rw [List.foldl_cons]
      by_cases hwins : wins user = true
      · have hcount : (seen.filter wins).length + 1 = ((seen ++ [user]).filter wins).length := by
          simp [hwins]
        have hfresh : user ∉ seen.filter wins := by
          intro hmem
          have hdisjoint := List.disjoint_of_nodup_append hnodup
          exact hdisjoint (List.mem_filter.mp hmem).1 List.mem_cons_self
        have hplace : ((seen ++ user :: rest).filter wins).idxOf user =
            (seen.filter wins).length := by
          rw [List.filter_append, List.idxOf_append_of_notMem hfresh, List.filter_cons_of_pos hwins,
            List.idxOf_cons_self, Nat.add_zero]
        rw [if_pos hwins, hcount, ih hnodup', List.map_cons, if_pos hwins, hplace]
        simp
      · have hcount : (seen.filter wins).length = ((seen ++ [user]).filter wins).length := by
          simp [hwins]
        rw [if_neg hwins, hcount, ih hnodup', List.map_cons, if_neg hwins]
        simp

omit [LinearOrder A] in
/-- What a preview has seen of the participants decides what it adds for each of them. -/
theorem previewParticipant_eq {preview : PreviewScan A} {scan : PrecisionScan A} {payouts : List ℤ}
    (hmirrors : Mirrors preview scan)
    (hfinds : ScanFinds rounds round.roundId finalPrice participants scan) {entry : A × ℕ}
    (hentry : entry ∈ participants.zipIdx) (seen : List (UserRoundOutcome A) × ℕ) :
    previewParticipant preview payouts seen entry =
      if scan.winners = [] then
        (seen.1 ++ [precisionOutcome entry.1 (revealedPrice rounds round.roundId entry.1)
          (rounds.stakeOf .precision round.roundId entry.1)
          (rounds.stakeOf .precision round.roundId entry.1) .refund], seen.2)
      else if rounds.IsWinner round.roundId finalPrice participants entry.1 then
        (seen.1 ++ [precisionOutcome entry.1 (revealedPrice rounds round.roundId entry.1)
          (rounds.stakeOf .precision round.roundId entry.1) (payouts.getD seen.2 0) .win],
          seen.2 + 1)
      else
        (seen.1 ++ [precisionOutcome entry.1 (revealedPrice rounds round.roundId entry.1)
          (rounds.stakeOf .precision round.roundId entry.1) 0 .loss], seen.2) := by
  have hamount : preview.userAmounts.getD entry.2 0 =
      rounds.stakeOf .precision round.roundId entry.1 := by
    rw [hmirrors.amounts, hfinds.amounts]
    exact getD_map_of_mem_zipIdx hentry _ 0
  have hprice : (preview.preds[entry.2]?).elim 0 (·.predictedPrice) =
      revealedPrice rounds round.roundId entry.1 := by
    have hget := @getD_map_of_mem_zipIdx _ _ _ _ hentry (revealedPrice rounds round.roundId) 0
    rw [← hfinds.prices, ← hmirrors.prices, List.getD_eq_getElem?_getD, List.getElem?_map] at hget
    rw [← hget]
    cases preview.preds[entry.2]? <;> rfl
  have hmask : preview.isWinnerMask.getD entry.2 false =
      decide (rounds.IsWinner round.roundId finalPrice participants entry.1) := by
    rw [hmirrors.mask, hfinds.mask]
    exact getD_map_of_mem_zipIdx hentry _ false
  unfold previewParticipant
  simp only [hamount, hprice, hmask, hmirrors.winners, decide_eq_true_eq]

omit [LinearOrder A] in
/-- A loop over indexed items that does not look at the index is a loop over the items. -/
theorem foldl_zipIdx {β : Type} {f : β → A × ℕ → β} {g : β → A → β} {start : β}
    (hsame : ∀ entry ∈ participants.zipIdx, ∀ b, f b entry = g b entry.1) :
    participants.zipIdx.foldl f start = participants.foldl g start := by
  conv_rhs => rw [← List.zipIdx_map_fst 0 participants, List.foldl_map]
  exact List.foldl_ext _ _ _ fun b entry hentry => hsame entry hentry b

omit [LinearOrder A] in
/-- Without winners the preview refunds every participant. -/
theorem previewOutcomes_refund {preview : PreviewScan A} {scan : PrecisionScan A} {payouts : List ℤ}
    (hmirrors : Mirrors preview scan)
    (hfinds : ScanFinds rounds round.roundId finalPrice participants scan)
    (hnone : scan.winners = []) :
    (participants.zipIdx.foldl (previewParticipant preview payouts) ([], 0)).1 =
      participants.map fun user => precisionOutcome user (revealedPrice rounds round.roundId user)
        (rounds.stakeOf .precision round.roundId user)
        (rounds.stakeOf .precision round.roundId user) .refund := by
  have happend : ∀ (items : List A) (state : List (UserRoundOutcome A) × ℕ)
      (record : A → UserRoundOutcome A),
      (items.foldl (fun state user => (state.1 ++ [record user], state.2)) state).1 =
        state.1 ++ items.map record := by
    intro items
    induction items with
    | nil => simp
    | cons user rest ih =>
        intro state record
        rw [List.foldl_cons, ih, List.map_cons]
        simp
  refine Eq.trans (congrArg Prod.fst (foldl_zipIdx fun entry hentry seen => ?_))
    (happend participants ([], 0) _)
  rw [previewParticipant_eq hmirrors hfinds hentry seen, if_pos hnone]

/-- With winners the preview hands the payouts to them in order. -/
theorem previewOutcomes_winners {preview : PreviewScan A} {scan : PrecisionScan A}
    {payouts : List ℤ} (hmirrors : Mirrors preview scan)
    (hfinds : ScanFinds rounds round.roundId finalPrice participants scan)
    (hsome : scan.winners ≠ []) (hnodup : participants.Nodup) :
    (participants.zipIdx.foldl (previewParticipant preview payouts) ([], 0)).1 =
      participants.map fun user =>
        if rounds.IsWinner round.roundId finalPrice participants user then
          precisionOutcome user (revealedPrice rounds round.roundId user)
            (rounds.stakeOf .precision round.roundId user)
            (payouts.getD
              ((rounds.winners round.roundId finalPrice participants).idxOf user) 0) .win
        else
          precisionOutcome user (revealedPrice rounds round.roundId user)
            (rounds.stakeOf .precision round.roundId user) 0 .loss := by
  have hhand := @foldl_handOut _ _
    (fun user => decide (rounds.IsWinner round.roundId finalPrice participants user))
    (fun user payout => precisionOutcome user (revealedPrice rounds round.roundId user)
      (rounds.stakeOf .precision round.roundId user) payout .win)
    (fun user payout => precisionOutcome user (revealedPrice rounds round.roundId user)
      (rounds.stakeOf .precision round.roundId user) payout .loss) payouts [] participants []
    (by simpa using hnodup)
  simp only [decide_eq_true_eq] at hhand
  refine Eq.trans (congrArg Prod.fst (foldl_zipIdx fun entry hentry seen => ?_)) hhand
  rw [previewParticipant_eq hmirrors hfinds hentry seen, if_neg hsome]

omit [LinearOrder A] in
/-- The winner stakes the settlement adds up are those the preview does. -/
theorem foldl_addOrKeep {winners : List (PrecisionPrediction A)} {start total : ℤ}
    (hsum : winners.foldlM (fun total winner => payoutAdd total winner.amount) start = .ok total) :
    winners.foldl (fun total winner => addOrKeep total winner.amount) start = total := by
  induction winners generalizing start with
  | nil =>
      cases hsum
      rfl
  | cons winner rest ih =>
      rw [List.foldlM_cons] at hsum
      obtain ⟨next, hnext, hrest⟩ := bind_eq_ok.mp hsum
      obtain ⟨rfl, hlow, hhigh⟩ := payoutAdd_eq_ok.mp hnext
      rw [List.foldl_cons, addOrKeep, if_pos ⟨hlow, hhigh⟩]
      exact ih hrest

omit [LinearOrder A] in
/-- With winners the preview's split is the settlement's. -/
theorem previewPayouts_eq {policy : PrecisionPayoutPolicy} {winners : List (PrecisionPrediction A)}
    {pool : ℤ} (hne : winners ≠ []) :
    previewPayouts policy winners pool = calculatePrecisionPayouts policy winners pool := by
  unfold previewPayouts calculatePrecisionPayouts
  simp only [if_pos (List.length_pos_iff.mpr hne)]

omit [LinearOrder A] in
/-- Without winners the preview splits nothing. -/
theorem previewPayouts_nil {policy : PrecisionPayoutPolicy} :
    previewPayouts policy ([] : List (PrecisionPrediction A)) 0 = .ok [] := by
  cases policy <;> rfl

/-- Where a Precision settlement is in range, its preview is the records, the fee of its plan and
the pot. -/
theorem previewPrecision_eq {s : Storage A} (hbook : Represents s.rounds round)
    (hmode : round.mode = .precision) (hcap : FeeCapped s.control.settings.protocolFeeBps)
    (hcomputes : Computes s.control.settings.terms s.rounds round finalPrice) :
    previewPrecision s round finalPrice (sortAddresses (s.rounds.participants round.roundId)) =
      .ok ((sortAddresses (s.rounds.participants round.roundId)).map
          (s.control.settings.terms.recordOf s.rounds round finalPrice),
        (s.control.settings.terms.plan s.rounds round finalPrice).fee,
        s.rounds.totalStake .precision round.roundId) := by
  unfold Computes at hcomputes
  simp only [hmode] at hcomputes
  obtain ⟨scan, hscan, hwon⟩ := hcomputes
  have hfinds := scanPredictions_spec hscan
  have hstart : Mirrors (⟨none, [], 0, [], [], []⟩ : PreviewScan A) .start :=
    ⟨rfl, rfl, rfl, rfl, rfl, rfl⟩
  obtain ⟨preview, hpreview, hmirrors⟩ := hstart.foldlM_visit hscan
  have hsum : preview.totalPot = s.rounds.totalStake .precision round.roundId := by
    rw [hmirrors.totalPot, hfinds.totalPot]
    exact ((sortAddresses_perm _).map _).sum_eq
  have hnodup : (sortAddresses (s.rounds.participants round.roundId)).Nodup :=
    (sortAddresses_perm _).nodup_iff.mpr hbook.nodup
  unfold previewPrecision
  rw [hpreview, ok_bind]
  by_cases hnone : scan.winners = []
  · have hwinners : s.rounds.winners round.roundId finalPrice
        (sortAddresses (s.rounds.participants round.roundId)) = [] := by
      have hamounts := (hbook.precision hmode).winner_amounts hfinds
      rw [hnone] at hamounts
      exact List.map_eq_nil_iff.mp hamounts.symm
    have hfee : previewFee s.control.settings preview = .ok (0, 0) := by
      rw [previewFee, if_neg fun h => h.1 (hmirrors.winners.trans hnone)]
      rfl
    rw [hfee, ok_bind, hmirrors.winners, hnone, previewPayouts_nil, ok_bind]
    simp only [previewOutcomes_refund hmirrors hfinds hnone, hsum]
    refine congrArg Except.ok (Prod.ext ?_ (Prod.ext ?_ rfl))
    · refine List.map_congr_left fun user huser => ?_
      -- nobody revealed a prediction, or someone would be closest
      have hprice : revealedPrice s.rounds round.roundId user = 0 := by
        cases hprediction : s.rounds.precisionPosition.get (round.roundId, user) with
        | none => simp [revealedPrice, hprediction]
        | some prediction =>
            exact absurd hwinners (sortedWinners_ne_nil
              ⟨user, mem_sortAddresses.mp huser, prediction, hprediction⟩)
      simp only [Terms.recordOf, hmode, Terms.precisionRecord, if_pos hwinners, hprice]
      rfl
    · simp [Terms.plan, hmode, Terms.precisionPlan, hwinners]
  · obtain ⟨stakes, fee, payouts, hstakes, hfee, hpayouts⟩ := hwon hnone
    obtain rfl := winnerStakes_eq_ok hstakes
    have hamounts := (hbook.precision hmode).winner_amounts hfinds
    have hwinners : s.rounds.winners round.roundId finalPrice
        (sortAddresses (s.rounds.participants round.roundId)) ≠ [] := by
      intro hempty
      rw [hempty] at hamounts
      exact hnone (List.map_eq_nil_iff.mp hamounts)
    have hstaked : ∀ user ∈ sortAddresses (s.rounds.participants round.roundId),
        0 < s.rounds.stakeOf .precision round.roundId user := by
      intro user huser
      have hstake := hbook.stake_pos (mem_sortAddresses.mp huser)
      rwa [hmode] at hstake
    have hpositive : ∀ winner ∈ scan.winners, 0 < winner.amount := by
      intro winner hwinner
      have hmem := List.mem_map_of_mem (f := fun winner => winner.amount) hwinner
      rw [hamounts] at hmem
      obtain ⟨user, huser, hstake⟩ := List.mem_map.mp hmem
      rw [← hstake]
      exact hstaked user (List.mem_filter.mp huser).1
    have hle : (scan.winners.map (·.amount)).sum ≤ scan.totalPot := by
      rw [hamounts, hfinds.totalPot]
      exact stakesOf_winners_le hstaked
    have hwon : 0 < (scan.winners.map (·.amount)).sum :=
      List.sum_pos _ (List.forall_mem_map.mpr hpositive) (by simpa using hnone)
    have hpot : 0 < scan.totalPot := hwon.trans_le hle
    obtain ⟨htaken, hleft⟩ := @calculateProtocolFeePrecision_spec s.control.settings.terms _ _ _
      hpot hle hfee
    have hbounds := @Terms.precisionFee_bounds s.control.settings.terms hcap _ _ hwon.le hle
    have hpaid := calculatePrecisionPayouts_spec hnone hpositive (by omega) hpayouts
    have hwinnerPayouts : payouts = s.control.settings.terms.winnerPayouts s.rounds round finalPrice
        (sortAddresses (s.rounds.participants round.roundId)) := by
      rw [hpaid, hleft, hamounts, hfinds.totalPot]
      rfl
    have hpreviewFee : previewFee s.control.settings preview = .ok fee := by
      rw [previewFee, hmirrors.winners, hmirrors.totalPot, if_pos ⟨hnone, hpot⟩]
      simp only [foldl_addOrKeep hstakes]
      exact hfee
    rw [hpreviewFee, ok_bind, hmirrors.winners, previewPayouts_eq hnone]
    refine (congrArg (· >>= _) hpayouts).trans ?_
    rw [ok_bind]
    simp only [previewOutcomes_winners hmirrors hfinds hnone hnodup, hsum]
    refine congrArg Except.ok (Prod.ext ?_ (Prod.ext ?_ rfl))
    · refine List.map_congr_left fun user _ => ?_
      simp only [Terms.recordOf, hmode, Terms.precisionRecord, if_neg hwinners, hwinnerPayouts]
      rfl
    · rw [htaken, hamounts, hfinds.totalPot]
      simp [Terms.plan, hmode, Terms.precisionPlan, hwinners, Rounds.stakesOf]

end Outcomes

/-! ## Preview and settlement -/

/-- A preview announces what a settlement does: one outcome for each participant, the persisted
record, whose payout is credited, and the fee the treasury and the fund receive. -/
structure Previews (s s' : Storage A) (round : Round) (result : SimulationResult A) : Prop where
  users : result.outcomes.map (·.user) = sortAddresses (s.rounds.participants round.roundId)
  nodup : (result.outcomes.map (·.user)).Nodup
  recorded : ∀ outcome ∈ result.outcomes,
    s'.userRoundOutcome.get (round.roundId, outcome.user) = some outcome
  credited : ∀ outcome ∈ result.outcomes,
    s'.vault.pendingOf outcome.user = s.vault.pendingOf outcome.user + outcome.payout
  fee : s'.vault.treasury + s'.vault.insuranceFund =
    s.vault.treasury + s.vault.insuranceFund + result.feeAmount

/-- Where the settlement of the active round is in range, its preview succeeds with the records and
the fee of the plan. -/
theorem simulatePayout_eq {s : Storage A} {round : Round} {finalPrice : ℕ}
    (hactive : s.rounds.activeRound = some round) (hbook : Represents s.rounds round)
    (hcap : FeeCapped s.control.settings.protocolFeeBps)
    (hcomputes : Computes s.control.settings.terms s.rounds round finalPrice) :
    ∃ result, simulatePayout s finalPrice = .ok result ∧
      result.outcomes = (sortAddresses (s.rounds.participants round.roundId)).map
        (s.control.settings.terms.recordOf s.rounds round finalPrice) ∧
      result.feeAmount = (s.control.settings.terms.plan s.rounds round finalPrice).fee := by
  unfold simulatePayout
  simp only [hactive]
  cases hmode : round.mode with
  | upDown =>
      simp only [previewUpDown_eq hbook hmode hcomputes]
      exact ⟨_, rfl, rfl, rfl⟩
  | precision =>
      simp only [previewPrecision_eq hbook hmode hcap hcomputes]
      exact ⟨_, rfl, rfl, rfl⟩

section Settled

variable {s s' : Storage A} {ledger : ℕ} {ending : Ending} {finalPrice : ℕ}

/-- What the records and the fee of a plan announce is what its settlement does. -/
theorem Ends.previews (hends : Ends ledger ending s s') (hbook : Represents s.rounds ending.round)
    (hcap : FeeCapped s.control.settings.protocolFeeBps)
    (hnew : ∀ user ∈ s.rounds.participants ending.round.roundId,
      s.userRoundOutcome.get (ending.round.roundId, user) = none)
    (hprice : ending.kind.price = some finalPrice) {result : SimulationResult A}
    (houtcomes : result.outcomes =
      (sortAddresses (s.rounds.participants ending.round.roundId)).map
        (s.control.settings.terms.recordOf s.rounds ending.round finalPrice))
    (hfee : result.feeAmount =
      (s.control.settings.terms.plan s.rounds ending.round finalPrice).fee) :
    Previews s s' ending.round result := by
  have hplan := @Ending.plan_of_price _ _ s.rounds s.control.settings.terms _ _ hprice
  have hkind : ∀ reason, ending.kind ≠ .cancelled reason := by
    intro reason hkind
    rw [hkind] at hprice
    cases hprice
  have husers : result.outcomes.map (·.user) =
      sortAddresses (s.rounds.participants ending.round.roundId) := by
    rw [houtcomes, List.map_map]
    exact (List.map_congr_left fun user _ => recordOf_user).trans (List.map_id _)
  have hrecord : ∀ outcome ∈ result.outcomes,
      outcome ∈ (ending.plan s.control.settings.terms s.rounds).records := by
    intro outcome houtcome
    rw [houtcomes] at houtcome
    obtain ⟨user, huser, rfl⟩ := List.mem_map.mp houtcome
    rw [hplan]
    exact recordOf_mem (mem_sortAddresses.mp huser)
  constructor
  · exact husers
  · rw [husers]
    exact (sortAddresses_perm _).nodup_iff.mpr hbook.nodup
  · exact fun outcome houtcome => hends.outcome_of_mem hbook hcap hnew (hrecord outcome houtcome)
  · intro outcome houtcome
    rw [hends.pendingOf_of_mem hbook hcap (hrecord outcome houtcome), coverageOf_eq_zero hkind,
      add_zero]
  · rw [hends.collected hbook hcap, coveragePaid_of_price hprice, hplan, hfee, sub_zero]

end Settled

/-- In every reachable chain with an active round, no dispute window and enough participants,
whenever a settlement of the round at a price succeeds, its preview at that price succeeds in the
same storage and announces what the settlement does. -/
theorem preview_equals_settlement {host : Host A} {chain chain' : Chain A} {signers : List A}
    {call : Call A} {round : Round} {finalPrice : ℕ} (hreachable : Reachable host chain)
    (hactive : chain.storage.rounds.activeRound = some round)
    (hwindow : chain.storage.control.settings.getDisputeLedgers = 0)
    (hminimum : chain.storage.control.settings.belowMinimum
      (chain.storage.rounds.participants round.roundId).length = false)
    (hprice : call.price = some finalPrice)
    (hstep : Step host chain (.invoke signers call) chain') :
    ∃ result, simulatePayout chain.storage finalPrice = .ok result ∧
      Previews chain.storage chain'.storage round result := by
  have hresolution : chain.storage.resolution finalPrice = some ⟨round, .resolved finalPrice⟩ := by
    simp [Storage.resolution, hactive, hminimum, hwindow]
  have hending : call.ending chain.storage = some ⟨round, .resolved finalPrice⟩ :=
    (Call.ending_of_price hprice).trans hresolution
  have hhealthy : chain.storage.Healthy chain.ledger.sequence := hreachable.healthy
  have hlive := (Call.endsBy hending).live hhealthy.ordered
  have hbook := (hhealthy.ordered.live _ _ hlive).2
  have hcomputes := Chain.Healthy.computes hreachable.healthy hstep hending rfl
  obtain ⟨result, hresult, houtcomes, hfee⟩ := simulatePayout_eq hactive hbook
    hhealthy.fee_capped hcomputes
  exact ⟨result, hresult, (hreachable.ends hstep hending).previews hbook hhealthy.fee_capped
    (hhealthy.recorded.unrecorded _ _ hlive) rfl houtcomes hfee⟩

/-- The preview of the trial Precision round at 1000 is its settlement. -/
theorem preview_equals_settlement_precision : ∃ chain chain' : Chain ℕ, ∃ round result,
    chain.storage.rounds.activeRound = some round ∧
      Step trialHost chain (.invoke [2] (.resolveRound (trialPayload 1 1000 100))) chain' ∧
      simulatePayout chain.storage 1000 = .ok result ∧
      Previews chain.storage chain'.storage round result := by
  obtain ⟨trace, chain, chain', hhistory, hfits⟩ := exists_trial precisionRound
    (.invoke [2] (.resolveRound (trialPayload 1 1000 100)))
    (fun chain _ => decide (chain.storage.rounds.activeRound.any fun round =>
      chain.storage.control.settings.getDisputeLedgers = 0 ∧
      chain.storage.control.settings.belowMinimum
        (chain.storage.rounds.participants round.roundId).length = false)) (by decide +kernel)
  obtain ⟨round, hactive, hfits⟩ := (Option.any_eq_true _ _).mp (of_decide_eq_true hfits)
  obtain ⟨hwindow, hminimum⟩ := of_decide_eq_true hfits
  obtain ⟨result, hresult, hpreviews⟩ := preview_equals_settlement hhistory.last.1 hactive hwindow
    hminimum rfl hhistory.last.2
  exact ⟨chain, chain', round, result, hactive, hhistory.last.2, hresult, hpreviews⟩

end XelmaMarket
