import XelmaMarket.Payout

/-!
# The Precision settlement carries out its plan

The one pass over the participants is a search for the closest predictions, so its winners and its
mask are those of the plan. Fee, split, remainder and the two loops that follow are then the
plan's.
-/

namespace XelmaMarket

open Transaction

variable {A : Type}

/-! ## The scan -/

/-- How far a prediction is from the final price. -/
def PrecisionPrediction.distance (finalPrice : ℕ) (prediction : PrecisionPrediction A) : ℕ :=
  priceDistance prediction.predictedPrice finalPrice

/-- The part of the scan that searches for the closest predictions. -/
def PrecisionScan.closest (scan : PrecisionScan A) : ClosestScan (PrecisionPrediction A) :=
  ⟨scan.minDiff, scan.winners, scan.isWinnerMask⟩

/-- The predictions of some participants, in order. -/
def Rounds.slots (rounds : Rounds A) (roundId : ℕ) (participants : List A) :
    List (Option (PrecisionPrediction A)) :=
  participants.map fun user => rounds.precisionPosition.get (roundId, user)

section Lists

variable {α β γ : Type}

/-- Entries paired with their index find what a map over the same list put there. -/
theorem getD_map_of_mem_zipIdx {items : List α} {entry : α × ℕ} (hmem : entry ∈ items.zipIdx)
    (f : α → β) (default : β) : (items.map f).getD entry.2 default = f entry.1 := by
  have hget := List.mem_zipIdx_iff_getElem?.mp hmem
  simp [List.getD, hget]

theorem flatMap_zipIdx (items : List α) (f : α → List β) :
    items.zipIdx.flatMap (fun entry => f entry.1) = items.flatMap f := by
  have h := List.flatMap_map (l := items.zipIdx) (f := Prod.fst) (g := f)
  rw [List.zipIdx_map_fst] at h
  exact h.symm

/-- Items mapped with their index into another list of the same length. -/
theorem map_zipIdx_getD (items : List α) (values : List β) (default : β) (f : α → β → γ)
    (hlength : items.length = values.length) :
    items.zipIdx.map (fun entry => f entry.1 (values.getD entry.2 default)) =
      List.zipWith f items values := by
  refine List.ext_getElem (by simp [hlength]) fun i hi hi' => ?_
  have hvalues : i < values.length := by
    simp only [List.length_zipWith] at hi'
    omega
  simp [List.getD, hvalues]

theorem filterMap_map_eq {items : List α} {f : α → Option β} {g : β → γ} {h : α → γ}
    (hsome : ∀ a ∈ items, ∃ b, f a = some b ∧ g b = h a) :
    (items.filterMap f).map g = items.map h := by
  induction items with
  | nil => rfl
  | cons a rest ih =>
      obtain ⟨b, hb, hgb⟩ := hsome a (by simp)
      rw [List.filterMap_cons_some hb, List.map_cons, List.map_cons, hgb,
        ih fun a' ha' => hsome a' (List.mem_cons_of_mem _ ha')]

theorem reduceOption_map_filter (items : List α) (f : α → Option β) (p : β → Bool) :
    (items.map f).reduceOption.filter p =
      (items.filter fun a => (f a).any p).filterMap f := by
  induction items with
  | nil => rfl
  | cons a rest ih =>
      cases hfa : f a with
      | none => simp [hfa, ih]
      | some b => by_cases hp : p b <;> simp [hfa, hp, ih]

end Lists

section Scan

variable {rounds : Rounds A} {roundId finalPrice : ℕ}

/-- The scan observes a prediction as the search does. -/
theorem PrecisionScan.observe_closest (scan : PrecisionScan A)
    (prediction : PrecisionPrediction A) :
    (scan.observe prediction finalPrice).closest =
      scan.closest.observe (PrecisionPrediction.distance finalPrice) prediction := by
  unfold PrecisionScan.observe ClosestScan.observe PrecisionPrediction.distance
  cases hleast : scan.minDiff with
  | none => simp [PrecisionScan.closest, hleast]
  | some least =>
      simp only [PrecisionScan.closest, hleast]
      split
      · rfl
      · split <;> simp_all

theorem PrecisionScan.observe_rest (scan : PrecisionScan A)
    (prediction : PrecisionPrediction A) :
    (scan.observe prediction finalPrice).amounts = scan.amounts ∧
      (scan.observe prediction finalPrice).prices = scan.prices ∧
      (scan.observe prediction finalPrice).totalPot = scan.totalPot := by
  unfold PrecisionScan.observe
  cases hleast : scan.minDiff with
  | none => exact ⟨rfl, rfl, rfl⟩
  | some least =>
      simp only
      split
      · exact ⟨rfl, rfl, rfl⟩
      · split <;> exact ⟨rfl, rfl, rfl⟩

/-- One turn of the scan takes the participant's prediction into the search. -/
theorem PrecisionScan.visit_spec {scan next : PrecisionScan A} {user : A}
    (hvisit : scan.visit rounds roundId finalPrice user = .ok next) :
    next.closest = scan.closest.step (PrecisionPrediction.distance finalPrice)
        (rounds.precisionPosition.get (roundId, user)) ∧
      next.amounts = scan.amounts ++ [rounds.stakeOf .precision roundId user] ∧
      next.prices = scan.prices ++ [revealedPrice rounds roundId user] ∧
      next.totalPot = scan.totalPot + rounds.stakeOf .precision roundId user := by
  simp only [PrecisionScan.visit, bind_eq_ok, payoutAdd_eq_ok] at hvisit
  obtain ⟨total, ⟨rfl, -, -⟩, hnext⟩ := hvisit
  cases hprediction : rounds.precisionPosition.get (roundId, user) with
  | none =>
      simp only [hprediction, pure, Except.pure, Except.ok.injEq] at hnext
      subst hnext
      exact ⟨rfl, rfl, rfl, rfl⟩
  | some prediction =>
      simp only [hprediction, pure, Except.pure, Except.ok.injEq] at hnext
      subst hnext
      obtain ⟨hamounts, hprices, htotal⟩ := (@PrecisionScan.observe_rest _ finalPrice)
        { scan with
          totalPot := scan.totalPot + precisionStake rounds roundId user
          amounts := scan.amounts ++ [precisionStake rounds roundId user]
          prices := scan.prices ++ [revealedPrice rounds roundId user]
          revealed := scan.revealed ++ [true] } prediction
      exact ⟨PrecisionScan.observe_closest _ _, hamounts, hprices, htotal⟩

/-- The scan is the search over the participants' predictions, and collects what the loops after
it read. -/
theorem foldlM_visit_spec {scan last : PrecisionScan A} {participants : List A}
    (hscan : participants.foldlM (PrecisionScan.visit rounds roundId finalPrice) scan = .ok last) :
    last.closest = (rounds.slots roundId participants).foldl
        (ClosestScan.step (PrecisionPrediction.distance finalPrice)) scan.closest ∧
      last.amounts = scan.amounts ++ participants.map (rounds.stakeOf .precision roundId) ∧
      last.prices = scan.prices ++ participants.map (revealedPrice rounds roundId) ∧
      last.totalPot =
        scan.totalPot + (participants.map (rounds.stakeOf .precision roundId)).sum := by
  induction participants generalizing scan with
  | nil =>
      cases hscan
      simp [Rounds.slots]
  | cons user rest ih =>
      rw [List.foldlM_cons] at hscan
      obtain ⟨next, hvisit, hrest⟩ := bind_eq_ok.mp hscan
      obtain ⟨hclosest, hamounts, hprices, htotal⟩ := PrecisionScan.visit_spec hvisit
      obtain ⟨ihclosest, ihamounts, ihprices, ihtotal⟩ := ih hrest
      refine ⟨?_, ?_, ?_, ?_⟩
      · rw [ihclosest, hclosest]
        rfl
      · simp [ihamounts, hamounts]
      · simp [ihprices, hprices]
      · simp [ihtotal, htotal, add_assoc]

/-- What the scan of a Precision round has found at its end. -/
structure ScanFinds (rounds : Rounds A) (roundId finalPrice : ℕ) (participants : List A)
    (scan : PrecisionScan A) : Prop where
  winners : scan.winners =
    (rounds.winners roundId finalPrice participants).filterMap fun user =>
      rounds.precisionPosition.get (roundId, user)
  mask : scan.isWinnerMask =
    participants.map fun user => decide (rounds.IsWinner roundId finalPrice participants user)
  amounts : scan.amounts = participants.map (rounds.stakeOf .precision roundId)
  prices : scan.prices = participants.map (revealedPrice rounds roundId)
  totalPot : scan.totalPot = (participants.map (rounds.stakeOf .precision roundId)).sum

/-- A participant wins exactly when the prediction is a closest one. -/
theorem isWinner_iff {participants : List A} {user : A} :
    rounds.IsWinner roundId finalPrice participants user ↔
      ((rounds.precisionPosition.get (roundId, user)).any fun prediction =>
        decide (ClosestScan.IsClosest (PrecisionPrediction.distance finalPrice)
          (rounds.slots roundId participants) prediction)) = true := by
  have hclosest : ∀ prediction : PrecisionPrediction A,
      ClosestScan.IsClosest (PrecisionPrediction.distance finalPrice)
          (rounds.slots roundId participants) prediction ↔
        ∀ other ∈ participants, ∀ rival ∈ rounds.precisionPosition.get (roundId, other),
          priceDistance prediction.predictedPrice finalPrice ≤
            priceDistance rival.predictedPrice finalPrice := by
    intro prediction
    unfold ClosestScan.IsClosest Rounds.slots
    constructor
    · intro h other hother rival hrival
      exact h rival (List.mem_map.mpr ⟨other, hother, hrival⟩)
    · intro h rival hrival
      obtain ⟨other, hother, hget⟩ := List.mem_map.mp hrival
      exact h other hother rival hget
  cases hprediction : rounds.precisionPosition.get (roundId, user) with
  | none => simp [Rounds.IsWinner, hprediction]
  | some prediction =>
      simp only [Option.any_some, decide_eq_true_eq, hclosest]
      simp [Rounds.IsWinner, hprediction]

theorem scanPredictions_spec {participants : List A} {scan : PrecisionScan A}
    (hscan : scanPredictions rounds roundId finalPrice participants = .ok scan) :
    ScanFinds rounds roundId finalPrice participants scan := by
  obtain ⟨hclosest, hamounts, hprices, htotal⟩ := foldlM_visit_spec hscan
  have hrun : scan.closest =
      ClosestScan.run (PrecisionPrediction.distance finalPrice)
        (rounds.slots roundId participants) := hclosest
  constructor
  · have hwinners : scan.winners = (ClosestScan.run (PrecisionPrediction.distance finalPrice)
        (rounds.slots roundId participants)).winners := congrArg ClosestScan.winners hrun
    rw [hwinners, ClosestScan.winners_run]
    refine (reduceOption_map_filter participants _ _).trans ?_
    unfold Rounds.winners
    congr 1
    refine List.filter_congr fun user _ => ?_
    rw [← Bool.coe_iff_coe, decide_eq_true_iff]
    exact isWinner_iff.symm
  · have hmask : scan.isWinnerMask = (ClosestScan.run (PrecisionPrediction.distance finalPrice)
        (rounds.slots roundId participants)).mask := congrArg ClosestScan.mask hrun
    rw [hmask, ClosestScan.mask_run, Rounds.slots, List.map_map]
    refine List.map_congr_left fun user _ => ?_
    rw [← Bool.coe_iff_coe, decide_eq_true_iff]
    exact isWinner_iff.symm
  · simpa [PrecisionScan.start] using hamounts
  · simpa [PrecisionScan.start] using hprices
  · simpa [PrecisionScan.start] using htotal

end Scan

section Winners

variable {rounds : Rounds A} {round : Round} {finalPrice : ℕ} {participants : List A}

/-- A winner holds a prediction, of the winner's stake and revealed price. -/
theorem PrecisionBook.prediction_of_winner (hbook : PrecisionBook rounds round) {user : A}
    (hwinner : user ∈ rounds.winners round.roundId finalPrice participants) :
    ∃ prediction, rounds.precisionPosition.get (round.roundId, user) = some prediction ∧
      prediction.user = user ∧
      prediction.amount = rounds.stakeOf .precision round.roundId user ∧
      prediction.predictedPrice = revealedPrice rounds round.roundId user := by
  obtain ⟨-, hwins⟩ := List.mem_filter.mp hwinner
  obtain ⟨prediction, hprediction, -⟩ := of_decide_eq_true hwins
  have hget : rounds.precisionPosition.get (round.roundId, user) = some prediction := hprediction
  refine ⟨prediction, hget, (hbook.prediction_pos user prediction hget).1, ?_, ?_⟩
  · simp [Rounds.stakeOf, precisionStake, hget]
  · simp [revealedPrice, hget]

/-- The amounts of the winning predictions are the winners' stakes. -/
theorem PrecisionBook.winner_amounts (hbook : PrecisionBook rounds round)
    {scan : PrecisionScan A} (hscan : ScanFinds rounds round.roundId finalPrice participants scan) :
    scan.winners.map (·.amount) =
      (rounds.winners round.roundId finalPrice participants).map
        (rounds.stakeOf .precision round.roundId) := by
  rw [hscan.winners]
  refine filterMap_map_eq fun user huser => ?_
  obtain ⟨prediction, hget, -, hamount, -⟩ := hbook.prediction_of_winner huser
  exact ⟨prediction, hget, hamount⟩

end Winners

/-! ## Fee and split -/

/-- The sum of the winners' stakes. -/
theorem winnerStakes_eq_ok {winners : List (PrecisionPrediction A)} {total : ℤ}
    (hstakes : winnerStakes winners = .ok total) : total = (winners.map (·.amount)).sum := by
  have hfold : ∀ (start : ℤ), winners.foldlM
      (fun total (winner : PrecisionPrediction A) => payoutAdd total winner.amount) start =
        .ok total → total = start + (winners.map (·.amount)).sum := by
    clear hstakes
    induction winners with
    | nil =>
        intro start h
        cases h
        simp
    | cons winner rest ih =>
        intro start h
        rw [List.foldlM_cons] at h
        obtain ⟨next, hnext, hrest⟩ := bind_eq_ok.mp h
        rw [payoutAdd_eq_ok] at hnext
        have := ih next hrest
        rw [List.map_cons, List.sum_cons]
        omega
  simpa using hfold 0 hstakes

/-- The fee the code calculates for a Precision settlement is the fee of the plan. -/
theorem calculateProtocolFeePrecision_spec {terms : Terms} {pot stakes : ℤ} {dist : ℤ × ℤ}
    (hpot : 0 < pot) (hstakes : stakes ≤ pot)
    (hfee : calculateProtocolFeePrecision terms.protocolFeeBps terms.feeModel pot stakes =
      .ok dist) :
    dist.2 = terms.precisionFee pot stakes ∧ dist.1 = pot - terms.precisionFee pot stakes := by
  cases hbps : terms.protocolFeeBps with
  | none =>
      simp only [hbps, calculateProtocolFeePrecision, pure, Except.pure, Except.ok.injEq] at hfee
      subst hfee
      cases hmodel : terms.feeModel <;> simp [Terms.precisionFee, hmodel, hbps, rateOf]
  | some rate =>
      simp only [hbps, calculateProtocolFeePrecision, if_neg (not_le.mpr hpot), bind_eq_ok] at hfee
      obtain ⟨base, hbase, hrest⟩ := hfee
      have hplan : terms.precisionFee pot stakes = rateOf (some rate) base := by
        cases hmodel : terms.feeModel with
        | feeOnPot =>
            simp only [hmodel, precisionTaxableBase, pure, Except.pure, Except.ok.injEq] at hbase
            simp [Terms.precisionFee, hmodel, hbps, hbase]
        | feeOnWinnings =>
            simp only [hmodel, precisionTaxableBase, checked_eq_ok] at hbase
            simp [Terms.precisionFee, hmodel, hbps, hbase.1]
      have hbaseNonneg : 0 ≤ base := by
        cases hmodel : terms.feeModel with
        | feeOnPot =>
            simp only [hmodel, precisionTaxableBase, pure, Except.pure, Except.ok.injEq] at hbase
            omega
        | feeOnWinnings =>
            simp only [hmodel, precisionTaxableBase, checked_eq_ok] at hbase
            omega
      rw [hplan]
      split at hrest
      · next hzero =>
          have : base = 0 := by omega
          simp only [pure, Except.pure, Except.ok.injEq] at hrest
          subst hrest
          simp [rateOf, this]
      · simp only [bind_eq_ok, checked_eq_ok, divide_eq_ok] at hrest
        obtain ⟨product, ⟨rfl, -, -⟩, fee, ⟨hdiv, -, -, -⟩, hrest⟩ := hrest
        rw [Int.tdiv_eq_ediv_of_nonneg (mul_nonneg hbaseNonneg (by omega))] at hdiv
        have hrate : rateOf (some rate) base = fee := hdiv
        rw [hrate]
        split at hrest
        · next hzero =>
            simp only [pure, Except.pure, Except.ok.injEq] at hrest
            subst hrest
            exact ⟨hzero.symm, by simp only; omega⟩
        · simp only [bind_eq_ok, checked_eq_ok, pure, Except.pure, Except.ok.injEq] at hrest
          obtain ⟨left, ⟨rfl, -, -⟩, rfl⟩ := hrest
          exact ⟨rfl, rfl⟩

/-- The fee of a Precision settlement is between 0 and a tenth of the pot. -/
theorem Terms.precisionFee_bounds {terms : Terms} (hcap : FeeCapped terms.protocolFeeBps)
    {pot stakes : ℤ} (hstakes : 0 ≤ stakes) (hpot : stakes ≤ pot) :
    0 ≤ terms.precisionFee pot stakes ∧ 10 * terms.precisionFee pot stakes ≤ pot := by
  unfold Terms.precisionFee
  cases terms.feeModel with
  | feeOnPot =>
      have hbase : 0 ≤ pot := by omega
      exact ⟨rateOf_nonneg hbase, rateOf_le hcap hbase⟩
  | feeOnWinnings =>
      have hbase : 0 ≤ pot - stakes := by omega
      exact ⟨rateOf_nonneg hbase, (rateOf_le hcap hbase).trans (by omega)⟩

/-- A loop that pushes one payout for each winner pushes their shares and adds them up. -/
theorem foldlM_pay {winners : List (PrecisionPrediction A)}
    {pay : List ℤ × ℤ → PrecisionPrediction A → Except Failure (List ℤ × ℤ)}
    {share : PrecisionPrediction A → ℤ}
    (hpay : ∀ winner ∈ winners, ∀ paid next, pay paid winner = .ok next →
      next = (paid.1 ++ [share winner], paid.2 + share winner))
    {start paid : List ℤ × ℤ} (hfold : winners.foldlM pay start = .ok paid) :
    paid = (start.1 ++ winners.map share, start.2 + (winners.map share).sum) := by
  induction winners generalizing start with
  | nil =>
      cases hfold
      simp
  | cons winner rest ih =>
      rw [List.foldlM_cons] at hfold
      obtain ⟨next, hnext, hrest⟩ := bind_eq_ok.mp hfold
      obtain rfl := hpay winner (by simp) start next hnext
      rw [ih (fun other hother => hpay other (List.mem_cons_of_mem _ hother)) hrest]
      simp [add_assoc]

theorem payOne_eq_ok {paid next : List ℤ × ℤ} {payout : ℤ}
    (hpay : payOne paid payout = .ok next) : next = (paid.1 ++ [payout], paid.2 + payout) := by
  simp only [payOne, bind_eq_ok, payoutAdd_eq_ok, pure, Except.pure, Except.ok.injEq] at hpay
  obtain ⟨total, ⟨rfl, -, -⟩, rfl⟩ := hpay
  rfl

/-- The split the code computes is the shares of the policy, with their sum. -/
theorem splitPool_spec {policy : PrecisionPayoutPolicy} {winners : List (PrecisionPrediction A)}
    {pool : ℤ} {paid : List ℤ × ℤ} (hne : winners ≠ [])
    (hpos : ∀ winner ∈ winners, 0 < winner.amount) (hpool : 0 ≤ pool)
    (hsplit : splitPool policy winners pool = .ok paid) :
    paid.1 = policy.shares pool (winners.map (·.amount)) ∧ paid.2 = paid.1.sum := by
  cases policy with
  | equal =>
      have hlength : winners.length > 0 := List.length_pos_iff.mpr hne
      simp only [splitPool, equalPayouts, if_pos hlength, bind_eq_ok, divide_eq_ok] at hsplit
      obtain ⟨perWinner, ⟨hdiv, -, -, -⟩, hfold⟩ := hsplit
      rw [Int.tdiv_eq_ediv_of_nonneg hpool] at hdiv
      have hpaid := (@foldlM_pay _ _ _ (fun _ => perWinner))
        (fun _ _ _ _ hpay => payOne_eq_ok hpay) hfold
      rw [hpaid]
      refine ⟨?_, by simp⟩
      simp only [List.nil_append, PrecisionPayoutPolicy.shares, List.map_map, List.length_map]
      exact List.map_congr_left fun _ _ => hdiv.symm
  | stakeWeighted =>
      simp only [splitPool, stakeWeightedPayouts, bind_eq_ok] at hsplit
      obtain ⟨total, htotal, hrest⟩ := hsplit
      obtain rfl := winnerStakes_eq_ok htotal
      have hsum : (winners.map (·.amount)).sum > 0 := by
        refine List.sum_pos _ ?_ (by simpa using hne)
        intro x hx
        obtain ⟨winner, hmem, rfl⟩ := List.mem_map.mp hx
        exact hpos winner hmem
      rw [if_pos hsum] at hrest
      generalize hall : (winners.map fun winner => winner.amount).sum = total at *
      have hpay : ∀ winner ∈ winners, ∀ paid next,
          (do
            let product ← payoutMul winner.amount pool
            let payout ← divide product total
            payOne paid payout) = .ok next →
          next = (paid.1 ++ [Apportion.share pool total winner.amount],
            paid.2 + Apportion.share pool total winner.amount) := by
        intro winner hmem paid next hnext
        simp only [bind_eq_ok, payoutMul_eq_ok, divide_eq_ok] at hnext
        obtain ⟨product, ⟨rfl, -, -⟩, payout, ⟨hdiv, -, -, -⟩, hpay⟩ := hnext
        rw [Int.tdiv_eq_ediv_of_nonneg (mul_nonneg (hpos winner hmem).le hpool)] at hdiv
        rw [payOne_eq_ok hpay, ← hdiv]
        rfl
      rw [foldlM_pay hpay hrest]
      refine ⟨?_, by simp⟩
      simp [PrecisionPayoutPolicy.shares, PrecisionPayoutPolicy.share, Function.comp_def, hall]

/-- The payouts the code computes are those of the policy. -/
theorem calculatePrecisionPayouts_spec {policy : PrecisionPayoutPolicy}
    {winners : List (PrecisionPrediction A)} {pool : ℤ} {payouts : List ℤ} (hne : winners ≠ [])
    (hpos : ∀ winner ∈ winners, 0 < winner.amount) (hpool : 0 ≤ pool)
    (hpayouts : calculatePrecisionPayouts policy winners pool = .ok payouts) :
    payouts = policy.payouts pool (winners.map (·.amount)) := by
  simp only [calculatePrecisionPayouts, bind_eq_ok, checked_eq_ok] at hpayouts
  obtain ⟨paid, hsplit, remainder, ⟨rfl, -, -⟩, hgive⟩ := hpayouts
  obtain ⟨hshares, htotal⟩ := splitPool_spec hne hpos hpool hsplit
  rw [PrecisionPayoutPolicy.payouts, ← hshares]
  rw [htotal] at hgive
  cases hpaid : paid.1 with
  | nil =>
      rw [hpaid] at hgive
      cases hgive
      rfl
  | cons first rest =>
      simp only [hpaid, giveRemainder, bind_eq_ok, payoutAdd_eq_ok, pure, Except.pure,
        Except.ok.injEq] at hgive
      obtain ⟨adjusted, ⟨rfl, -, -⟩, rfl⟩ := hgive
      rfl

/-! ## The records of the loops -/

section Records

variable {rounds : Rounds A} {round : Round} {finalPrice : ℕ} {participants : List A}
  {scan : PrecisionScan A}

/-- The records the loop over the winners settles are the records of the winners. -/
theorem winRecords_eq (hbook : PrecisionBook rounds round)
    (hscan : ScanFinds rounds round.roundId finalPrice participants scan) {payouts : List ℤ}
    (hlength : payouts.length = (rounds.winners round.roundId finalPrice participants).length) :
    scan.winners.zipIdx.flatMap (fun entry =>
        [precisionOutcome entry.1.user entry.1.predictedPrice entry.1.amount
          (payouts.getD entry.2 0) .win]) =
      List.zipWith (fun user payout => rounds.outcomeRecord .precision round.roundId
          (revealedPrice rounds round.roundId user) user payout .win)
        (rounds.winners round.roundId finalPrice participants) payouts := by
  have hwinners : scan.winners.length =
      (rounds.winners round.roundId finalPrice participants).length := by
    have := congrArg List.length (hbook.winner_amounts hscan)
    simpa using this
  rw [← List.map_eq_flatMap, map_zipIdx_getD scan.winners payouts 0
    (fun winner payout =>
      precisionOutcome winner.user winner.predictedPrice winner.amount payout .win)
    (hwinners.trans hlength.symm)]
  have hentries := @filterMap_map_eq _ _ _
    (rounds.winners round.roundId finalPrice participants)
    (fun user => rounds.precisionPosition.get (round.roundId, user))
    (fun winner payout =>
      precisionOutcome winner.user winner.predictedPrice winner.amount payout .win)
    (fun user payout => rounds.outcomeRecord .precision round.roundId
      (revealedPrice rounds round.roundId user) user payout .win) fun user huser => by
        obtain ⟨prediction, hget, huser, hamount, hprice⟩ := hbook.prediction_of_winner huser
        exact ⟨prediction, hget, by
          funext payout
          simp [Rounds.outcomeRecord, huser, hamount, hprice]⟩
  rw [← hscan.winners] at hentries
  have hzip := congrArg
    (fun fs => List.zipWith (fun (f : ℤ → UserRoundOutcome A) payout => f payout) fs payouts)
    hentries
  simpa [List.zipWith_map_left] using hzip

/-- The records the loop over the losers settles are the records of the losers. -/
theorem lossRecords_eq : participants.zipIdx.flatMap (fun entry =>
        if rounds.IsWinner round.roundId finalPrice participants entry.1 then []
        else [rounds.lossRecord round.roundId entry.1]) =
      (participants.filter fun user =>
        ¬ rounds.IsWinner round.roundId finalPrice participants user).map
        (rounds.lossRecord round.roundId) := by
  rw [flatMap_zipIdx participants fun user =>
    if rounds.IsWinner round.roundId finalPrice participants user then []
    else [rounds.lossRecord round.roundId user]]
  generalize participants = all
  suffices h : ∀ items : List A, items.flatMap (fun user =>
        if rounds.IsWinner round.roundId finalPrice all user then []
        else [rounds.lossRecord round.roundId user]) =
      (items.filter fun user => ¬ rounds.IsWinner round.roundId finalPrice all user).map
        (rounds.lossRecord round.roundId) from h all
  intro items
  induction items with
  | nil => rfl
  | cons user rest ih =>
      by_cases hwins : rounds.IsWinner round.roundId finalPrice all user
      · simpa [hwins] using ih
      · simpa [hwins] using ih

/-- The records the refund of an unrevealed round settles are its refund records. -/
theorem unrevealedRecords_eq (hmode : round.mode = .precision) :
    participants.zipIdx.flatMap (fun entry =>
        [rounds.outcomeRecord .precision round.roundId 0 entry.1
          (rounds.stakeOf .precision round.roundId entry.1) .refund]) =
      rounds.refundRecords round (fun _ => 0) .refund participants := by
  rw [flatMap_zipIdx participants fun user =>
    [rounds.outcomeRecord .precision round.roundId 0 user
      (rounds.stakeOf .precision round.roundId user) .refund], ← List.map_eq_flatMap]
  simp [Rounds.refundRecords, hmode]

/-- What the scan kept of a participant. -/
theorem ScanFinds.entry (hscan : ScanFinds rounds round.roundId finalPrice participants scan)
    {entry : A × ℕ} (hentry : entry ∈ participants.zipIdx) :
    scan.isWinnerMask.getD entry.2 false =
        decide (rounds.IsWinner round.roundId finalPrice participants entry.1) ∧
      scan.prices.getD entry.2 0 = revealedPrice rounds round.roundId entry.1 ∧
      scan.amounts.getD entry.2 0 = rounds.stakeOf .precision round.roundId entry.1 := by
  rw [hscan.mask, hscan.prices, hscan.amounts]
  exact ⟨getD_map_of_mem_zipIdx hentry _ false, getD_map_of_mem_zipIdx hentry _ 0,
    getD_map_of_mem_zipIdx hentry _ 0⟩

/-- The scan finds a winner exactly when the round has one. -/
theorem ScanFinds.winners_eq_nil (hbook : PrecisionBook rounds round)
    (hscan : ScanFinds rounds round.roundId finalPrice participants scan) :
    scan.winners = [] ↔ rounds.winners round.roundId finalPrice participants = [] := by
  rw [← List.map_eq_nil_iff (f := fun winner : PrecisionPrediction A => winner.amount),
    hbook.winner_amounts hscan, List.map_eq_nil_iff]

end Records

/-! ## The loops -/

section LinearAddress

variable [LinearOrder A] {env : Env A} {s : Storage A} {rounds : Rounds A} {round : Round}
  {finalPrice : ℕ} {participants : List A} {scan : PrecisionScan A}

/-- Paying the winners settles the records of the winners. -/
theorem payPrecisionWinners_spec (hbook : PrecisionBook rounds round)
    (hscan : ScanFinds rounds round.roundId finalPrice participants scan) {payouts : List ℤ}
    (hlength : payouts.length = (rounds.winners round.roundId finalPrice participants).length) :
    Ensures (payPrecisionWinners round.roundId scan.winners payouts) env s fun _ s' =>
      Settles env.ledger.sequence round.roundId
        (List.zipWith (fun user payout => rounds.outcomeRecord .precision round.roundId
            (revealedPrice rounds round.roundId user) user payout .win)
          (rounds.winners round.roundId finalPrice participants) payouts) s s' := by
  rw [← winRecords_eq hbook hscan hlength]
  refine (settles_forEach (fun entry : PrecisionPrediction A × ℕ =>
      [precisionOutcome entry.1.user entry.1.predictedPrice entry.1.amount
        (payouts.getD entry.2 0) .win]) (fun _ => True) ?_).mono fun _ s' h => h.2
  intro entry _ s₁ _ _
  refine (@creditWin_spec _ _ _ _ _ (precisionOutcome entry.1.user entry.1.predictedPrice
    entry.1.amount (payouts.getD entry.2 0) .win) rfl).mono fun _ s₂ h => ⟨trivial, h⟩

/-- Recording the losers settles the records of the losers. -/
theorem recordPrecisionLosers_spec
    (hscan : ScanFinds rounds round.roundId finalPrice participants scan) :
    Ensures (recordPrecisionLosers round.roundId participants scan) env s fun _ s' =>
      Settles env.ledger.sequence round.roundId
        ((participants.filter fun user =>
          ¬ rounds.IsWinner round.roundId finalPrice participants user).map
          (rounds.lossRecord round.roundId)) s s' := by
  rw [← lossRecords_eq]
  refine (settles_forEach _ (fun _ => True) ?_).mono fun _ s' h => h.2
  intro entry hentry s₁ _ _
  obtain ⟨hmask, hprice, hamount⟩ := hscan.entry hentry
  simp only [ensures_onlyIf, hmask, hprice, hamount, decide_eq_false_iff_not]
  constructor
  · intro hloses
    rw [if_neg hloses]
    exact (@recordLoss_spec _ _ _ _ _ (rounds.lossRecord round.roundId entry.1) rfl).mono
      fun _ s₂ h => ⟨trivial, h⟩
  · intro hwins
    rw [if_pos (not_not.mp hwins)]
    exact ⟨trivial, .refl s₁⟩

/-- Refunding a round in which nobody revealed settles a refund for every participant. -/
theorem refundUnrevealed_spec (hmode : round.mode = .precision)
    (hstaked : ∀ user ∈ participants, 0 < rounds.stakeOf .precision round.roundId user)
    (hscan : ScanFinds rounds round.roundId finalPrice participants scan) :
    Ensures (refundUnrevealed round.roundId participants scan) env s fun _ s' =>
      Settles env.ledger.sequence round.roundId
        (rounds.refundRecords round (fun _ => 0) .refund participants) s s' := by
  rw [← unrevealedRecords_eq hmode]
  refine (settles_forEach _ (fun _ => True) ?_).mono fun _ s' h => h.2
  intro entry hentry s₁ _ _
  obtain ⟨-, -, hamount⟩ := hscan.entry hentry
  have hpos : rounds.stakeOf .precision round.roundId entry.1 > 0 :=
    hstaked entry.1 (List.fst_mem_of_mem_zipIdx hentry)
  simp only [hamount, ensures_onlyIf, hpos, not_true, false_implies, and_true, true_implies]
  exact (@creditOutcome_spec _ _ _ _ _ (rounds.outcomeRecord .precision round.roundId 0 entry.1
    (rounds.stakeOf .precision round.roundId entry.1) .refund)
    (by simp [UserRoundOutcome.counts])).mono
    fun _ s₂ h => ⟨trivial, h⟩

/-! ## The settlement -/

/-- The arithmetic of a Precision settlement is in range. -/
def PrecisionComputes (terms : Terms) (rounds : Rounds A) (roundId finalPrice : ℕ)
    (participants : List A) : Prop :=
  ∃ scan, scanPredictions rounds roundId finalPrice participants = .ok scan ∧
    (scan.winners ≠ [] → ∃ stakes fee payouts,
      winnerStakes scan.winners = .ok stakes ∧
      calculateProtocolFeePrecision terms.protocolFeeBps terms.feeModel scan.totalPot stakes =
        .ok fee ∧
      calculatePrecisionPayouts terms.payoutPolicy scan.winners fee.1 = .ok payouts)

omit [LinearOrder A] in
/-- Applying the fee collects the fee of the plan and leaves the rest of the pot. -/
theorem applyProtocolFeePrecision_spec {pot stakes : ℤ} (hpot : 0 < pot) (hstakes : stakes ≤ pot) :
    Ensures (applyProtocolFeePrecision pot stakes) env s fun dist s' =>
      let terms := s.control.settings.terms
      calculateProtocolFeePrecision terms.protocolFeeBps terms.feeModel pot stakes = .ok dist ∧
      dist.2 = terms.precisionFee pot stakes ∧
      dist.1 = pot - terms.precisionFee pot stakes ∧
      s' = s.collectFee (terms.precisionFee pot stakes) := by
  simp only [applyProtocolFeePrecision, ensures_bind, ensures_gets, ensures_liftM, ensures_onlyIf,
    ensures_pure]
  intro dist hdist
  obtain ⟨hfee, hleft⟩ := @calculateProtocolFeePrecision_spec s.control.settings.terms _ _ _
    hpot hstakes hdist
  constructor
  · intro _
    refine (collectProtocolFee_spec dist.2).mono ?_
    rintro _ s' rfl
    exact ⟨hdist, hfee, hleft, by rw [← hfee]; rfl⟩
  · intro hzero
    refine ⟨hdist, hfee, hleft, ?_⟩
    rw [← hfee]
    simp [Storage.collectFee, Vault.collectFee, not_lt.mp hzero]

omit [LinearOrder A] in
theorem withRemainder_length (pool : ℤ) (shares : List ℤ) :
    (withRemainder pool shares).length = shares.length := by
  cases shares <;> rfl

omit [LinearOrder A] in
/-- The winners' stakes are part of the pot. -/
theorem stakesOf_winners_le {rounds : Rounds A} {roundId : ℕ}
    (hstaked : ∀ user ∈ participants, 0 < rounds.stakeOf .precision roundId user) :
    rounds.stakesOf roundId (rounds.winners roundId finalPrice participants) ≤
      (participants.map (rounds.stakeOf .precision roundId)).sum := by
  refine List.Sublist.sum_le_sum (List.filter_sublist.map _) ?_
  intro x hx
  obtain ⟨user, hmem, rfl⟩ := List.mem_map.mp hx
  exact (hstaked user hmem).le

omit [LinearOrder A] in
/-- The winners a scan finds have positive stakes that are part of the pot. -/
theorem ScanFinds.winners_staked (hbook : PrecisionBook rounds round)
    (hscan : ScanFinds rounds round.roundId finalPrice participants scan)
    (hstaked : ∀ user ∈ participants, 0 < rounds.stakeOf .precision round.roundId user) :
    (∀ winner ∈ scan.winners, 0 < winner.amount) ∧
      (scan.winners.map (·.amount)).sum ≤ scan.totalPot := by
  constructor
  · intro winner hwinner
    rw [hscan.winners] at hwinner
    obtain ⟨user, _, hget⟩ := List.mem_filterMap.mp hwinner
    exact (hbook.prediction_pos user winner hget).2
  · rw [hbook.winner_amounts hscan, hscan.totalPot]
    exact stakesOf_winners_le hstaked

omit [LinearOrder A] in
/-- The plan of a Precision settlement with a winner, in terms of what the scan found, the fee and
the payouts. -/
theorem precisionPlan_of_scan {terms : Terms} (hbook : PrecisionBook rounds round)
    (hscan : ScanFinds rounds round.roundId finalPrice participants scan)
    (hwinners : scan.winners ≠ []) {payouts : List ℤ} {pool : ℤ}
    (hpool : pool = scan.totalPot -
      terms.precisionFee scan.totalPot (scan.winners.map (·.amount)).sum)
    (hpayouts : payouts = terms.payoutPolicy.payouts pool (scan.winners.map (·.amount))) :
    payouts.length = (rounds.winners round.roundId finalPrice participants).length ∧
    terms.precisionPlan rounds round finalPrice participants =
      ⟨terms.precisionFee scan.totalPot (scan.winners.map (·.amount)).sum,
        List.zipWith (fun user payout => rounds.outcomeRecord .precision round.roundId
            (revealedPrice rounds round.roundId user) user payout .win)
          (rounds.winners round.roundId finalPrice participants) payouts ++
        (participants.filter fun user =>
          ¬ rounds.IsWinner round.roundId finalPrice participants user).map
          (rounds.lossRecord round.roundId)⟩ := by
  have hamounts := hbook.winner_amounts hscan
  rw [hscan.totalPot, hamounts] at hpool
  rw [hamounts] at hpayouts
  constructor
  · rw [hpayouts, PrecisionPayoutPolicy.payouts, withRemainder_length]
    simp [PrecisionPayoutPolicy.shares]
  · have hne := mt (hscan.winners_eq_nil hbook).mpr hwinners
    rw [hscan.totalPot, hamounts, Terms.precisionPlan, if_neg hne, Terms.winRecords, hpayouts,
      hpool]
    rfl

/-- The Precision settlement carries out its plan. -/
theorem resolvePrecisionMode_spec (hbook : Represents s.rounds round)
    (hmode : round.mode = .precision)
    (hcap : FeeCapped s.control.settings.protocolFeeBps) (finalPrice : ℕ) :
    Ensures (resolvePrecisionMode round.roundId finalPrice) env s fun result s' =>
      let terms := s.control.settings.terms
      let participants := sortAddresses (s.rounds.participants round.roundId)
      PrecisionComputes terms s.rounds round.roundId finalPrice participants ∧
      result.1 = (terms.precisionPlan s.rounds round finalPrice participants).fee ∧
      Executes env.ledger.sequence round.roundId
        (terms.precisionPlan s.rounds round finalPrice participants) s s' := by
  have hprecision := hbook.precision hmode
  have hstaked : ∀ user ∈ sortAddresses (s.rounds.participants round.roundId),
      0 < s.rounds.stakeOf .precision round.roundId user := by
    intro user huser
    have := hbook.stake_pos (mem_sortAddresses.mp huser)
    rwa [hmode] at this
  simp only [resolvePrecisionMode, ensures_bind, ensures_gets, ensures_ite, ensures_pure,
    ensures_liftM]
  generalize sortAddresses (s.rounds.participants round.roundId) = participants at hstaked ⊢
  constructor
  · intro hempty
    rw [List.isEmpty_iff] at hempty
    subst hempty
    exact ⟨⟨.start, rfl, fun h => absurd rfl h⟩, rfl, .refl s⟩
  · intro hne scan hscan
    rw [List.isEmpty_iff] at hne
    have hfinds := scanPredictions_spec hscan
    obtain ⟨hpos, hle⟩ := hfinds.winners_staked hprecision hstaked
    have hpot : 0 < scan.totalPot := by
      rw [hfinds.totalPot]
      refine List.sum_pos _ ?_ (by simpa using hne)
      intro x hx
      obtain ⟨user, hmem, rfl⟩ := List.mem_map.mp hx
      exact hstaked user hmem
    refine ⟨fun hpays stakes hstakes => ?_, fun hwinners => ?_⟩
    · have hwinners := hpays.1
      obtain rfl := winnerStakes_eq_ok hstakes
      have hbounds := (@Terms.precisionFee_bounds s.control.settings.terms) hcap
        (List.sum_nonneg fun x hx => by
          obtain ⟨winner, hmem, rfl⟩ := List.mem_map.mp hx
          exact (hpos winner hmem).le) hle
      refine (applyProtocolFeePrecision_spec hpot hle).mono ?_
      rintro dist s₁ ⟨hdist, hfee, hleft, rfl⟩ payouts hpayouts
      have hpayout := calculatePrecisionPayouts_spec hwinners hpos (by omega) hpayouts
      obtain ⟨hlength, hplan⟩ := precisionPlan_of_scan hprecision hfinds hwinners hleft hpayout
      refine (payPrecisionWinners_spec hprecision hfinds hlength).mono fun _ s₂ hwins => ?_
      refine (recordPrecisionLosers_spec hfinds).mono fun _ s₃ hlosses => ?_
      rw [hplan]
      exact ⟨⟨scan, hscan, fun _ => ⟨_, dist, payouts, hstakes, hdist, hpayouts⟩⟩, hfee,
        hwins.trans hlosses⟩
    · have hempty : scan.winners = [] := by
        by_contra h
        exact hwinners ⟨h, hpot⟩
      have hplan : s.control.settings.terms.precisionPlan s.rounds round finalPrice participants =
          ⟨0, s.rounds.refundRecords round (fun _ => 0) .refund participants⟩ := by
        simp [Terms.precisionPlan, (hfinds.winners_eq_nil hprecision).mp hempty]
      rw [hplan]
      refine ⟨fun _ => ?_, fun h => absurd hpot h⟩
      refine (refundUnrevealed_spec hmode hstaked hfinds).mono fun _ s' hs' => ?_
      exact ⟨⟨scan, hscan, fun h => absurd hempty h⟩, rfl, hs'⟩

end LinearAddress

end XelmaMarket
