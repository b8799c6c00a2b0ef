import XelmaMarket.Lib.SortedMap
import XelmaMarket.MarketReads
import XelmaMarket.PositionReads
import XelmaMarket.PrecisionSettlement

/-!
# Legacy settlement

The settlement of a round whose bets are kept in one map, as the feature `legacy-map-settlement`
compiles it in for migration proofs. Such a round has no list of participants; a round that has one
is settled from it as without the feature. A round moved into a map settles as it did before.
-/

namespace XelmaMarket

open Transaction

variable {A : Type} [LinearOrder A]

/-! ## Settling from a map -/

/-- Refund every position of a map. -/
def recordRefundsLegacy (roundId : ℕ) (positions : SortedMap A UserPosition) :
    ContractM A PUnit :=
  forEach positions.keys fun user =>
    onSome (positions.get user) fun position =>
      creditOutcome roundId (upDownOutcome user position position.amount .refund)

/-- Pay a user on the winning side of a map the share of the distributable funds, and record the
result. -/
def recordWinningLegacy (roundId : ℕ) (positions : SortedMap A UserPosition)
    (winningSide : BetSide) (winningPool totalDistributable : ℤ) (user : A) : ContractM A PUnit :=
  onSome (positions.get user) fun position =>
    if position.side = winningSide then do
      let payout ← computeUpdownWinnerPayout position.amount winningPool totalDistributable
      accumulatePending user payout
      onStats (updateStatsWin user)
      persistUserOutcome roundId (upDownOutcome user position payout .win)
    else do
      onStats (updateStatsLoss user)
      persistUserOutcome roundId (upDownOutcome user position 0 .loss)

/-- Pay the winning side of a map and record every result. Returns the fee. -/
def recordWinningsLegacy (roundId : ℕ) (positions : SortedMap A UserPosition)
    (winningSide : BetSide) (winningPool losingPool : ℤ) : ContractM A ℤ := do
  if winningPool = 0 then
    return 0
  else
    let fee ← applyProtocolFeeUpdown winningPool losingPool
    let totalDistributable ← payoutAdd fee.1 fee.2.1
    forEach positions.keys
      (recordWinningLegacy roundId positions winningSide winningPool totalDistributable)
    return fee.2.2

/-- Settle an UpDown round from a map. -/
def resolveUpdownLegacy (positions : SortedMap A UserPosition) (round : Round) (finalPrice : ℕ) :
    ContractM A (Bool × ℤ) := do
  if isOneSidedPool round.poolUp round.poolDown then
    recordRefundsLegacy round.roundId positions
    return (true, 0)
  else if positions.keys.isEmpty then
    return (false, 0)
  else
    match classifyPriceDirection round.priceStart finalPrice with
    | .unchanged =>
        recordRefundsLegacy round.roundId positions
        return (false, 0)
    | .up =>
        let feeAmount ← recordWinningsLegacy round.roundId positions .up round.poolUp round.poolDown
        return (false, feeAmount)
    | .down =>
        let feeAmount ←
          recordWinningsLegacy round.roundId positions .down round.poolDown round.poolUp
        return (false, feeAmount)

/-- Settle an UpDown round from its participants or, where none are listed, from a map. -/
def resolveUpdownModeLegacy (positions : SortedMap A UserPosition) (round : Round)
    (finalPrice : ℕ) : ContractM A (Bool × ℤ) := do
  let participants ← gets (·.rounds.participants round.roundId)
  if participants.isEmpty then
    resolveUpdownLegacy positions round finalPrice
  else
    resolveUpdownMode round finalPrice

/-- Take a prediction into the running minimum and the winners so far. -/
def takeClosest (finalPrice : ℕ) (closest : Option ℕ × List (PrecisionPrediction A))
    (prediction : PrecisionPrediction A) : Option ℕ × List (PrecisionPrediction A) :=
  let diff := priceDistance prediction.predictedPrice finalPrice
  match closest.1 with
  | none => (some diff, closest.2 ++ [prediction])
  | some currentMin =>
      if diff < currentMin then (some diff, [prediction])
      else if diff = currentMin then (some currentMin, closest.2 ++ [prediction])
      else closest

/-- The pot of some predictions. -/
def legacyPot (predictions : List (PrecisionPrediction A)) : Except Failure ℤ :=
  predictions.foldlM (fun total prediction => payoutAdd total prediction.amount) 0

/-- Record a loss for every prediction of a user who is not among the winners. -/
def recordLosersLegacy (roundId : ℕ) (predictions winners : List (PrecisionPrediction A)) :
    ContractM A PUnit :=
  forEach predictions fun prediction =>
    onlyIf ((winners.any fun winner => winner.user = prediction.user) = false) do
      onStats (updateStatsLoss prediction.user)
      persistUserOutcome roundId
        (precisionOutcome prediction.user prediction.predictedPrice prediction.amount 0 .loss)

/-- Settle a Precision round from a map. Returns the fee and the pot. -/
def resolvePrecisionLegacy (roundId : ℕ) (predictionsMap : SortedMap A (PrecisionPrediction A))
    (finalPrice : ℕ) : ContractM A (ℤ × ℤ) := do
  let predictions := predictionsMap.values
  if predictions.isEmpty then
    return (0, 0)
  else
    let winners := (predictions.foldl (takeClosest finalPrice) (none, [])).2
    let totalPot ← legacyPot predictions
    if winners ≠ [] ∧ totalPot > 0 then
      let stakes ← winnerStakes winners
      let fee ← applyProtocolFeePrecision totalPot stakes
      let policy ← gets (·.control.settings.readPrecisionPayoutPolicy)
      let payouts ← calculatePrecisionPayouts policy winners fee.1
      payPrecisionWinners roundId winners payouts
      recordLosersLegacy roundId predictions winners
      return (fee.2, totalPot)
    else
      return (0, totalPot)

/-- Settle a Precision round from its participants or, where none are listed, from a map. -/
def resolvePrecisionModeLegacy (predictions : SortedMap A (PrecisionPrediction A))
    (roundId finalPrice : ℕ) : ContractM A (ℤ × ℤ) := do
  let participants ← gets (·.rounds.participants roundId)
  if participants.isEmpty then
    resolvePrecisionLegacy roundId predictions finalPrice
  else
    resolvePrecisionMode roundId finalPrice

/-- Settle a round in its mode, with the maps of both modes. Returns the fee. -/
def settleModeLegacy (positions : SortedMap A UserPosition)
    (predictions : SortedMap A (PrecisionPrediction A)) (round : Round) (finalPrice : ℕ) :
    ContractM A ℤ :=
  match round.mode with
  | .upDown => (·.2) <$> resolveUpdownModeLegacy positions round finalPrice
  | .precision => (·.1) <$> resolvePrecisionModeLegacy predictions round.roundId finalPrice

/-! ## What does not depend on the rounds -/

/-- The storage with other rounds. -/
def Storage.withRounds (rounds : Rounds A) (s : Storage A) : Storage A :=
  { s with rounds := rounds }

section Ignoring

variable {α : Type} {rounds : Rounds A}

omit [LinearOrder A] in
/-- What ignores the rounds, whichever they are, keeps them. -/
theorem keeps_rounds {m : ContractM A α} (hignores : ∀ rounds, Ignores (Storage.withRounds rounds) m) :
    Keeps Storage.rounds m := by
  constructor
  intro env s value s' hrun
  have hsame := (hignores s.rounds).run_eq env s
  rw [show Storage.withRounds s.rounds s = s from rfl, hrun] at hsame
  have hchanged : s' = Storage.withRounds s.rounds s' := congrArg Prod.snd (Except.ok.inj hsame)
  show s'.rounds = s.rounds
  rw [hchanged]
  rfl

omit [LinearOrder A] in
instance (m : StatsM A α) : Ignores (Storage.withRounds rounds) (onStats m) :=
  Ignores.zoom _ id (fun _ => rfl) fun _ _ => rfl

omit [LinearOrder A] in
instance (f : Vault A → Vault A) : Ignores (Storage.withRounds rounds) (updateVault f) :=
  .update fun _ => rfl

instance (user : A) (amount : ℤ) :
    Ignores (Storage.withRounds rounds) (accumulatePending user amount) := by
  unfold accumulatePending
  refine .bind (.gets fun _ => rfl) fun _ => .bind inferInstance fun _ => ?_
  exact .bind (.gets fun _ => rfl) inferInstance

instance (roundId : ℕ) (record : UserRoundOutcome A) :
    Ignores (Storage.withRounds rounds) (persistUserOutcome roundId record) :=
  .bind (.gets fun _ => rfl) fun _ => .onlyIf (.update fun _ => rfl)

instance (roundId : ℕ) (record : UserRoundOutcome A) :
    Ignores (Storage.withRounds rounds) (creditOutcome roundId record) := by
  unfold creditOutcome
  infer_instance

omit [LinearOrder A] in
instance (fee : ℤ) :
    Ignores (Storage.withRounds rounds) (collectProtocolFee fee : ContractM A PUnit) := by
  have : Ignores (Storage.withRounds rounds) (readTreasury : ContractM A ℤ) := by
    refine .bind (.gets fun _ => rfl) fun entry => ?_
    split <;> infer_instance
  have : Ignores (Storage.withRounds rounds) (collectInsuranceFee fee : ContractM A ℤ) := by
    unfold collectInsuranceFee setInsuranceFund
    repeat' first
      | infer_instance
      | exact .gets fun _ => rfl
      | split
      | refine .bind ?_ fun _ => ?_
  unfold collectProtocolFee setTreasury
  infer_instance

omit [LinearOrder A] in
instance (winningPool losingPool : ℤ) : Ignores (Storage.withRounds rounds)
    (applyProtocolFeeUpdown winningPool losingPool : ContractM A _) :=
  .bind (.gets fun _ => rfl) fun _ => .bind (.gets fun _ => rfl) inferInstance

omit [LinearOrder A] in
instance (totalPot winnerStakes : ℤ) : Ignores (Storage.withRounds rounds)
    (applyProtocolFeePrecision totalPot winnerStakes : ContractM A _) :=
  .bind (.gets fun _ => rfl) fun _ => .bind (.gets fun _ => rfl) inferInstance

instance (roundId : ℕ) (positions : SortedMap A UserPosition) :
    Ignores (Storage.withRounds rounds) (recordRefundsLegacy roundId positions) := by
  unfold recordRefundsLegacy
  infer_instance

instance (roundId : ℕ) (positions : SortedMap A UserPosition) (winningSide : BetSide)
    (winningPool totalDistributable : ℤ) (user : A) : Ignores (Storage.withRounds rounds)
      (recordWinningLegacy roundId positions winningSide winningPool totalDistributable user) := by
  unfold recordWinningLegacy
  infer_instance

instance (positions : SortedMap A UserPosition) (round : Round) (finalPrice : ℕ) :
    Ignores (Storage.withRounds rounds) (resolveUpdownLegacy positions round finalPrice) := by
  unfold resolveUpdownLegacy recordWinningsLegacy
  repeat' first | infer_instance | split

instance (roundId : ℕ) (predictionsMap : SortedMap A (PrecisionPrediction A)) (finalPrice : ℕ) :
    Ignores (Storage.withRounds rounds)
      (resolvePrecisionLegacy roundId predictionsMap finalPrice) := by
  have : Ignores (Storage.withRounds rounds)
      (gets (·.control.settings.readPrecisionPayoutPolicy) : ContractM A _) := .gets fun _ => rfl
  have : ∀ winners payouts, Ignores (Storage.withRounds rounds)
      (payPrecisionWinners roundId winners payouts : ContractM A PUnit) := by
    unfold payPrecisionWinners
    dsimp only
    infer_instance
  have : ∀ predictions winners, Ignores (Storage.withRounds rounds)
      (recordLosersLegacy roundId predictions winners : ContractM A PUnit) := by
    unfold recordLosersLegacy
    infer_instance
  unfold resolvePrecisionLegacy
  dsimp only
  split
  · infer_instance
  · refine .bind inferInstance fun totalPot => ?_
    infer_instance

end Ignoring

/-! ## UpDown rounds -/

section UpDown

variable {s : Storage A} {env : Env A} {round : Round} {positions : SortedMap A UserPosition}

/-- The loops of the two settlements go over the same users. -/
theorem keys_eq_participants {V : Type} {map : SortedMap A V} {users : List A}
    (hnodup : users.Nodup) (hmem : ∀ user, user ∈ users ↔ (map.get user).isSome = true) :
    map.keys = sortAddresses users :=
  map.keys_eq (sortAddresses_pairwise hnodup) fun user => by rw [mem_sortAddresses, hmem]

/-- Where the map holds the positions, refunding it refunds them. -/
theorem recordRefundsIndexed_eq {roundId : ℕ}
    (hpositions : ∀ user, positions.get user = s.rounds.position.get (roundId, user)) :
    recordRefundsIndexed roundId positions.keys env s =
      recordRefundsLegacy roundId positions env s := by
  unfold recordRefundsIndexed refundPositions recordRefundsLegacy
  rw [foldEach_unit]
  symm
  refine Keeps.forEach_congr (fun user => keeps_rounds fun _ => inferInstance)
    fun user _ s' hrounds => ?_
  have hkept : s'.rounds = s.rounds := hrounds
  rw [bind_run rfl, hpositions, ← hkept]
  dsimp only
  cases s'.rounds.position.get (roundId, user) with
  | none => rfl
  | some position =>
      show creditOutcome roundId _ env s' = Transaction.bind (creditOutcome roundId _) _ env s'
      unfold Transaction.bind
      cases creditOutcome roundId (upDownOutcome user position position.amount .refund) env s' <;>
        rfl

/-- Where the map holds the positions, settling it at a winning side settles them. -/
theorem recordWinningsIndexed_eq {roundId : ℕ}
    (hpositions : ∀ user, positions.get user = s.rounds.position.get (roundId, user))
    (winningSide : BetSide) (winningPool losingPool : ℤ) :
    recordWinningsIndexed roundId positions.keys winningSide winningPool losingPool env s =
      recordWinningsLegacy roundId positions winningSide winningPool losingPool env s := by
  unfold recordWinningsIndexed recordWinningsLegacy
  split
  · rfl
  · refine Keeps.bind_congr (keeps_rounds fun _ => inferInstance) fun fee s₁ hrounds₁ => ?_
    refine Keeps.bind_congr (keeps_rounds fun _ => inferInstance) fun total s₂ hrounds₂ => ?_
    have hloop : forEach positions.keys (recordWinning roundId winningSide winningPool total) env s₂ =
        forEach positions.keys
          (recordWinningLegacy roundId positions winningSide winningPool total) env s₂ := by
      symm
      refine Keeps.forEach_congr (fun user => keeps_rounds fun _ => inferInstance)
        fun user _ s' hrounds => ?_
      have hkept : s'.rounds = s.rounds := hrounds.trans (hrounds₂.trans hrounds₁)
      unfold recordWinning recordWinningLegacy
      rw [bind_run rfl, hpositions, ← hkept]
    exact bind_congr_left hloop

/-- A round settles from the map that holds its positions as it does from its participants. -/
theorem resolveUpdownMode_eq (hbook : UpDownBook s.rounds round)
    (hnodup : (s.rounds.participants round.roundId).Nodup)
    (hpositions : ∀ user, positions.get user = s.rounds.position.get (round.roundId, user))
    (finalPrice : ℕ) :
    resolveUpdownMode round finalPrice env s =
      resolveUpdownLegacy positions round finalPrice env s := by
  have hkeys : sortAddresses (s.rounds.participants round.roundId) = positions.keys := by
    refine (keys_eq_participants hnodup fun user => ?_).symm
    rw [hpositions, Option.isSome_iff_exists, hbook.position_iff]
  unfold resolveUpdownMode resolveUpdownLegacy
  rw [bind_run rfl]
  dsimp only
  rw [hkeys]
  have hrefunds := @recordRefundsIndexed_eq _ _ s env positions round.roundId hpositions
  have hwinnings := @recordWinningsIndexed_eq _ _ s env positions round.roundId hpositions
  split
  · have hpolicy : applyOneSidedPolicy round (selectOneSidedPolicy round) positions.keys =
        recordRefundsIndexed round.roundId positions.keys >>= fun _ => pure 0 := rfl
    rw [hpolicy, bind_bind]
    exact bind_congr_left hrefunds
  · split
    · rfl
    · cases classifyPriceDirection round.priceStart finalPrice with
      | unchanged => exact bind_congr_left hrefunds
      | up => exact bind_congr_left (hwinnings .up round.poolUp round.poolDown)
      | down => exact bind_congr_left (hwinnings .down round.poolDown round.poolUp)

end UpDown

/-! ## Precision rounds -/

section Precision

variable {s : Storage A} {env : Env A} {round : Round} {roundId finalPrice : ℕ}
  {predictions : List (PrecisionPrediction A)}

omit [LinearOrder A] in
/-- The search finds the winners of a pass over the predictions. -/
theorem foldl_takeClosest (scan : ClosestScan (PrecisionPrediction A)) :
    (predictions.foldl (takeClosest finalPrice) (scan.least, scan.winners)).2 =
      ((predictions.map some).foldl
        (ClosestScan.step (PrecisionPrediction.distance finalPrice)) scan).winners := by
  induction predictions generalizing scan with
  | nil => rfl
  | cons prediction rest ih =>
      have hstep : takeClosest finalPrice (scan.least, scan.winners) prediction =
          ((scan.observe (PrecisionPrediction.distance finalPrice) prediction).least,
            (scan.observe (PrecisionPrediction.distance finalPrice) prediction).winners) := by
        unfold takeClosest ClosestScan.observe PrecisionPrediction.distance
        cases scan.least with
        | none => rfl
        | some least =>
            dsimp only
            split_ifs <;> rfl
      rw [List.foldl_cons, hstep, ih]
      rfl

omit [LinearOrder A] in
/-- A revealed prediction adds its amount to the pot, if that fits. -/
theorem PrecisionScan.visit_totalPot {rounds : Rounds A} (scan : PrecisionScan A) {user : A}
    {prediction : PrecisionPrediction A}
    (hprediction : rounds.precisionPosition.get (roundId, user) = some prediction) :
    (scan.visit rounds roundId finalPrice user).map (·.totalPot) =
      payoutAdd scan.totalPot prediction.amount := by
  unfold PrecisionScan.visit precisionStake
  simp only [hprediction]
  cases payoutAdd scan.totalPot prediction.amount with
  | error failure => rfl
  | ok total => exact congrArg Except.ok (PrecisionScan.observe_rest _ _).2.2

omit [LinearOrder A] in
/-- The amounts of revealed predictions add up to the pot of the scan, or fail as it does. -/
theorem foldlM_visit_totalPot {rounds : Rounds A} {users : List A} (scan : PrecisionScan A)
    (hrevealed : rounds.slots roundId users = predictions.map some) :
    (users.foldlM (PrecisionScan.visit rounds roundId finalPrice) scan).map (·.totalPot) =
      predictions.foldlM (fun total prediction => payoutAdd total prediction.amount)
        scan.totalPot := by
  induction users generalizing scan predictions with
  | nil =>
      cases predictions with
      | nil => rfl
      | cons => cases hrevealed
  | cons user rest ih =>
      cases predictions with
      | nil => cases hrevealed
      | cons prediction others =>
          obtain ⟨hprediction, hrest⟩ := List.cons.inj hrevealed
          have hadds := @PrecisionScan.visit_totalPot _ roundId finalPrice rounds scan user
            prediction hprediction
          rw [List.foldlM_cons, List.foldlM_cons, ← hadds]
          cases scan.visit rounds roundId finalPrice user with
          | error failure => rfl
          | ok next => exact ih next hrest

/-- A user wins exactly when the winners found include a prediction of the user. -/
theorem ScanFinds.any_winner {rounds : Rounds A} {users : List A} {scan : PrecisionScan A}
    {user : A} (hfinds : ScanFinds rounds round.roundId finalPrice users scan)
    (hbook : PrecisionBook rounds round) (huser : user ∈ users) :
    (scan.winners.any fun winner => winner.user = user) =
      decide (rounds.IsWinner round.roundId finalPrice users user) := by
  rw [Bool.eq_iff_iff, List.any_eq_true, decide_eq_true_iff, hfinds.winners]
  constructor
  · intro ⟨winner, hmem, hsame⟩
    obtain ⟨other, hother, hget⟩ := List.mem_filterMap.mp hmem
    obtain ⟨howner, -⟩ := hbook.prediction_pos other winner hget
    rw [← of_decide_eq_true hsame, howner]
    exact of_decide_eq_true (List.mem_filter.mp hother).2
  · intro hwins
    obtain ⟨prediction, hget, -⟩ := id hwins
    refine ⟨prediction, List.mem_filterMap.mpr ⟨user, ?_, hget⟩, ?_⟩
    · exact List.mem_filter.mpr ⟨huser, decide_eq_true hwins⟩
    · exact decide_eq_true (hbook.prediction_pos user prediction hget).1

/-- Record the loss of a user who does not win. -/
def recordUnlessWinner (rounds : Rounds A) (roundId finalPrice : ℕ) (users : List A) (user : A) :
    ContractM A PUnit :=
  onlyIf (decide (rounds.IsWinner roundId finalPrice users user) = false) do
    onStats (updateStatsLoss user)
    persistUserOutcome roundId (precisionOutcome user (revealedPrice rounds roundId user)
      (rounds.stakeOf .precision roundId user) 0 .loss)

/-- The losers of the scan are the users without a winning prediction. -/
theorem recordPrecisionLosers_eq {rounds : Rounds A} {users : List A} {scan : PrecisionScan A}
    (hfinds : ScanFinds rounds round.roundId finalPrice users scan)
    (hbook : PrecisionBook rounds round) (husers : predictions.map (·.user) = users)
    (hstored : ∀ prediction ∈ predictions,
      rounds.precisionPosition.get (round.roundId, prediction.user) = some prediction) :
    recordPrecisionLosers round.roundId users scan env s =
      recordLosersLegacy round.roundId predictions scan.winners env s := by
  have hkeeps : ∀ m : ContractM A PUnit, Keeps (fun _ => PUnit.unit) m :=
    fun _ => ⟨fun _ _ _ _ _ => rfl⟩
  -- both loops record the losses of the users themselves
  have hscanned : recordPrecisionLosers round.roundId users scan env s =
      forEach users (recordUnlessWinner rounds round.roundId finalPrice users) env s := by
    have hzipped : forEach users (recordUnlessWinner rounds round.roundId finalPrice users) =
        forEach users.zipIdx fun entry =>
          recordUnlessWinner rounds round.roundId finalPrice users entry.1 := by
      rw [← forEach_map Prod.fst users.zipIdx, List.zipIdx_map_fst]
    rw [hzipped]
    refine Keeps.forEach_congr (fun _ => hkeeps _) fun entry hentry s' _ => ?_
    obtain ⟨hmask, hprice, hamount⟩ := hfinds.entry hentry
    rw [hmask, hprice, hamount]
    rfl
  have hlisted : recordLosersLegacy round.roundId predictions scan.winners env s =
      forEach users (recordUnlessWinner rounds round.roundId finalPrice users) env s := by
    have hmapped : forEach users (recordUnlessWinner rounds round.roundId finalPrice users) =
        forEach predictions fun prediction =>
          recordUnlessWinner rounds round.roundId finalPrice users prediction.user := by
      rw [← husers]
      exact forEach_map _ predictions _
    rw [hmapped]
    refine Keeps.forEach_congr (fun _ => hkeeps _) fun prediction hmem s' _ => ?_
    have hget := hstored prediction hmem
    have huser : prediction.user ∈ users := husers ▸ List.mem_map_of_mem hmem
    have hprice : revealedPrice rounds round.roundId prediction.user =
        prediction.predictedPrice := by
      unfold revealedPrice
      rw [hget]
      rfl
    have hstake : rounds.stakeOf .precision round.roundId prediction.user =
        prediction.amount := by
      unfold Rounds.stakeOf precisionStake
      rw [hget]
    unfold recordUnlessWinner
    rw [hfinds.any_winner hbook huser, hprice, hstake]
  rw [hscanned, hlisted]

/-- A round in which everybody revealed settles from the map that holds its predictions as it does
from its participants. -/
theorem resolvePrecisionMode_eq {map : SortedMap A (PrecisionPrediction A)}
    (hbook : PrecisionBook s.rounds round)
    (hnodup : (s.rounds.participants round.roundId).Nodup)
    (hpredictions : ∀ user, map.get user = s.rounds.precisionPosition.get (round.roundId, user))
    (hrevealed : ∀ user ∈ s.rounds.participants round.roundId,
      (s.rounds.precisionPosition.get (round.roundId, user)).isSome = true) :
    resolvePrecisionMode round.roundId finalPrice env s =
      resolvePrecisionLegacy round.roundId map finalPrice env s := by
  set users := sortAddresses (s.rounds.participants round.roundId) with husers
  have hkeys : map.keys = users := by
    refine keys_eq_participants hnodup fun user => ?_
    rw [hpredictions]
    refine ⟨hrevealed user, fun hstored => ?_⟩
    exact (hbook.staked_iff user).mp (.inl (Option.isSome_iff_exists.mp hstored))
  have hget : ∀ user ∈ users, ∃ prediction,
      s.rounds.precisionPosition.get (round.roundId, user) = some prediction ∧
        prediction.user = user := by
    intro user huser
    obtain ⟨prediction, hprediction⟩ :=
      Option.isSome_iff_exists.mp (hrevealed user (mem_sortAddresses.mp huser))
    exact ⟨prediction, hprediction, (hbook.prediction_pos user prediction hprediction).1⟩
  have hvalues : map.values =
      users.filterMap fun user => s.rounds.precisionPosition.get (round.roundId, user) := by
    rw [map.values_eq, hkeys]
    exact List.filterMap_congr fun user _ => hpredictions user
  have howners : map.values.map (·.user) = users := by
    rw [hvalues, filterMap_map_eq hget, List.map_id']
  have hstored : ∀ prediction ∈ map.values,
      s.rounds.precisionPosition.get (round.roundId, prediction.user) = some prediction := by
    intro prediction hmem
    rw [hvalues] at hmem
    obtain ⟨user, -, hprediction⟩ := List.mem_filterMap.mp hmem
    rw [(hbook.prediction_pos user prediction hprediction).1]
    exact hprediction
  have hslots : s.rounds.slots round.roundId users = map.values.map some := by
    unfold Rounds.slots
    rw [← howners, List.map_map]
    exact List.map_congr_left hstored
  have hempty : map.values.isEmpty = users.isEmpty := by
    rw [← howners, List.isEmpty_map]
  have hpot : (scanPredictions s.rounds round.roundId finalPrice users).map (·.totalPot) =
      legacyPot map.values := foldlM_visit_totalPot .start hslots
  unfold resolvePrecisionMode resolvePrecisionLegacy
  rw [bind_run rfl]
  dsimp only
  rw [← husers, hempty, ← hpot]
  split
  · rfl
  · rename_i hsome
    rw [bind_run rfl]
    cases hscan : scanPredictions s.rounds round.roundId finalPrice users with
    | error failure => rfl
    | ok scan =>
        have hfinds := scanPredictions_spec hscan
        have hlosers : recordPrecisionLosers round.roundId users scan =
            recordLosersLegacy round.roundId map.values scan.winners :=
          funext fun _ => funext fun _ => recordPrecisionLosers_eq hfinds hbook howners hstored
        have hwinners : (map.values.foldl (takeClosest finalPrice) (none, [])).2 =
            scan.winners := by
          have hclosest := (foldlM_visit_spec hscan).1
          rw [hslots] at hclosest
          exact (foldl_takeClosest .start).trans (congrArg ClosestScan.winners hclosest).symm
        have hfound : scan.winners ≠ [] := by
          obtain ⟨user, huser⟩ := List.exists_mem_of_ne_nil _ (mt List.isEmpty_iff.mpr hsome)
          obtain ⟨prediction, hprediction, -⟩ := hget user huser
          rw [Ne, hfinds.winners_eq_nil hbook]
          exact sortedWinners_ne_nil
            ⟨user, mem_sortAddresses.mp huser, prediction, hprediction⟩
        rw [bind_run rfl, show (Except.map (·.totalPot) (Except.ok scan) : Except Failure ℤ) =
          .ok scan.totalPot from rfl, bind_run rfl, hwinners, hlosers]
        split_ifs with hpaid hpositive
        · rfl
        · exact absurd ⟨hfound, hpositive⟩ hpaid
        · rfl

end Precision

/-! ## Rounds moved into maps -/

section Moved

variable {host : Host A} {chain : Chain A} {roundId : ℕ} {round : Round}
  {positions : SortedMap A UserPosition} {predictions : SortedMap A (PrecisionPrediction A)}

/-- The storage without the participants of a round and their bets. -/
def Storage.withoutBets (s : Storage A) (roundId : ℕ) : Storage A :=
  s.withRounds (s.rounds.clearDisputeRoundStorage roundId (s.rounds.participants roundId))

/-- Nobody is listed without the bets. -/
theorem participants_withoutBets (s : Storage A) :
    (s.withoutBets roundId).rounds.participants roundId = [] := by
  show (s.rounds.clearDisputeRoundStorage roundId _).participants roundId = []
  rw [clearDisputeRoundStorage_eq]
  simp [Rounds.close, Rounds.participants, Store.getD_remove]

/-- What ignores the rounds runs without the bets as it does with them. -/
theorem run_withoutBets {α : Type} {m : ContractM A α} {env : Env A} {s : Storage A}
    (hignores : ∀ rounds, Ignores (Storage.withRounds rounds) m) :
    m env (s.withoutBets roundId) =
      (m env s).map fun result => (result.1, result.2.withoutBets roundId) := by
  have hmoved := (hignores
    (s.rounds.clearDisputeRoundStorage roundId (s.rounds.participants roundId))).run_eq env s
  refine hmoved.trans ?_
  cases hrun : m env s with
  | error failure => rfl
  | ok result =>
      have hrounds : result.2.rounds = s.rounds :=
        ((keeps_rounds hignores).ensures env s).elim hrun
      show Except.ok (result.1, _) = Except.ok (result.1, result.2.withoutBets roundId)
      unfold Storage.withoutBets
      rw [hrounds]

/-- In every reachable chain a live round in which everybody revealed, moved into maps of its
positions and predictions, settles at every price as it does from its participants: with the same
failure, or with the same fee and the same accounts, statistics and outcomes. -/
theorem legacy_settlement_agrees (hreachable : Reachable host chain)
    (hlive : chain.storage.rounds.IsLive roundId round)
    (hpositions : ∀ user,
      positions.get user = chain.storage.rounds.position.get (roundId, user))
    (hpredictions : ∀ user,
      predictions.get user = chain.storage.rounds.precisionPosition.get (roundId, user))
    (hrevealed : round.mode = .precision → ∀ user ∈ chain.storage.rounds.participants roundId,
      (chain.storage.rounds.precisionPosition.get (roundId, user)).isSome = true)
    (env : Env A) (finalPrice : ℕ) :
    settleModeLegacy positions predictions round finalPrice env
        (chain.storage.withoutBets roundId) =
      (settleMode round finalPrice env chain.storage).map fun result =>
        (result.1, result.2.withoutBets roundId) := by
  obtain ⟨rfl, hbook⟩ := (Storage.Healthy.ordered hreachable.healthy).live roundId round hlive
  have hunlisted : ((chain.storage.withoutBets round.roundId).rounds.participants
      round.roundId).isEmpty = true := by
    rw [participants_withoutBets]
    rfl
  unfold settleModeLegacy settleMode
  cases hmode : round.mode with
  | upDown =>
      have hmoved : resolveUpdownModeLegacy positions round finalPrice env
          (chain.storage.withoutBets round.roundId) =
            (resolveUpdownMode round finalPrice env chain.storage).map fun result =>
              (result.1, result.2.withoutBets round.roundId) := by
        unfold resolveUpdownModeLegacy
        rw [bind_run rfl, if_pos hunlisted,
          resolveUpdownMode_eq (hbook.upDown hmode) hbook.nodup hpositions]
        exact run_withoutBets fun _ => inferInstance
      dsimp only
      rw [map_run, map_run, hmoved]
      cases resolveUpdownMode round finalPrice env chain.storage <;> rfl
  | precision =>
      have hmoved : resolvePrecisionModeLegacy predictions round.roundId finalPrice env
          (chain.storage.withoutBets round.roundId) =
            (resolvePrecisionMode round.roundId finalPrice env chain.storage).map fun result =>
              (result.1, result.2.withoutBets round.roundId) := by
        unfold resolvePrecisionModeLegacy
        rw [bind_run rfl, if_pos hunlisted, resolvePrecisionMode_eq (hbook.precision hmode)
          hbook.nodup hpredictions (hrevealed hmode)]
        exact run_withoutBets fun _ => inferInstance
      dsimp only
      rw [map_run, map_run, hmoved]
      cases resolvePrecisionMode round.roundId finalPrice env chain.storage <;> rfl

end Moved

/-- Moved into a map, the trial Precision round settles at 1000 with users 3 and 5 as its winners,
and user 3 takes the remainder of 1. -/
theorem precision_round_moved : ∃ chain round, ∃ predictions : SortedMap ℕ (PrecisionPrediction ℕ),
    Reachable trialHost chain ∧ chain.storage.rounds.activeRound = some round ∧
      ∃ result, settleModeLegacy .empty predictions round 1000 ⟨trialHost, chain.ledger, []⟩
          (chain.storage.withoutBets round.roundId) = .ok result ∧
        result.2.vault.pendingOf 3 = 57 ∧ result.2.vault.pendingOf 5 = 56 := by
  obtain ⟨trace, chain, hhistory, -, hfits⟩ := exists_trial_history precisionRound
    (fun chain => chain.storage.rounds.activeRound.any fun round : Round =>
      decide (round.mode = .precision) &&
      (chain.storage.rounds.participants round.roundId).all (fun user =>
        (chain.storage.rounds.precisionPosition.get (round.roundId, user)).isSome) &&
      (settleMode round 1000 ⟨trialHost, chain.ledger, []⟩ chain.storage).toOption.any
        fun result : ℤ × Storage ℕ =>
          decide (result.2.vault.pendingOf 3 = 57 ∧ result.2.vault.pendingOf 5 = 56))
    (by decide +kernel)
  obtain ⟨round, hactive, hround⟩ := (Option.any_eq_true _ _).mp hfits
  simp only [Bool.and_eq_true, decide_eq_true_eq, List.all_eq_true] at hround
  obtain ⟨⟨hmode, hrevealed⟩, hsettles⟩ := hround
  obtain ⟨result, hresult, hpaid⟩ := (Option.any_eq_true _ _).mp hsettles
  have hreachable : Reachable trialHost chain := ⟨trace, hhistory⟩
  have hbook := (Storage.Healthy.ordered hreachable.healthy).active_represented hactive
  have hnone : ∀ user, (SortedMap.empty : SortedMap ℕ UserPosition).get user =
      chain.storage.rounds.position.get (round.roundId, user) :=
    fun user => ((hbook.precision hmode).no_position user).symm
  have hagrees := legacy_settlement_agrees hreachable (.inl ⟨hactive, rfl⟩) hnone
    (fun user => get_collect_stored fun _ => mem_of_prediction hbook)
    (fun _ => hrevealed) ⟨trialHost, chain.ledger, []⟩ 1000
  rw [eq_ok_of_toOption hresult] at hagrees
  exact ⟨chain, round, _, hreachable, hactive, _, hagrees, of_decide_eq_true hpaid⟩

end XelmaMarket
