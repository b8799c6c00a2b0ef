import XelmaMarket.Arithmetic
import XelmaMarket.Lib.SortedMap

/-!
# The reference model

The simplified ledger that the differential tests run beside the contract: balances, pending
winnings, the fee treasury and one UpDown round, over maps in key order. Its arithmetic is plain
`i128` arithmetic, so an overflow traps. The settlements the property tests use for fee
conservation are in `FeeConservation`.
-/

namespace XelmaMarket

/-! ## Arithmetic -/

/-- The result of plain `i128` arithmetic, which traps when it overflows. -/
def plain (x : ℤ) : Except Failure ℤ :=
  if IsAmount x then .ok x else .error .trap

theorem plain_of_isAmount {x : ℤ} (hamount : IsAmount x) : plain x = .ok x :=
  if_pos hamount

/-- `saturating_sub` on `i128`. -/
def saturatingSub (a b : ℤ) : ℤ :=
  max i128Min (min i128Max (a - b))

/-- A sum of `i128` values, in order. -/
def sumPlain (values : List ℤ) : Except Failure ℤ :=
  values.foldlM (fun total value => plain (total + value)) 0

/-- Values that add up are summed. -/
theorem sumPlain_of_addUp {values : List ℤ} (hsums : AddUpFrom 0 values) :
    sumPlain values = .ok values.sum := by
  suffices h : ∀ start, AddUpFrom start values →
      values.foldlM (fun total value => plain (total + value)) start = .ok (start + values.sum) by
    simpa [sumPlain] using h 0 hsums
  intro start hstart
  clear hsums
  induction values generalizing start with
  | nil => simp [pure, Except.pure]
  | cons value rest ih =>
      have hrest := (addUpFrom_cons.mp hstart).2
      rw [List.foldlM_cons, plain_of_isAmount hrest.isAmount, ok_bind, ih _ hrest, List.sum_cons,
        add_assoc]

/-- The protocol fee on a pot; no rate and the rate 0 take nothing. -/
def computeFee (pot : ℤ) (feeBps : Option ℕ) : Except Failure ℤ :=
  match feeBps with
  | none | some 0 => return 0
  | some bps => do
      let product ← plain (pot * bps)
      divide product bpsDenominator

/-! ## State -/

section Model

variable (A : Type) [LinearOrder A]

/-- The round of the reference model. -/
structure ReferenceRound where
  roundId : ℕ
  poolUp : ℤ
  poolDown : ℤ
  betsUp : SortedMap A ℤ
  betsDown : SortedMap A ℤ
  active : Bool

/-- The reference model of the contract. -/
structure ReferenceModel where
  balances : SortedMap A ℤ
  pendingWinnings : SortedMap A ℤ
  totalPool : ℤ
  protocolFeeTreasury : ℤ
  feeBps : Option ℕ
  activeRound : Option (ReferenceRound A)
  outcomes : List Bool
  paused : Bool

/-- The model without accounts. -/
def ReferenceModel.new : ReferenceModel A where
  balances := .empty
  pendingWinnings := .empty
  totalPool := 0
  protocolFeeTreasury := 0
  feeBps := none
  activeRound := none
  outcomes := []
  paused := false

end Model

variable {A : Type} [LinearOrder A]

/-- `*map.entry(key).or_default() += amount`. -/
def addTo (map : SortedMap A ℤ) (key : A) (amount : ℤ) : Except Failure (SortedMap A ℤ) := do
  let total ← plain (map.getD key 0 + amount)
  return map.insert key total

theorem addTo_of_fits {map : SortedMap A ℤ} {key : A} {amount : ℤ}
    (hfits : IsAmount (map.getD key 0 + amount)) :
    addTo map key amount = .ok (map.insert key (map.getD key 0 + amount)) := by
  unfold addTo
  rw [plain_of_isAmount hfits]
  rfl

/-- Add to the pending winnings what every bet is paid, in key order. -/
def creditEach (pay : ℤ → Except Failure ℤ) (pending bets : SortedMap A ℤ) :
    Except Failure (SortedMap A ℤ) :=
  bets.entries.foldlM (fun pending bet => do
    let amount ← pay bet.2
    addTo pending bet.1 amount) pending

/-- Every bet is credited once, where no total overflows. -/
theorem creditEach_eq_ok {pay : ℤ → Except Failure ℤ} {amount : ℤ → ℤ}
    {pending bets : SortedMap A ℤ}
    (hpay : ∀ user stake, bets.get user = some stake → pay stake = .ok (amount stake))
    (hfits : ∀ user stake, bets.get user = some stake →
      IsAmount (pending.getD user 0 + amount stake)) :
    ∃ credited, creditEach pay pending bets = .ok credited ∧
      ∀ user, credited.getD user 0 = pending.getD user 0 + (bets.get user).elim 0 amount := by
  obtain ⟨entries, hascending⟩ := bets
  unfold creditEach
  unfold SortedMap.get at hpay hfits ⊢
  simp only at hpay hfits ⊢
  induction entries generalizing pending with
  | nil => exact ⟨pending, rfl, fun _ => (add_zero _).symm⟩
  | cons head rest ih =>
      obtain ⟨hhead, hrest⟩ := List.pairwise_cons.mp hascending
      have hself : SortedMap.lookup head.1 (head :: rest) = some head.2 := if_pos rfl
      -- the later bets are other users' bets
      have hlater : ∀ user stake, SortedMap.lookup user rest = some stake →
          user ≠ head.1 ∧ SortedMap.lookup user (head :: rest) = some stake := by
        intro user stake hlookup
        have hne := (hhead _ (SortedMap.mem_of_lookup hlookup)).ne'
        exact ⟨hne, (if_neg hne).trans hlookup⟩
      obtain ⟨credited, hcredited, hread⟩ := @ih
        (pending.insert head.1 (pending.getD head.1 0 + amount head.2)) hrest
        (fun user stake hlookup => hpay user stake (hlater user stake hlookup).2)
        (fun user stake hlookup => by
          obtain ⟨hne, hlookup⟩ := hlater user stake hlookup
          rw [SortedMap.getD_insert, if_neg hne]
          exact hfits user stake hlookup)
      refine ⟨credited, ?_, fun user => ?_⟩
      · rw [List.foldlM_cons, hpay head.1 head.2 hself, ok_bind,
          addTo_of_fits (hfits head.1 head.2 hself), ok_bind]
        exact hcredited
      · rw [hread, SortedMap.getD_insert]
        by_cases huser : user = head.1
        · subst huser
          have hnone : SortedMap.lookup head.1 rest = none := by
            cases hlookup : SortedMap.lookup head.1 rest with
            | none => rfl
            | some stake => exact absurd rfl (hlater head.1 stake hlookup).1
          rw [if_pos rfl, hnone, hself]
          exact add_zero _
        · rw [if_neg huser]
          have hskip : SortedMap.lookup user (head :: rest) = SortedMap.lookup user rest :=
            if_neg huser
          rw [hskip]

/-- Pay every bet back. -/
def refundBets (pending bets : SortedMap A ℤ) : Except Failure (SortedMap A ℤ) :=
  creditEach pure pending bets

/-- Pay every winning bet its share. -/
def payWinners (distributable winningPool : ℤ) (pending bets : SortedMap A ℤ) :
    Except Failure (SortedMap A ℤ) :=
  creditEach (fun stake => do
    let product ← plain (stake * distributable)
    divide product winningPool) pending bets

/-! ## Operations -/

namespace ReferenceModel

variable (model : ReferenceModel A)

/-- Deposit tokens for a user. -/
def deposit (user : A) (amount : ℤ) : Except Failure (ReferenceModel A) := do
  let balances ← addTo model.balances user amount
  return { model with balances }

/-- Withdraw tokens for a user. -/
def withdraw (user : A) (amount : ℤ) : ReferenceModel A :=
  { model with
    balances := model.balances.insert user (saturatingSub (model.balances.getD user 0) amount) }

def setFeeBps (bps : Option ℕ) : ReferenceModel A :=
  { model with feeBps := bps }

/-- Open a round, unless one is open. -/
def createRound (roundId : ℕ) : ReferenceModel A :=
  match model.activeRound with
  | some _ => model
  | none =>
      { model with
        activeRound := some ⟨roundId, 0, 0, .empty, .empty, true⟩
        totalPool := 0 }

end ReferenceModel

/-- The pool of a side. -/
def ReferenceRound.pool (round : ReferenceRound A) (isUp : Bool) : ℤ :=
  if isUp then round.poolUp else round.poolDown

/-- The bets on a side. -/
def ReferenceRound.bets (round : ReferenceRound A) (isUp : Bool) : SortedMap A ℤ :=
  if isUp then round.betsUp else round.betsDown

/-- A round with a bet added to the pool and the bets of its side. -/
def ReferenceRound.addBet (round : ReferenceRound A) (user : A) (amount : ℤ) (sideIsUp : Bool) :
    Except Failure (ReferenceRound A) :=
  if sideIsUp then do
    let poolUp ← plain (round.poolUp + amount)
    let betsUp ← addTo round.betsUp user amount
    return { round with poolUp, betsUp }
  else do
    let poolDown ← plain (round.poolDown + amount)
    let betsDown ← addTo round.betsDown user amount
    return { round with poolDown, betsDown }

/-- A bet changes the pool and the bets of its side. -/
theorem ReferenceRound.addBet_eq_ok {round : ReferenceRound A} {user : A} {amount : ℤ}
    {sideIsUp : Bool} (hpool : IsAmount (round.pool sideIsUp + amount))
    (hbet : IsAmount ((round.bets sideIsUp).getD user 0 + amount)) :
    ∃ after, round.addBet user amount sideIsUp = .ok after ∧ after.roundId = round.roundId ∧
      after.active = round.active ∧
      (∀ isUp, after.pool isUp = round.pool isUp + if isUp = sideIsUp then amount else 0) ∧
      ∀ isUp, after.bets isUp =
        if isUp = sideIsUp then
          (round.bets isUp).insert user ((round.bets isUp).getD user 0 + amount)
        else round.bets isUp := by
  cases sideIsUp with
  | true =>
      refine ⟨{ round with
        poolUp := round.poolUp + amount
        betsUp := round.betsUp.insert user (round.betsUp.getD user 0 + amount) },
        ?_, rfl, rfl, fun isUp => ?_, fun isUp => ?_⟩
      · show (do
          let poolUp ← plain (round.poolUp + amount)
          let betsUp ← addTo round.betsUp user amount
          return { round with poolUp, betsUp }) = _
        have htotal : plain (round.poolUp + amount) = .ok _ := plain_of_isAmount hpool
        have hadded : addTo round.betsUp user amount = .ok _ := addTo_of_fits hbet
        rw [htotal, ok_bind, hadded, ok_bind]
        rfl
      · cases isUp <;> simp [ReferenceRound.pool]
      · cases isUp <;> simp [ReferenceRound.bets]
  | false =>
      refine ⟨{ round with
        poolDown := round.poolDown + amount
        betsDown := round.betsDown.insert user (round.betsDown.getD user 0 + amount) },
        ?_, rfl, rfl, fun isUp => ?_, fun isUp => ?_⟩
      · show (do
          let poolDown ← plain (round.poolDown + amount)
          let betsDown ← addTo round.betsDown user amount
          return { round with poolDown, betsDown }) = _
        have htotal : plain (round.poolDown + amount) = .ok _ := plain_of_isAmount hpool
        have hadded : addTo round.betsDown user amount = .ok _ := addTo_of_fits hbet
        rw [htotal, ok_bind, hadded, ok_bind]
        rfl
      · cases isUp <;> simp [ReferenceRound.pool]
      · cases isUp <;> simp [ReferenceRound.bets]

namespace ReferenceModel

variable (model : ReferenceModel A)

/-- Move a bet from the balance into the open round; whether it was placed. -/
def placeBet (user : A) (amount : ℤ) (sideIsUp : Bool) :
    Except Failure (ReferenceModel A × Bool) :=
  if amount ≤ 0 then
    return (model, false)
  else if model.balances.getD user 0 < amount then
    return (model, false)
  else
    match model.activeRound with
    | none => return (model, false)
    | some round =>
        if round.active then do
          let round ← round.addBet user amount sideIsUp
          return ({ model.withdraw user amount with
            totalPool := saturatingAdd model.totalPool amount
            activeRound := some round }, true)
        else
          return (model, false)

/-- Close the open round and pay all bets back. -/
def cancelRound : Except Failure (ReferenceModel A × Bool) :=
  match model.activeRound with
  | none => return (model, false)
  | some round => do
      let pending ← refundBets model.pendingWinnings round.betsUp
      let pending ← refundBets pending round.betsDown
      return ({ model with activeRound := none, pendingWinnings := pending, totalPool := 0 }, true)

/-- Close a one-sided round: all bets are paid back. -/
def refundRound (winnerBets loserBets : SortedMap A ℤ) : Except Failure (ReferenceModel A) := do
  let pending ← refundBets model.pendingWinnings winnerBets
  let pending ← refundBets pending loserBets
  return { model with
    activeRound := none
    pendingWinnings := pending
    totalPool := 0
    outcomes := model.outcomes ++ [true] }

/-- Close a round with bets on both sides: the winners share the pools less the fee, which comes
out of the losing pool first. -/
def payRound (winningPool losingPool : ℤ) (winnerBets : SortedMap A ℤ) :
    Except Failure (ReferenceModel A) := do
  let pot ← plain (winningPool + losingPool)
  let fee ← computeFee pot model.feeBps
  let feeFromLosing := min fee losingPool
  let feeFromWinning ← plain (fee - feeFromLosing)
  let distWinning ← plain (winningPool - feeFromWinning)
  let distLosing ← plain (losingPool - feeFromLosing)
  let distributable ← plain (distWinning + distLosing)
  let treasury ← plain (model.protocolFeeTreasury + fee)
  let pending ← payWinners distributable winningPool model.pendingWinnings winnerBets
  return { model with
    activeRound := none
    protocolFeeTreasury := treasury
    pendingWinnings := pending
    totalPool := 0
    outcomes := model.outcomes ++ [true] }

/-- Close the open round with a win of one side. -/
def resolveRound (priceIsUp : Bool) : Except Failure (ReferenceModel A × Bool) :=
  match model.activeRound with
  | none => return (model, false)
  | some round =>
      if round.active then do
        let winningPool := round.pool priceIsUp
        let losingPool := round.pool !priceIsUp
        let resolved ←
          if winningPool = 0 ∨ losingPool = 0 then
            model.refundRound (round.bets priceIsUp) (round.bets !priceIsUp)
          else
            model.payRound winningPool losingPool (round.bets priceIsUp)
        return (resolved, true)
      else
        return ({ model with activeRound := none }, false)

/-- What a round with bets on both sides pays, where the amounts fit. -/
theorem payRound_eq_ok {model : ReferenceModel A} {winningPool losingPool fee : ℤ}
    {winnerBets pending : SortedMap A ℤ} (hpools : 0 ≤ winningPool ∧ 0 ≤ losingPool)
    (hfits : winningPool + losingPool ≤ i128Max)
    (hfee : computeFee (winningPool + losingPool) model.feeBps = .ok fee)
    (hbounds : 0 ≤ fee ∧ fee ≤ winningPool + losingPool)
    (htreasury : IsAmount (model.protocolFeeTreasury + fee))
    (hpaid : payWinners (winningPool + losingPool - fee) winningPool model.pendingWinnings
      winnerBets = .ok pending) :
    model.payRound winningPool losingPool winnerBets = .ok { model with
      activeRound := none
      protocolFeeTreasury := model.protocolFeeTreasury + fee
      pendingWinnings := pending
      totalPool := 0
      outcomes := model.outcomes ++ [true] } := by
  have hamount : ∀ x : ℤ, 0 ≤ x → x ≤ winningPool + losingPool → plain x = .ok x := by
    intro x hnonneg hle
    refine plain_of_isAmount ⟨le_trans (by decide) hnonneg, hle.trans hfits⟩
  have hdistributable : winningPool - (fee - min fee losingPool) +
      (losingPool - min fee losingPool) = winningPool + losingPool - fee := by ring
  unfold payRound
  rw [hamount _ (by omega) le_rfl, ok_bind, hfee, ok_bind]
  show (do
    let feeFromWinning ← plain (fee - min fee losingPool)
    let distWinning ← plain (winningPool - feeFromWinning)
    let distLosing ← plain (losingPool - min fee losingPool)
    let distributable ← plain (distWinning + distLosing)
    let treasury ← plain (model.protocolFeeTreasury + fee)
    let pending ← payWinners distributable winningPool model.pendingWinnings winnerBets
    return { model with
      activeRound := none
      protocolFeeTreasury := treasury
      pendingWinnings := pending
      totalPool := 0
      outcomes := model.outcomes ++ [true] }) = _
  rw [hamount (fee - min fee losingPool) (by omega) (by omega), ok_bind,
    hamount _ (by omega) (by omega), ok_bind, hamount _ (by omega) (by omega), ok_bind,
    hamount _ (by omega) (by omega), ok_bind, plain_of_isAmount htreasury, ok_bind,
    hdistributable, hpaid, ok_bind]
  rfl

/-- Move the pending winnings of a user to the balance; the amount moved. -/
def claim (user : A) : Except Failure (ReferenceModel A × ℤ) :=
  match model.pendingWinnings.get user with
  | none => return (model, 0)
  | some amount => do
      let balances ← addTo model.balances user amount
      return ({ model with balances, pendingWinnings := model.pendingWinnings.remove user }, amount)

/-- Move an amount of the treasury to the pending winnings of a recipient. -/
def withdrawProtocolFee (recipient : A) (amount : ℤ) : Except Failure (ReferenceModel A × Bool) :=
  if amount ≤ 0 ∨ model.protocolFeeTreasury < amount then
    return (model, false)
  else do
    let treasury ← plain (model.protocolFeeTreasury - amount)
    let pending ← addTo model.pendingWinnings recipient amount
    return ({ model with protocolFeeTreasury := treasury, pendingWinnings := pending }, true)

/-- Turn the pause switch. -/
def pause : ReferenceModel A :=
  { model with paused := !model.paused }

/-! ## Invariants -/

def invariantNonNegativeTotal : Except Failure Bool := do
  let totalBal ← sumPlain model.balances.values
  let totalPending ← sumPlain model.pendingWinnings.values
  let total ← plain (totalBal + totalPending)
  let total ← plain (total + model.protocolFeeTreasury)
  return decide (0 ≤ total)

def invariantPendingLePool : Except Failure Bool := do
  let totalPending ← sumPlain model.pendingWinnings.values
  return decide (0 ≤ totalPending)

/-- The texts of the violated invariants. -/
def checkInvariants : Except Failure (List String) := do
  let nonNegative ← model.invariantNonNegativeTotal
  let pendingCovered ← model.invariantPendingLePool
  return (if nonNegative then [] else ["non-negative total invariant violated"]) ++
    (if pendingCovered then [] else ["pending >= 0 invariant violated"])

end ReferenceModel

end XelmaMarket
