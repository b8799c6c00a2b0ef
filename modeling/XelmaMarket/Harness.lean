import XelmaMarket.Custody
import XelmaMarket.ReferenceModel
import XelmaMarket.Supply

/-!
# The differential harness

The harness tells the reference model of every successful call and compares it with the contract.
Its single operations keep the accounts and the open round of the two in agreement.
-/

namespace XelmaMarket

variable {A : Type} [LinearOrder A]

/-! ## The harness -/

/-- Whether the contract reads as paused. -/
def Settings.isPaused (settings : Settings) : Bool :=
  decide (settings.currentMode = .fullyPaused)

/-- Whether a side is the upper one. -/
def BetSide.isUp (side : BetSide) : Bool :=
  decide (side = .up)

/-- What the harness does to the model after a successful call on a storage. -/
def ReferenceModel.follow (model : ReferenceModel A) (s : Storage A) (call : Call A) :
    Except Failure (ReferenceModel A) :=
  match call with
  | .mintInitial user =>
      if s.vault.balance.has user then return model else model.deposit user initialAmount
  | .createRound _ _ | .createNextFromTemplate =>
      return model.createRound (s.rounds.lastRoundId.getD 0 + 1)
  | .placeBet user amount side => Prod.fst <$> model.placeBet user amount side.isUp
  | .cancelRound _ => Prod.fst <$> model.cancelRound
  | .resolveRound _ | .resolveRoundMulti _ =>
      match call.price, s.rounds.activeRound with
      | some finalPrice, some round =>
          Prod.fst <$> model.resolveRound (decide (round.priceStart < finalPrice))
      | _, _ => return model
  | .claimWinnings user => Prod.fst <$> model.claim user
  | .claimMany users =>
      users.foldlM (fun model user => Prod.fst <$> model.claim user) model
  | _ => return model

/-- The model is told the fee rate and the state of the pause switch. -/
def ReferenceModel.configure (model : ReferenceModel A) (settings : Settings) :
    ReferenceModel A :=
  let model := model.setFeeBps settings.protocolFeeBps
  if model.paused = settings.isPaused then model else model.pause

/-- What the harness does to the model after a step of the chain. -/
def ReferenceModel.followStep (model : ReferenceModel A)
    (transition : Transition (Chain A) (Action A)) : Except Failure (ReferenceModel A) :=
  match transition.label with
  | .invoke _ call => do
      let model ← model.follow transition.before.storage call
      return model.configure transition.after.storage.control.settings
  | .closeLedger _ | .expire _ => return model

/-- The model beside a trace. -/
def ReferenceModel.followAll (trace : List (Transition (Chain A) (Action A))) :
    Except Failure (ReferenceModel A) :=
  trace.foldlM ReferenceModel.followStep (.new A)

/-! ## Parity -/

/-- The model's accounts are those of a vault, and the fund is empty. -/
structure ReflectsAccounts (vault : Vault A) (balances pending : SortedMap A ℤ) (treasury : ℤ) :
    Prop where
  balances : ∀ user, balances.getD user 0 = vault.balanceOf user
  pending : ∀ user, pending.getD user 0 = vault.pendingOf user
  treasury : treasury = vault.treasury
  fund : vault.insuranceFund = 0

/-- A model round is a round: its pools, and the bets of each side under their users. -/
structure ReflectsRound (rounds : Rounds A) (round : Round) (reference : ReferenceRound A) :
    Prop where
  roundId : reference.roundId = round.roundId
  active : reference.active = true
  pools : ∀ side : BetSide, reference.pool side.isUp = round.pool side
  bets : ∀ (side : BetSide) user, (reference.bets side.isUp).get user =
    ((rounds.position.get (round.roundId, user)).filter fun position => position.side = side).map
      (·.amount)

/-- The model's open round is the active round, and its total pool is that round's. -/
structure ReflectsActive (rounds : Rounds A) (current : Option (ReferenceRound A)) (totalPool : ℤ) :
    Prop where
  idle : rounds.activeRound = none → current = none ∧ totalPool = 0
  round : ∀ round, rounds.activeRound = some round →
    totalPool = round.poolUp + round.poolDown ∧
      ∃ reference, current = some reference ∧ ReflectsRound rounds round reference

/-- The model has the accounts and the open round of a storage. -/
structure Reflects (s : Storage A) (model : ReferenceModel A) : Prop where
  accounts :
    ReflectsAccounts s.vault model.balances model.pendingWinnings model.protocolFeeTreasury
  rounds : ReflectsActive s.rounds model.activeRound model.totalPool

/-- The model agrees with a storage on everything it keeps. -/
structure InParity (s : Storage A) (model : ReferenceModel A) : Prop extends Reflects s model where
  fee : model.feeBps = s.control.settings.protocolFeeBps
  paused : model.paused = s.control.settings.isPaused

/-! ## Histories the model can follow -/

/-- The calls the model has an operation for, and those that leave accounts and rounds alone. -/
def Call.IsMirrored : Call A → Prop
  | .control _ | .migrateSchemaV1ToV2 _ | .migrateSchemaV2ToV3 _ | .resetLeaderboardSeason
  | .mintInitial _ | .createRound _ _ | .createNextFromTemplate | .placeBet _ _ _
  | .resolveRound _ | .resolveRoundMulti _ | .cancelRound _ | .claimWinnings _ | .claimMany _ =>
      True
  | _ => False

/-- The terms on which the model settles the open round: there are enough participants, no dispute
window and no insurance share, the fee is taken from the pot, and the price moved. -/
structure PlainSettlement (s : Storage A) (round : Round) (finalPrice : ℕ) : Prop where
  enough : s.control.settings.belowMinimum (s.rounds.participants round.roundId).length = false
  undisputed : s.control.settings.getDisputeLedgers = 0
  feeModel : s.control.settings.readFeeModel = .feeOnPot
  uninsured : s.control.settings.insuranceSplitBps = 0
  moved : finalPrice ≠ round.priceStart

instance (s : Storage A) (round : Round) (finalPrice : ℕ) :
    Decidable (PlainSettlement s round finalPrice) :=
  decidable_of_iff
    (s.control.settings.belowMinimum (s.rounds.participants round.roundId).length = false ∧
      s.control.settings.getDisputeLedgers = 0 ∧ s.control.settings.readFeeModel = .feeOnPot ∧
      s.control.settings.insuranceSplitBps = 0 ∧ finalPrice ≠ round.priceStart)
    ⟨fun h => ⟨h.1, h.2.1, h.2.2.1, h.2.2.2.1, h.2.2.2.2⟩,
      fun h => ⟨h.enough, h.undisputed, h.feeModel, h.uninsured, h.moved⟩⟩

/-- The model can follow a step: it has an operation for the call, the open round is an UpDown
round, and a settlement is plain. -/
structure Mirrored (transition : Transition (Chain A) (Action A)) : Prop where
  call : ∀ signers call, transition.label = .invoke signers call → call.IsMirrored
  upDown : ∀ round, transition.before.storage.rounds.activeRound = some round →
    round.mode = .upDown
  plain : ∀ signers call finalPrice round, transition.label = .invoke signers call →
    call.price = some finalPrice → transition.before.storage.rounds.activeRound = some round →
    PlainSettlement transition.before.storage round finalPrice

/-! ## Single operations -/

section Operations

variable {s s' : Storage A} {model : ReferenceModel A} {env : Env A}

omit [LinearOrder A] in
/-- What the supply covers is an amount. -/
theorem isAmount_of_supply {x : ℤ} (hnonneg : 0 ≤ x) (hle : x ≤ supplyLimit) : IsAmount x := by
  obtain ⟨hmin, hroom⟩ := supplyLimit_room
  unfold IsAmount
  omega

/-- The model keeps what the storage keeps. -/
theorem Reflects.of_same (hreflects : Reflects s model) (hvault : s'.vault = s.vault)
    (hrounds : s'.rounds = s.rounds) : Reflects s' model := by
  constructor
  · rw [hvault]
    exact hreflects.accounts
  · rw [hrounds]
    exact hreflects.rounds

/-- A mint is a deposit. -/
theorem Reflects.mint (hreflects : Reflects s model) {user : A}
    (hnew : s.vault.balance.get user = none)
    (hvault : s'.vault = s.vault.deposit user initialAmount) (hrounds : s'.rounds = s.rounds) :
    ∃ after, model.deposit user initialAmount = .ok after ∧ Reflects s' after := by
  have hzero : model.balances.getD user 0 = 0 := by
    rw [hreflects.accounts.balances]
    simp [Vault.balanceOf, Store.getD, hnew]
  have hfits : IsAmount (model.balances.getD user 0 + initialAmount) := by
    rw [hzero]
    decide
  refine ⟨{ model with
    balances := model.balances.insert user (model.balances.getD user 0 + initialAmount) },
    ?_, ?_, ?_⟩
  · unfold ReferenceModel.deposit
    rw [addTo_of_fits hfits, ok_bind]
    rfl
  · rw [hvault]
    refine ⟨fun other => ?_, hreflects.accounts.pending, hreflects.accounts.treasury,
      hreflects.accounts.fund⟩
    rw [SortedMap.getD_insert, balanceOf_deposit]
    split_ifs with hother
    · rw [hother, hreflects.accounts.balances]
    · rw [hreflects.accounts.balances, add_zero]
  · rw [hrounds]
    exact hreflects.rounds

/-- Opening a round opens one in the model. -/
theorem Reflects.opens (hreflects : Reflects s model) (hordered : s.rounds.Ordered)
    {round : Round} (hopens : Opens env s round s') :
    Reflects s' (model.createRound (s.rounds.lastRoundId.getD 0 + 1)) := by
  obtain ⟨hidle, -⟩ := hreflects.rounds.idle hopens.active
  have hcreated : model.createRound (s.rounds.lastRoundId.getD 0 + 1) =
      { model with
        activeRound := some ⟨s.rounds.lastRoundId.getD 0 + 1, 0, 0, .empty, .empty, true⟩
        totalPool := 0 } := by
    unfold ReferenceModel.createRound
    rw [hidle]
  rw [hcreated]
  constructor
  · rw [hopens.vault]
    exact hreflects.accounts
  · rw [hopens.rounds]
    have hnone : NoBook s.rounds round.roundId :=
      hordered.noBook_of_later (by rw [hopens.id]; exact Nat.lt_succ_self _)
    refine ⟨fun hactive => (nomatch hactive), fun other hactive => ?_⟩
    obtain rfl := Option.some.inj hactive
    refine ⟨by rw [hopens.pools.1, hopens.pools.2]; rfl, _, rfl, hopens.id.symm, rfl,
      fun side => ?_, fun side user => ?_⟩
    · cases side with
      | up => exact hopens.pools.1.symm
      | down => exact hopens.pools.2.symm
    · have hposition : (s.rounds.openRound round).position.get (round.roundId, user) = none :=
        hnone.position user
      rw [hposition]
      cases side <;> rfl

/-- Claiming moves the same amount in the model. -/
theorem Reflects.claim (hreflects : Reflects s model) (user : A)
    (hfits : IsAmount (s.vault.balanceOf user + s.vault.pendingOf user)) :
    ∃ after, Prod.fst <$> model.claim user = .ok after ∧
      Reflects { s with vault := s.vault.claim user } after := by
  have hpending := hreflects.accounts.pending user
  cases hentry : model.pendingWinnings.get user with
  | none =>
      have hzero : s.vault.pendingOf user = 0 := by
        rw [← hpending]
        simp [SortedMap.getD, hentry]
      refine ⟨model, ?_, hreflects.of_same ?_ rfl⟩
      · unfold ReferenceModel.claim
        rw [hentry]
        rfl
      · exact if_pos hzero
  | some amount =>
      have hamount : s.vault.pendingOf user = amount := by
        rw [← hpending]
        simp [SortedMap.getD, hentry]
      have hsum : IsAmount (model.balances.getD user 0 + amount) := by
        rw [hreflects.accounts.balances, ← hamount]
        exact hfits
      refine ⟨{ model with
        balances := model.balances.insert user (model.balances.getD user 0 + amount)
        pendingWinnings := model.pendingWinnings.remove user }, ?_, ?_, hreflects.rounds⟩
      · unfold ReferenceModel.claim
        rw [hentry]
        show Prod.fst <$> (do
          let balances ← addTo model.balances user amount
          return ({ model with
            balances, pendingWinnings := model.pendingWinnings.remove user }, amount)) = _
        rw [addTo_of_fits hsum, ok_bind]
        rfl
      · have hsame : (s.vault.claim user).treasury = s.vault.treasury ∧
            (s.vault.claim user).insuranceFund = s.vault.insuranceFund := by
          unfold Vault.claim
          split <;> exact ⟨rfl, rfl⟩
        refine ⟨fun other => ?_, fun other => ?_, hreflects.accounts.treasury.trans hsame.1.symm,
          hsame.2.trans hreflects.accounts.fund⟩
        · rw [SortedMap.getD_insert, hreflects.accounts.balances, hreflects.accounts.balances,
            ← hamount]
          unfold Vault.claim
          split_ifs with hother hzero hzero
          · rw [hzero, add_zero, hother]
          · simp [Vault.balanceOf, Store.getD_set, hother]
          · rfl
          · simp [Vault.balanceOf, Store.getD_set, hother]
        · rw [SortedMap.getD_remove, hreflects.accounts.pending]
          unfold Vault.claim
          split_ifs with hother hzero hzero
          · rw [hother, hzero]
          · simp [Vault.pendingOf, Store.getD_remove, hother]
          · rfl
          · simp [Vault.pendingOf, Store.getD_remove, hother]

/-- A batch of claims is one claim after the other. -/
theorem Reflects.claimAll (hreflects : Reflects s model) (users : List A)
    (hfits : ∀ user, IsAmount (s.vault.balanceOf user + s.vault.pendingOf user)) :
    ∃ after, users.foldlM (fun model user => Prod.fst <$> model.claim user) model = .ok after ∧
      Reflects { s with vault := users.foldl Vault.claim s.vault } after := by
  induction users generalizing s model with
  | nil => exact ⟨model, rfl, hreflects⟩
  | cons user rest ih =>
      obtain ⟨middle, hclaimed, hmiddle⟩ := hreflects.claim user (hfits user)
      obtain ⟨after, hrest, hafter⟩ := ih hmiddle fun other => by
        have hsum := @claim_sum _ other _ s.vault user
        show IsAmount ((s.vault.claim user).balanceOf other + (s.vault.claim user).pendingOf other)
        rw [hsum]
        exact hfits other
      refine ⟨after, ?_, hafter⟩
      rw [List.foldlM_cons, hclaimed, ok_bind]
      exact hrest

@[simp] theorem BetSide.isUp_inj {side other : BetSide} :
    other.isUp = side.isUp ↔ other = side := by
  cases side <;> cases other <;> decide

@[simp] theorem Round.withPool_roundId (round : Round) (side : BetSide) (amount : ℤ) :
    (round.withPool side amount).roundId = round.roundId := by
  cases side <;> rfl

theorem Round.withPool_pool (round : Round) (side other : BetSide) (amount : ℤ) :
    (round.withPool side amount).pool other =
      round.pool other + if other = side then amount else 0 := by
  cases side <;> cases other <;> simp [Round.withPool, Round.pool]

theorem Round.withPool_sum (round : Round) (side : BetSide) (amount : ℤ) :
    (round.withPool side amount).poolUp + (round.withPool side amount).poolDown =
      round.poolUp + round.poolDown + amount := by
  cases side <;> simp only [Round.withPool] <;> ring

/-- The pools of the active round are covered by the supply. -/
theorem Storage.Healthy.pools_bounds {ledger : Ledger} (hhealthy : s.Healthy ledger.sequence)
    {round : Round} (hactive : s.rounds.activeRound = some round) (hmode : round.mode = .upDown) :
    (∀ side, 0 ≤ round.pool side) ∧ round.poolUp + round.poolDown ≤ supplyLimit := by
  have hbook := hhealthy.ordered.active_represented hactive
  have hstakes := hhealthy.ordered.totalStake_le_escrow hbook
  have hsupply := hhealthy.withinSupply
  refine ⟨(hbook.upDown hmode).pool_nonneg, ?_⟩
  rw [(hbook.upDown hmode).pools_eq, ← hmode]
  cases hlisted : s.rounds.participants round.roundId with
  | nil =>
      simp only [Rounds.totalStake, hlisted, List.map_nil, List.sum_nil]
      decide
  | cons user rest =>
      have hlimit := hsupply.supply user
      have hbalance := hsupply.balance user
      have hpending := hsupply.pending user
      have htreasury := hsupply.treasury
      have hfund := hsupply.fund
      omega

/-- A bet of a new user is added to the model round. -/
theorem ReflectsRound.bet {rounds : Rounds A} {round : Round} {reference : ReferenceRound A}
    {user : A} {amount : ℤ} {side : BetSide} (hround : ReflectsRound rounds round reference)
    (hnew : rounds.position.get (round.roundId, user) = none)
    (hpool : IsAmount (round.pool side + amount)) (hamount : IsAmount amount) :
    ∃ placed, reference.addBet user amount side.isUp = .ok placed ∧
      ReflectsRound (rounds.bet round user amount side) (round.withPool side amount) placed := by
  have hfresh : ∀ other : BetSide, (reference.bets other.isUp).get user = none := by
    intro other
    rw [hround.bets, hnew]
    rfl
  have hbet : IsAmount ((reference.bets side.isUp).getD user 0 + amount) := by
    rw [SortedMap.getD, hfresh side]
    simpa using hamount
  obtain ⟨placed, hadded, hid, hkept, hpools, hbets⟩ :=
    ReferenceRound.addBet_eq_ok (by rw [hround.pools]; exact hpool) hbet
  refine ⟨placed, hadded, ?_, hkept.trans hround.active, fun other => ?_, fun other account => ?_⟩
  · rw [hid, hround.roundId, Round.withPool_roundId]
  · simp only [hpools, hround.pools, Round.withPool_pool, BetSide.isUp_inj]
  · have hposition : (rounds.bet round user amount side).position =
      rounds.position.set (round.roundId, user) { amount := amount, side := side } := rfl
    rw [hbets, hposition, Round.withPool_roundId, Store.get_set]
    by_cases hsame : account = user
    · subst hsame
      rw [if_pos rfl]
      by_cases hside : other = side
      · subst hside
        rw [if_pos rfl, SortedMap.get_insert, if_pos rfl, SortedMap.getD, hfresh other]
        simp
      · rw [if_neg (mt BetSide.isUp_inj.mp hside), hfresh other]
        simp [Ne.symm hside]
    · have hkey : (round.roundId, account) ≠ (round.roundId, user) := by simpa using hsame
      rw [if_neg hkey, ← hround.bets]
      split_ifs with hside
      · rw [SortedMap.get_insert, if_neg hsame]
      · rfl

/-- A bet is placed in the model. -/
theorem Reflects.bet {ledger : Ledger} (hreflects : Reflects s model)
    (hhealthy : s.Healthy ledger.sequence) (hafter : s'.Healthy ledger.sequence) {round : Round}
    {user : A} {amount : ℤ} {side : BetSide} (hallowed : StakeAllowed env s round user amount)
    (hmode : round.mode = .upDown) (hnew : s.rounds.position.get (round.roundId, user) = none)
    (hvault : s'.vault = s.vault.debit user amount)
    (hrounds : s'.rounds = s.rounds.bet round user amount side) :
    ∃ after, Prod.fst <$> model.placeBet user amount side.isUp = .ok after ∧
      Reflects s' after := by
  obtain ⟨htotal, reference, hcurrent, hround⟩ := hreflects.rounds.round round hallowed.active
  obtain ⟨hmin, hroom⟩ := supplyLimit_room
  obtain ⟨hpos, hcovered⟩ := hallowed.covered
  have hactive : s'.rounds.activeRound = some (round.withPool side amount) := by
    rw [hrounds]
    rfl
  obtain ⟨hpools, hlimit⟩ := hafter.pools_bounds hactive (by cases side <;> exact hmode)
  have hgrown := round.withPool_pool side side amount
  have hsides := (round.withPool side amount).pool_add_other side
  have hself := hpools side
  have hother := hpools side.other
  have hsum := round.withPool_sum side amount
  obtain ⟨hpast, hbefore⟩ := hhealthy.pools_bounds hallowed.active hmode
  have hstaked := hpast side
  rw [if_pos rfl] at hgrown
  obtain ⟨placed, hadded, hplaced⟩ := hround.bet hnew
    (by rw [← hgrown]; exact isAmount_of_supply hself (by omega))
    (isAmount_of_supply hpos.le (by omega))
  have hbalance := hreflects.accounts.balances user
  have hsupply := hhealthy.withinSupply.supply user
  have hremains : saturatingSub (model.balances.getD user 0) amount =
      s.vault.balanceOf user - amount := by
    have hpending := hhealthy.withinSupply.pending user
    have htreasury := hhealthy.withinSupply.treasury
    have hfund := hhealthy.withinSupply.fund
    have hescrow := hhealthy.withinSupply.escrow
    unfold saturatingSub
    omega
  have hgrows : saturatingAdd model.totalPool amount = round.poolUp + round.poolDown + amount := by
    rw [htotal]
    unfold saturatingAdd
    omega
  refine ⟨{ model.withdraw user amount with
    totalPool := saturatingAdd model.totalPool amount
    activeRound := some placed }, ?_, ?_, ?_⟩
  · unfold ReferenceModel.placeBet
    rw [if_neg (by omega), if_neg (by omega), hcurrent]
    show Prod.fst <$> (if reference.active then do
        let round ← reference.addBet user amount side.isUp
        return ({ model.withdraw user amount with
          totalPool := saturatingAdd model.totalPool amount
          activeRound := some round }, true)
      else return (model, false)) = _
    rw [if_pos hround.active, hadded, ok_bind]
    rfl
  · rw [hvault]
    refine ⟨fun other => ?_, hreflects.accounts.pending, hreflects.accounts.treasury,
      hreflects.accounts.fund⟩
    rw [balanceOf_debit]
    show (model.balances.insert user _).getD other 0 = _
    rw [SortedMap.getD_insert, hremains]
    split_ifs with hsame
    · rw [hsame]
    · rw [hreflects.accounts.balances, sub_zero]
  · rw [hrounds]
    refine ⟨fun hidle => (nomatch hidle), fun after hopen => ?_⟩
    obtain rfl := Option.some.inj hopen
    exact ⟨hgrows.trans hsum.symm, placed, rfl, hplaced⟩

end Operations

end XelmaMarket
