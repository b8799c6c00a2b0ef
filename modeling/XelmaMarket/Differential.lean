import XelmaMarket.HarnessEnds
import XelmaMarket.Treasury

/-!
# The contract refines the reference model

In a history of calls the model has operations for, settled on plain terms, contract and model stay
in parity: the model never traps, and balances, pending winnings, the treasury, the fee rate, the
pause switch and the open round agree after every step.
-/

namespace XelmaMarket

variable {A : Type} [LinearOrder A]

/-! ## Steps -/

section Steps

open Transaction

variable {env : Env A} {s s' : Storage A} {model : ReferenceModel A} {call : Call A}

/-- A mint deposits the initial amount for a new user, and leaves a known one alone. -/
theorem mintInitial_vault (user : A) :
    Ensures (Call.mintInitial user).exec env s fun _ s' => s'.rounds = s.rounds ∧
      ((s.vault.balance.has user = true ∧ s'.vault = s.vault) ∨
        s.vault.balance.get user = none ∧ s'.vault = s.vault.deposit user initialAmount) := by
  simp only [Call.exec, discardResult, mintInitial, ensures_bind, ensures_requireAuth,
    ensures_onControl, ensures_requireSupportedSchema, ensureNormalMode, ensures_policyGate,
    ensures_enforceAccessControl, ensures_gets, ensures_pure]
  intro _ _ _ _ _
  cases hbalance : s.vault.balance.get user with
  | some balance =>
      simp [Store.has, hbalance]
  | none =>
      refine (mintNew_spec user).mono ?_
      intro _ s' hminted
      refine ⟨hminted.2.rounds, .inr ⟨rfl, ?_⟩⟩
      rw [hminted.1]
      simp [Vault.deposit, Vault.balanceOf, Store.getD, hbalance]

theorem claimWinnings_vault (user : A) :
    Ensures (Call.claimWinnings user).exec env s fun _ s' =>
      s' = { s with vault := s.vault.claim user } := by
  simp only [Call.exec, discardResult, claimWinnings, ensures_bind, ensures_onControl,
    ensures_requireSupportedSchema, ensures_requireAuth, ensureNotPaused, ensures_policyGate,
    ensures_pure]
  intro _ _ _
  exact claimPending_spec user

theorem claimMany_vault (users : List A) :
    Ensures (Call.claimMany users).exec env s fun _ s' =>
      s' = { s with vault := users.foldl Vault.claim s.vault } := by
  simp only [Call.exec, discardResult, claimMany, ensures_bind, ensures_onControl,
    ensures_requireSupportedSchema, ensureNotPaused, ensures_policyGate, ensures_reject,
    ensures_pure]
  intro _ _ _ _
  exact (claimEach_spec users []).mono fun _ _ h => h.2

/-- The calls that touch no account and no round, unless a cancellation finds one. -/
def Call.IsBackground : Call A → Prop
  | .control _ | .migrateSchemaV1ToV2 _ | .migrateSchemaV2ToV3 _ | .resetLeaderboardSeason
  | .cancelRound _ => True
  | _ => False

/-- A call in the background that ends no round changes nothing the model keeps. -/
theorem Effect.unchanged (heffect : Effect env s call s') (hending : call.ending s = none)
    (hcall : call.IsBackground) : s'.vault = s.vault ∧ s'.rounds = s.rounds := by
  have hunpriced : call.price = none := by
    cases call with
    | resolveRound | resolveRoundMulti => exact hcall.elim
    | _ => rfl
  cases heffect with
  | quiet _ _ hsame => exact ⟨hsame.vault, hsame.rounds⟩
  | mint | treasuryAddress | topUp | reclaim | reveal | cashOut => exact hcall.elim
  | payFee _ _ _ _ hshape | payFund _ _ _ _ hshape =>
      rcases hshape with rfl | ⟨executor, proposalId, rfl⟩ <;> exact hcall.elim
  | claim _ _ _ hshape => rcases hshape with ⟨user, rfl, -⟩ | rfl <;> exact hcall.elim
  | openRound _ _ _ hshape =>
      rcases hshape with ⟨startPrice, mode, rfl⟩ | rfl <;> exact hcall.elim
  | stake _ _ _ _ _ _ _ _ _ _ hplaced =>
      rcases hplaced.stakes with ⟨side, rfl⟩ | ⟨price, rfl⟩ | ⟨price, rfl⟩ | ⟨hash, rfl⟩ <;>
        exact hcall.elim
  | stage _ _ _ _ hprice =>
      rw [hunpriced] at hprice
      cases hprice
  | ending _ ending _ hsome =>
      rw [hending] at hsome
      cases hsome

end Steps

/-! ## Runs -/

section Runs

variable {host : Host A} {chain chain' : Chain A} {model : ReferenceModel A} {signers : List A}
  {call : Call A} {trace : List (Transition (Chain A) (Action A))}

/-- A submitted price settles the open round in the model as in the contract. -/
theorem InParity.settles {startLedger : ℕ} (hparity : InParity chain.storage model)
    (hhealthy : chain.Healthy) (hstep : Step host chain (.invoke signers call) chain')
    (hmirrored : Mirrored ⟨chain, .invoke signers call, chain'⟩)
    (hbound : call.boundTo = some startLedger) :
    ∃ round finalPrice after, chain.storage.rounds.activeRound = some round ∧
      call.price = some finalPrice ∧
      Prod.fst <$> model.resolveRound (decide (round.priceStart < finalPrice)) = .ok after ∧
      Reflects chain'.storage after := by
  have hbefore : chain.storage.Healthy chain.ledger.sequence := hhealthy
  have hafter : chain'.storage.Healthy chain.ledger.sequence :=
    hstep.ledger_eq ▸ hstep.healthy hhealthy
  obtain ⟨round, finalPrice, -, -, hprice, hsettled⟩ :=
    hstep.ensured (Call.ensures_settled (hbefore.inOrder chain.ledger.sequence_lt) hbound)
  have hplain := hmirrored.plain signers call finalPrice round rfl hprice hsettled.active
  have hresolution : chain.storage.resolution finalPrice =
      some ⟨round, .resolved finalPrice⟩ := by
    unfold Storage.resolution
    simp [hsettled.active, hplain.enough, hplain.undisputed]
  obtain ⟨after, hresolved, hreflected⟩ := hparity.toReflects.resolve hbefore hafter hparity.fee
    hsettled.active (hmirrored.upDown round hsettled.active) hplain
    (hsettled.ends _ hresolution) (hsettled.computes hresolution)
  exact ⟨round, finalPrice, after, hsettled.active, hprice, hresolved, hreflected⟩

/-- The model follows every call it has an operation for. -/
theorem InParity.follow (hparity : InParity chain.storage model) (hhealthy : chain.Healthy)
    (hstep : Step host chain (.invoke signers call) chain')
    (hmirrored : Mirrored ⟨chain, .invoke signers call, chain'⟩) :
    ∃ after, model.follow chain.storage call = .ok after ∧ Reflects chain'.storage after := by
  have hbefore : chain.storage.Healthy chain.ledger.sequence := hhealthy
  have hafter : chain'.storage.Healthy chain.ledger.sequence :=
    hstep.ledger_eq ▸ hstep.healthy hhealthy
  have hreflects := hparity.toReflects
  have heffect := Chain.Healthy.effect hhealthy hstep
  have hsupply := hbefore.withinSupply
  have hclaims : ∀ user, IsAmount
      (chain.storage.vault.balanceOf user + chain.storage.vault.pendingOf user) := by
    intro user
    have htotal := hsupply.supply user
    have hbalance := hsupply.balance user
    have hpending := hsupply.pending user
    have htreasury := hsupply.treasury
    have hfund := hsupply.fund
    have hescrow := hsupply.escrow
    exact isAmount_of_supply (by omega) (by omega)
  cases call with
  | control | migrateSchemaV1ToV2 | migrateSchemaV2ToV3 | resetLeaderboardSeason =>
      obtain ⟨hvault, hrounds⟩ := heffect.unchanged rfl trivial
      exact ⟨model, rfl, hreflects.of_same hvault hrounds⟩
  | mintInitial user =>
      obtain ⟨hrounds, ⟨hknown, hvault⟩ | ⟨hnew, hvault⟩⟩ := hstep.ensured (mintInitial_vault user)
      · exact ⟨model, if_pos hknown, hreflects.of_same hvault hrounds⟩
      · obtain ⟨after, hdeposited, hreflected⟩ := hreflects.mint hnew hvault hrounds
        have hfresh : ¬ chain.storage.vault.balance.has user = true := by simp [Store.has, hnew]
        exact ⟨after, (if_neg hfresh).trans hdeposited, hreflected⟩
  | createRound startPrice mode =>
      obtain ⟨round, hopens⟩ := hstep.ensured (Call.ensures_opens (.inl ⟨startPrice, mode, rfl⟩))
      exact ⟨_, rfl, hreflects.opens hbefore.ordered hopens⟩
  | createNextFromTemplate =>
      obtain ⟨round, hopens⟩ := hstep.ensured (Call.ensures_opens (.inr rfl))
      exact ⟨_, rfl, hreflects.opens hbefore.ordered hopens⟩
  | placeBet user amount side =>
      obtain ⟨round, hallowed, hmode, hnew, hplaced⟩ :=
        hstep.ensured (placeBet_spec user amount side)
      exact hreflects.bet hbefore hafter hallowed hmode hnew (by rw [hplaced]) (by rw [hplaced])
  | cancelRound reason =>
      cases hactive : chain.storage.rounds.activeRound with
      | none =>
          obtain ⟨hvault, hrounds⟩ := heffect.unchanged (by simp [Call.ending, hactive]) trivial
          refine ⟨model, ?_, hreflects.of_same hvault hrounds⟩
          show Prod.fst <$> model.cancelRound = _
          unfold ReferenceModel.cancelRound
          rw [(hreflects.rounds.idle hactive).1]
          rfl
      | some round =>
          have hends := Chain.Healthy.ends hhealthy hstep
            (show Call.ending chain.storage (.cancelRound reason) = some ⟨round, .cancelled reason⟩
              by simp [Call.ending, hactive])
          exact hreflects.cancel hbefore hafter hends hactive (hmirrored.upDown round hactive)
  | resolveRound payload =>
      obtain ⟨round, finalPrice, after, hactive, hprice, hresolved, hreflected⟩ :=
        hparity.settles hhealthy hstep hmirrored rfl
      refine ⟨after, ?_, hreflected⟩
      unfold ReferenceModel.follow
      simp only [hactive, hprice]
      exact hresolved
  | resolveRoundMulti payload =>
      obtain ⟨round, finalPrice, after, hactive, hprice, hresolved, hreflected⟩ :=
        hparity.settles hhealthy hstep hmirrored rfl
      refine ⟨after, ?_, hreflected⟩
      unfold ReferenceModel.follow
      simp only [hactive, hprice]
      exact hresolved
  | claimWinnings user =>
      obtain ⟨after, hclaimed, hreflected⟩ := hreflects.claim user (hclaims user)
      refine ⟨after, hclaimed, ?_⟩
      rw [hstep.ensured (claimWinnings_vault user)]
      exact hreflected
  | claimMany users =>
      obtain ⟨after, hclaimed, hreflected⟩ := hreflects.claimAll users hclaims
      refine ⟨after, hclaimed, ?_⟩
      rw [hstep.ensured (claimMany_vault users)]
      exact hreflected
  | _ => exact (hmirrored.call signers _ rfl).elim

/-- Told the configuration, the model is in parity. -/
theorem Reflects.configure {s : Storage A} (hreflects : Reflects s model) :
    InParity s (model.configure s.control.settings) := by
  by_cases hsame : model.paused = s.control.settings.isPaused
  · have hkept : model.configure s.control.settings =
        model.setFeeBps s.control.settings.protocolFeeBps := if_pos hsame
    rw [hkept]
    exact ⟨⟨hreflects.accounts, hreflects.rounds⟩, rfl, hsame⟩
  · have hturned : model.configure s.control.settings =
        (model.setFeeBps s.control.settings.protocolFeeBps).pause := if_neg hsame
    rw [hturned]
    refine ⟨⟨hreflects.accounts, hreflects.rounds⟩, rfl, ?_⟩
    show (!model.paused) = s.control.settings.isPaused
    exact Bool.not_eq.mpr hsame

/-- Every step the model can follow keeps it in parity. -/
theorem InParity.step {action : Action A} (hparity : InParity chain.storage model)
    (hhealthy : chain.Healthy) (hstep : Step host chain action chain')
    (hmirrored : Mirrored ⟨chain, action, chain'⟩) :
    ∃ after, model.followStep ⟨chain, action, chain'⟩ = .ok after ∧
      InParity chain'.storage after := by
  cases action with
  | invoke signers call =>
      obtain ⟨followed, hfollowed, hreflected⟩ := hparity.follow hhealthy hstep hmirrored
      refine ⟨_, ?_, hreflected.configure⟩
      show (do
        let model ← model.follow chain.storage call
        return model.configure chain'.storage.control.settings) = _
      rw [hfollowed]
      rfl
  | closeLedger ledger =>
      cases hstep with
      | closeLedger => exact ⟨model, rfl, hparity⟩
  | expire key =>
      cases hstep with
      | expire =>
          exact ⟨model, rfl, ⟨⟨hparity.accounts, hparity.rounds⟩, hparity.fee, hparity.paused⟩⟩

end Runs

/-! ## The model's own invariants -/

section Invariants

variable {s : Storage A} {model : ReferenceModel A} {ledger : ℕ}

/-- The values of a map that reads like a store without negative entries are not negative, and their
sum is at most the store's total. -/
theorem SortedMap.sum_le_total {map : SortedMap A ℤ} {store : Store A ℤ}
    (hread : ∀ user, map.getD user 0 = store.getD user 0)
    (hnonneg : ∀ user amount, store.get user = some amount → 0 ≤ amount) :
    (∀ value ∈ map.values, 0 ≤ value) ∧
      map.values.sum ≤ store.total fun _ amount => amount := by
  have hvalue : ∀ entry ∈ map.entries, entry.2 = store.weight (fun _ amount => amount) entry.1 := by
    intro entry hmem
    have hget : map.get entry.1 = some entry.2 := (map.mem_entries_iff).mp hmem
    rw [Store.weight_eq_getD, ← hread, SortedMap.getD, hget]
    rfl
  have hvalues : map.values = map.keys.map (store.weight fun _ amount => amount) := by
    unfold SortedMap.values SortedMap.keys
    rw [List.map_map]
    exact List.map_congr_left hvalue
  constructor
  · intro value hmem
    rw [hvalues] at hmem
    obtain ⟨user, -, rfl⟩ := List.mem_map.mp hmem
    exact Store.weight_nonneg _ hnonneg user
  · rw [hvalues, ← List.sum_toFinset _ map.keys_nodup]
    exact Store.sum_weight_le_total _ hnonneg _

/-- Where everything held is an amount, the model in parity violates none of its invariants. -/
theorem InParity.checkInvariants (hparity : InParity s model) (hhealthy : s.Healthy ledger)
    (hvalue : s.value ≤ i128Max) : model.checkInvariants = .ok [] := by
  have hsolvent := hhealthy.solvent
  obtain ⟨hbalances, hbalance⟩ :=
    SortedMap.sum_le_total hparity.accounts.balances hsolvent.balance
  obtain ⟨hpendings, hpending⟩ := SortedMap.sum_le_total hparity.accounts.pending hsolvent.pending
  have htreasury := hsolvent.treasury
  have hfund := hsolvent.fund
  have hescrow := hhealthy.ordered.escrow_nonneg
  have hbalance_nonneg := List.sum_nonneg hbalances
  have hpending_nonneg := List.sum_nonneg hpendings
  have hcovered : model.balances.values.sum + model.pendingWinnings.values.sum +
      model.protocolFeeTreasury ≤ i128Max := by
    rw [hparity.accounts.treasury]
    unfold Storage.value Vault.worth Vault.pendingTotal at hvalue
    omega
  rw [← hparity.accounts.treasury] at htreasury
  have hamount : ∀ x : ℤ, 0 ≤ x → x ≤ i128Max → plain x = .ok x :=
    fun x hnonneg hle => plain_of_isAmount ⟨le_trans (by decide) hnonneg, hle⟩
  have hsums : sumPlain model.balances.values = .ok model.balances.values.sum ∧
      sumPlain model.pendingWinnings.values = .ok model.pendingWinnings.values.sum :=
    ⟨sumPlain_of_addUp (addUpFrom_of_nonneg le_rfl hbalances (by omega)),
      sumPlain_of_addUp (addUpFrom_of_nonneg le_rfl hpendings (by omega))⟩
  have htotal : model.invariantNonNegativeTotal = .ok true := by
    unfold ReferenceModel.invariantNonNegativeTotal
    rw [hsums.1, ok_bind, hsums.2, ok_bind, hamount _ (by omega) (by omega), ok_bind,
      hamount _ (by omega) (by omega), ok_bind, decide_eq_true (by omega)]
    rfl
  have hpart : model.invariantPendingLePool = .ok true := by
    unfold ReferenceModel.invariantPendingLePool
    rw [hsums.2, ok_bind, decide_eq_true hpending_nonneg]
    rfl
  unfold ReferenceModel.checkInvariants
  rw [htotal, ok_bind, hpart]
  rfl

end Invariants

/-! ## Histories -/

section Histories

variable {host : Host A} {chain : Chain A} {trace : List (Transition (Chain A) (Action A))}

/-- A new contract and a new model are in parity. -/
theorem inParity_new (ledger : Ledger) :
    InParity (Chain.genesis (A := A) ledger).storage (.new A) where
  accounts := ⟨fun _ => rfl, fun _ => rfl, rfl, rfl⟩
  rounds := ⟨fun _ => ⟨rfl, rfl⟩, fun _ hactive => (nomatch hactive)⟩
  fee := rfl
  paused := rfl

omit [LinearOrder A] in
/-- A step the model can follow writes no address under the treasury key. -/
theorem Mirrored.readable {transition : Transition (Chain A) (Action A)}
    (hmirrored : Mirrored transition) : ¬ SetsTreasury transition := by
  rintro ⟨signers, call, hlabel, executor, proposalId, proposal, treasury, rfl, -⟩
  exact hmirrored.call signers _ hlabel

/-- Along every history of steps the model can follow, the model told of every successful call does
not trap and ends in parity with the contract: every balance and all pending winnings, the treasury,
the fee rate, the pause switch and the open round with its pools and bets agree. As long as what was
minted is an amount, the model's own checks find no violation. -/
theorem differential_parity (hhistory : History host trace chain)
    (hmirrored : ∀ transition ∈ trace, Mirrored transition) :
    ∃ model, ReferenceModel.followAll trace = .ok model ∧ InParity chain.storage model ∧
      (totalMinted trace ≤ i128Max → model.checkInvariants = .ok []) := by
  obtain ⟨ledger, hrun⟩ := hhistory
  obtain ⟨model, hfollowed, hparity⟩ := hrun.invariant_of_trace (fun trace chain =>
    (∀ transition ∈ trace, Mirrored transition) → ∃ model,
      ReferenceModel.followAll trace = .ok model ∧ InParity chain.storage model)
    (fun _ => ⟨_, rfl, inParity_new ledger⟩) (by
      intro earlier transition hearlier hstep hfollows hmirrored
      obtain ⟨model, hfollowed, hparity⟩ :=
        hfollows fun other hmem => hmirrored other (List.mem_append_left _ hmem)
      have hhealthy : transition.before.Healthy := Reachable.healthy ⟨earlier, ledger, hearlier⟩
      obtain ⟨after, hstepped, hafter⟩ :=
        hparity.step hhealthy hstep (hmirrored transition (by simp))
      refine ⟨after, ?_, hafter⟩
      unfold ReferenceModel.followAll at hfollowed ⊢
      rw [List.foldlM_append, hfollowed, ok_bind, List.foldlM_cons, hstepped, ok_bind]
      rfl) hmirrored
  have hhistory : History host trace chain := ⟨ledger, hrun⟩
  have hhealthy : chain.storage.Healthy chain.ledger.sequence := hhistory.healthy
  refine ⟨model, hfollowed, hparity, fun hminted => hparity.checkInvariants hhealthy ?_⟩
  have hvalue := hhistory.value_le fun transition hmem => (hmirrored transition hmem).readable
  exact hvalue.trans hminted

end Histories

/-- The open round and the price submitted for it allow the model to follow a transition. -/
def followable (transition : Transition (Chain ℕ) (Action ℕ)) : Bool :=
  transition.before.storage.rounds.activeRound.all fun round =>
    decide (round.mode = .upDown) &&
      match transition.label with
      | .invoke _ call =>
          call.price.all fun finalPrice =>
            decide (PlainSettlement transition.before.storage round finalPrice)
      | _ => true

/-- In the trial round with a fee the model collects 5 as the contract does, and pays user 3, who
staked 70, the other 95. -/
theorem fee_round_in_parity : ∃ trace chain model, History trialHost trace chain ∧
    ReferenceModel.followAll trace = .ok model ∧ model.protocolFeeTreasury = 5 ∧
      model.balances.getD 3 0 = initialAmount + 25 ∧ model.checkInvariants = .ok [] := by
  obtain ⟨trace, chain, hhistory, hlabels, hfits, hend⟩ :=
    exists_trial_trace (feeRound ++ [.invoke [3] (.claimWinnings 3)]) followable
      (fun chain => decide (chain.storage.vault.treasury = 5 ∧
        chain.storage.vault.balanceOf 3 = initialAmount + 25)) (by decide +kernel)
  obtain ⟨htreasury, hbalance⟩ := of_decide_eq_true hend
  have hmirrored : ∀ transition ∈ trace, Mirrored transition := by
    intro transition hmem
    have hlabel : transition.label ∈ feeRound ++ [.invoke [3] (.claimWinnings 3)] :=
      hlabels ▸ List.mem_map_of_mem hmem
    have hfollowable := hfits transition hmem
    refine ⟨fun signers call hcall => ?_, fun round hactive => ?_,
      fun signers call finalPrice round hcall hprice hactive => ?_⟩
    · rw [hcall] at hlabel
      simp only [feeRound, trialSetup, List.cons_append, List.nil_append, List.mem_cons,
        Action.invoke.injEq, reduceCtorEq, List.not_mem_nil, or_false, false_or] at hlabel
      rcases hlabel with h | h | h | h | h | h | h | h | h | h | h | h <;>
        (obtain ⟨-, rfl⟩ := h; trivial)
    · unfold followable at hfollowable
      rw [hactive] at hfollowable
      simp only [Option.all_some, Bool.and_eq_true, decide_eq_true_eq] at hfollowable
      exact hfollowable.1
    · unfold followable at hfollowable
      rw [hactive, hcall] at hfollowable
      simp only [Option.all_some, Bool.and_eq_true, decide_eq_true_eq, hprice] at hfollowable
      exact hfollowable.2
  obtain ⟨model, hfollowed, hparity, hchecked⟩ := differential_parity hhistory hmirrored
  refine ⟨trace, chain, model, hhistory, hfollowed, hparity.accounts.treasury.trans htreasury,
    (hparity.accounts.balances 3).trans hbalance, hchecked ?_⟩
  have hlength : trace.length = (feeRound ++ [Action.invoke [3] (.claimWinnings 3)]).length := by
    rw [← hlabels, List.length_map]
  have hminted := hhistory.totalMinted_le
  rw [hlength] at hminted
  exact hminted.trans (by decide)

end XelmaMarket
