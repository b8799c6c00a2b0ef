import XelmaMarket.Script

/-!
# Conservation of value

No account and no stake is ever negative. A mint brings in the initial amount once for each
address, no other call brings value in, and value is lost to rounding only: in a competitive
UpDown settlement and in a cancellation that pays a coverage.
-/

namespace XelmaMarket

variable {A : Type} [LinearOrder A] {env : Env A} {s s' : Storage A} {call : Call A}

/-! ## No component is negative -/

/-- No component of the value is negative. -/
structure Storage.NoDebt (s : Storage A) : Prop where
  balance : ∀ user amount, s.vault.balance.get user = some amount → 0 ≤ amount
  pending : ∀ user amount, s.vault.pendingWinnings.get user = some amount → 0 ≤ amount
  position : ∀ key position, s.rounds.position.get key = some position → 0 ≤ position.amount
  precision : ∀ roundId, ∀ user ∈ s.rounds.participants roundId,
    0 ≤ precisionStake s.rounds roundId user
  treasury : 0 ≤ s.vault.treasury
  fund : 0 ≤ s.vault.insuranceFund

omit [LinearOrder A] in
/-- Stored positions are positive. -/
theorem Rounds.Ordered.position_pos {rounds : Rounds A} (hordered : rounds.Ordered) {key : ℕ × A}
    {position : UserPosition} (hposition : rounds.position.get key = some position) :
    0 < position.amount := by
  obtain ⟨roundId, user⟩ := key
  obtain ⟨round, rfl, hbook⟩ := hordered.represented roundId
  cases hmode : round.mode with
  | upDown => exact (hbook.upDown hmode).amount_pos user position hposition
  | precision => simp [(hbook.precision hmode).no_position] at hposition

omit [LinearOrder A] in
/-- A participant's Precision stake is positive in a Precision round and absent in any other. -/
theorem Rounds.Ordered.precisionStake_nonneg {rounds : Rounds A} (hordered : rounds.Ordered)
    {roundId : ℕ} {user : A} (huser : user ∈ rounds.participants roundId) :
    0 ≤ precisionStake rounds roundId user := by
  obtain ⟨round, rfl, hbook⟩ := hordered.represented roundId
  cases hmode : round.mode with
  | upDown =>
      have h := hbook.upDown hmode
      simp [precisionStake, h.no_prediction, h.no_commitment]
  | precision =>
      have hpos := hbook.stake_pos huser
      rw [hmode] at hpos
      exact hpos.le

omit [LinearOrder A] in
/-- A healthy storage is in no debt. -/
theorem Storage.Healthy.noDebt {ledger : ℕ} (hhealthy : s.Healthy ledger) : s.NoDebt where
  balance := hhealthy.solvent.balance
  pending := hhealthy.solvent.pending
  position _ _ hposition := (hhealthy.ordered.position_pos hposition).le
  precision _ _ huser := hhealthy.ordered.precisionStake_nonneg huser
  treasury := hhealthy.solvent.treasury
  fund := hhealthy.solvent.fund

/-! ## What a call does to the value -/

/-- The participants of a round with a positive stake. -/
def Rounds.stakers (rounds : Rounds A) (round : Round) : List A :=
  (rounds.participants round.roundId).filter fun user =>
    0 < rounds.stakeOf round.mode round.roundId user

omit [LinearOrder A] in
/-- Every participant of a represented round has a positive stake. -/
theorem Represents.stakers_eq {rounds : Rounds A} {round : Round}
    (hbook : Represents rounds round) :
    rounds.stakers round = rounds.participants round.roundId :=
  List.filter_eq_self.mpr fun _ huser => by simpa using hbook.stake_pos huser

/-- What a call does to the value: a mint of a new address brings in the initial amount, nothing
else brings value in, and value is lost in two situations only. -/
structure ValueStep (s : Storage A) (call : Call A) (s' : Storage A) : Prop where
  minted : ∀ user, call = .mintInitial user →
    s'.value = s.value + if s.vault.balance.has user then 0 else 10000000000
  others : (∀ user, call ≠ .mintInitial user) → s'.value ≤ s.value
  falls : s'.value < s.value →
    (∃ ending finalPrice, call.ending s = some ending ∧ ending.IsCompetitive finalPrice ∧
      s.value - s'.value < (s.rounds.upDownWinners ending.round finalPrice).length) ∨
    ∃ round reason, call = .cancelRound reason ∧ s.rounds.activeRound = some round ∧
      0 < s.coveragePaid ⟨round, .cancelled reason⟩ ∧
      s.value - s'.value < (s.rounds.stakers round).length

/-- What an ending loses is lost to rounding. -/
theorem lostBy_cases {ending : Ending} (hbook : Represents s.rounds ending.round)
    (hcap : FeeCapped s.control.settings.protocolFeeBps) (hlost : 0 < s.lostBy ending) :
    (∃ finalPrice, ending.IsCompetitive finalPrice ∧
      s.lostBy ending < (s.rounds.upDownWinners ending.round finalPrice).length) ∨
    ∃ reason, ending.kind = .cancelled reason ∧ 0 < s.coveragePaid ending ∧
      s.lostBy ending < (s.rounds.stakers ending.round).length := by
  have hcoverage := coverageGiven_bounds hbook
  unfold Storage.lostBy at hlost ⊢
  rcases @Ending.paid_cases _ _ _ s.control.settings.terms _ hbook hcap with
    hpaid | ⟨finalPrice, hcompetitive, hpaid⟩
  · rcases hcoverage.2 with heq | ⟨hpositive, hlt⟩
    · omega
    · obtain ⟨reason, hkind⟩ := cancelled_of_covered hpositive
      refine .inr ⟨reason, hkind, hpositive, ?_⟩
      rw [hbook.stakers_eq]
      omega
  · have hnone : s.coveragePaid ending = 0 := by
      by_contra hne
      have hpositive := coveragePaid_nonneg (s := s) ending
      obtain ⟨reason, hkind⟩ := @cancelled_of_covered _ s ending (by omega)
      have hprice := hcompetitive.price
      rw [hkind] at hprice
      cases hprice
    have hgiven : s.coverageGiven ending = 0 := by
      simp [Storage.coverageGiven, coverageCredits_eq_nil hnone]
    refine .inl ⟨finalPrice, hcompetitive, ?_⟩
    omega

/-- Every successful call but one that writes an address under the treasury key is a value step. -/
theorem Storage.Healthy.valueStep (hhealthy : s.Healthy env.ledger.sequence)
    (hrun : call.exec env s = .ok (⟨⟩, s')) (htreasury : ¬ call.SetsTreasury s) :
    ValueStep s call s' := by
  have heffect := hhealthy.effect hrun
  have hlost := lost_nonneg hhealthy.ordered hhealthy.fee_capped call
  have hvalue : s'.value = s.value + s.minted call - s.lost call :=
    (heffect.value hhealthy.ordered hhealthy.fee_capped).resolve_right fun h => htreasury h.1
  constructor
  · rintro user rfl
    rw [hvalue, lost_of_no_ending rfl, sub_zero]
    rfl
  · intro hother
    have hminted : s.minted call = 0 := by
      cases call with
      | mintInitial user => exact absurd rfl (hother user)
      | _ => rfl
    omega
  · intro hfalls
    have hminted : 0 ≤ s.minted call := by
      cases call with
      | mintInitial user =>
          simp only [Storage.minted]
          split <;> decide
      | _ => exact le_rfl
    cases hending : call.ending s with
    | none =>
        rw [lost_of_no_ending hending] at hvalue
        omega
    | some ending =>
        have hends := Call.endsBy hending
        have hbook := (hhealthy.ordered.live _ _ (hends.live hhealthy.ordered)).2
        have hlost : s.lost call = s.lostBy ending := by
          rw [Storage.lost, hending]
          rfl
        rw [hlost, minted_of_endsBy hends] at hvalue
        rcases lostBy_cases hbook hhealthy.fee_capped (by omega) with
          ⟨finalPrice, hcompetitive, hlt⟩ | ⟨reason, hkind, hpaid, hlt⟩
        · exact .inl ⟨ending, finalPrice, rfl, hcompetitive, by omega⟩
        · cases hends with
          | cancelled reason round hactive =>
              have hstakers : s.lostBy ⟨round, .cancelled reason⟩ < (s.rounds.stakers round).length :=
                hlt
              exact .inr ⟨round, reason, rfl, hactive, hpaid, by omega⟩
          | resolved | fallbackRefund | voided | finalized => cases hkind

/-! ## Over all histories -/

/-- Throughout every history nothing is negative, and every successful invocation that writes no
address under the treasury key changes the value as a value step does. -/
theorem value_conserved {host : Host A} {chain : Chain A} (hreachable : Reachable host chain) :
    chain.storage.NoDebt ∧
      ∀ signers call chain', Step host chain (.invoke signers call) chain' →
        ¬ call.SetsTreasury chain.storage → ValueStep chain.storage call chain'.storage := by
  refine ⟨Storage.Healthy.noDebt hreachable.healthy, fun signers call chain' hstep htreasury => ?_⟩
  cases hstep with
  | invoke _ _ storage hrun =>
      exact @Storage.Healthy.valueStep _ _ ⟨host, chain.ledger, signers⟩ _ _ _ hreachable.healthy
        hrun htreasury

/-- The first mint of a user brings in the initial amount. -/
theorem value_conserved_first_mint : ∃ chain chain' : Chain ℕ,
    Step trialHost chain (.invoke [6] (.mintInitial 6)) chain' ∧ chain.storage.NoDebt ∧
      chain'.storage.value = chain.storage.value + 10000000000 := by
  obtain ⟨trace, chain, chain', hhistory, hnew⟩ := exists_trial trialSetup
    (.invoke [6] (.mintInitial 6)) (fun chain _ => !chain.storage.vault.balance.has 6)
    (by decide +kernel)
  obtain ⟨hreachable, hstep⟩ := hhistory.last
  obtain ⟨hnodebt, hvalue⟩ := value_conserved hreachable
  have htreasury : ¬ (Call.mintInitial 6).SetsTreasury chain.storage := by
    rintro ⟨_, _, _, _, hcall, -⟩
    cases hcall
  have hminted := (hvalue [6] (.mintInitial 6) chain' hstep htreasury).minted 6 rfl
  rw [Bool.not_eq_true'] at hnew
  exact ⟨chain, chain', hstep, hnodebt, by simpa [hnew] using hminted⟩

end XelmaMarket
