import XelmaMarket.Transfers
import XelmaMarket.Minting
import XelmaMarket.Reproduction

/-!
# The minted supply

What was minted bounds everything the contract holds, unless an address was written under the
treasury key. Where the supply fits 63 bits, the products of two amounts fit 127 bits, so that the
arithmetic of every settlement is in range.
-/

namespace XelmaMarket

open Transaction

variable {A : Type} [LinearOrder A]

/-! ## The supply of a history -/

/-- What a trace minted in total. -/
def totalMinted (trace : List (Transition (Chain A) (Action A))) : ℤ :=
  (trace.map minted).sum

section History

variable {host : Host A} {chain chain' : Chain A} {signers : List A} {call : Call A}
  {trace : List (Transition (Chain A) (Action A))}

/-- What a call brings in is what its transition mints. -/
theorem Step.minted_eq (hstep : Step host chain (.invoke signers call) chain') :
    minted ⟨chain, .invoke signers call, chain'⟩ = chain.storage.minted call := by
  by_cases hmints : ∃ user, call = .mintInitial user
  · obtain ⟨user, rfl⟩ := hmints
    rcases hstep.ensured (Call.ensures_mintInitial user) with ⟨hsame, hknown⟩ | hmint
    · obtain ⟨balance, hbalance⟩ := Option.ne_none_iff_exists'.mp hknown
      simp [minted, hsame, Storage.minted, Store.has, hbalance]
    · simp [minted, Vault.balanceOf, Store.getD, hmint.fresh, hmint.balance, Storage.minted,
        Store.has]
  · cases call with
    | mintInitial user => exact absurd ⟨user, rfl⟩ hmints
    | _ => rfl

/-- A history mints at most once in a step. -/
theorem History.totalMinted_le (hhistory : History host trace chain) :
    totalMinted trace ≤ initialAmount * trace.length := by
  have hsum := List.sum_le_card_nsmul (trace.map minted) initialAmount fun amount hamount => by
    obtain ⟨transition, hmem, rfl⟩ := List.mem_map.mp hamount
    cases (hhistory.of_mem hmem).2.mintStep with
    | mints _ _ _ hminted => exact hminted.le
    | quiet _ hminted | expires _ _ _ hminted =>
        rw [hminted]
        decide
  rwa [List.length_map, nsmul_eq_mul, mul_comm] at hsum

/-- Without an address under the treasury key a history holds no more than it minted. -/
theorem History.value_le (hhistory : History host trace chain)
    (hsets : ∀ transition ∈ trace, ¬ SetsTreasury transition) :
    chain.storage.value ≤ totalMinted trace := by
  obtain ⟨ledger, hrun⟩ := hhistory
  refine hrun.invariant_of_trace (fun trace chain =>
    (∀ transition ∈ trace, ¬ SetsTreasury transition) →
      chain.storage.value ≤ totalMinted trace) (fun _ => ?_) ?_ hsets
  · simp [Storage.value, Vault.worth, Vault.pendingTotal, Rounds.escrow, Chain.genesis,
      Storage.empty, Vault.treasury, Vault.insuranceFund, totalMinted]
  · intro earlier transition hearlier hstep hbound hsets
    have hbefore := hbound fun other hmem => hsets other (List.mem_append_left _ hmem)
    have htotal : totalMinted (earlier ++ [transition]) =
        totalMinted earlier + minted transition := by
      simp [totalMinted]
    rw [htotal]
    obtain ⟨signers, call, hlabel⟩ | ⟨hidle, meter, hsame⟩ := hstep.invokes_or_idles
    · have hhealthy : Storage.Healthy transition.before.ledger.sequence
          transition.before.storage := Reachable.healthy ⟨earlier, ledger, hearlier⟩
      have hnot : ¬ call.SetsTreasury transition.before.storage :=
        fun h => hsets transition (by simp) ⟨signers, call, hlabel, h⟩
      obtain ⟨before, label, after⟩ := transition
      obtain rfl : label = .invoke signers call := hlabel
      have hvalue := ((Chain.Healthy.effect hhealthy hstep).value hhealthy.ordered
        hhealthy.fee_capped).resolve_right fun h => hnot h.1
      have hlost := lost_nonneg hhealthy.ordered hhealthy.fee_capped call
      rw [hstep.minted_eq]
      simp only at hvalue hlost hbefore ⊢
      omega
    · have hminted : minted transition = 0 := by
        unfold minted
        split
        · next hlabel => exact absurd hlabel (hidle _ _)
        · rfl
      rw [hsame, hminted, add_zero]
      exact hbefore

end History

/-! ## Amounts of 63 bits -/

/-- The most two amounts can be for their product to fit. -/
def productLimit : ℤ :=
  2 ^ 63 - 1

theorem mul_le_i128Max {a b : ℤ} (ha : 0 ≤ a ∧ a ≤ productLimit)
    (hb : 0 ≤ b ∧ b ≤ productLimit) : a * b ≤ i128Max :=
  (mul_le_mul ha.2 hb.2 hb.1 (by decide)).trans (by decide)

omit [LinearOrder A] in
/-- The fund and the stakes are a part of the value. -/
theorem Storage.Healthy.le_value {s : Storage A} {ledger : ℕ} (hhealthy : s.Healthy ledger) :
    s.vault.insuranceFund + s.rounds.escrow ≤ s.value := by
  have hbalance : 0 ≤ s.vault.balance.total fun _ amount => amount :=
    Store.total_nonneg _ fun user amount hget => hhealthy.solvent.balance user amount hget
  have hpending := hhealthy.solvent.pendingTotal_nonneg
  have htreasury := hhealthy.solvent.treasury
  unfold Storage.value Vault.worth
  omega

section Settlements

variable {terms : Terms} {rounds : Rounds A} {round : Round} {finalPrice : ℕ}

omit [LinearOrder A] in
/-- A participant's stake is part of the stakes of the round. -/
theorem Represents.stake_le {user : A} (hbook : Represents rounds round)
    (huser : user ∈ rounds.participants round.roundId) :
    0 ≤ rounds.stakeOf round.mode round.roundId user ∧
      rounds.stakeOf round.mode round.roundId user ≤
        rounds.totalStake round.mode round.roundId := by
  refine ⟨(hbook.stake_pos huser).le, List.single_le_sum (fun stake hstake => ?_) _
    (List.mem_map_of_mem huser)⟩
  obtain ⟨other, hmem, rfl⟩ := List.mem_map.mp hstake
  exact (hbook.stake_pos hmem).le

/-- The arithmetic of an UpDown settlement of small stakes is in range. -/
theorem upDownComputes_of_small (hbook : Represents rounds round) (hmode : round.mode = .upDown)
    (hcap : FeeCapped terms.protocolFeeBps)
    (hsmall : rounds.totalStake .upDown round.roundId ≤ productLimit)
    (hrefund : ¬ round.refundsAt finalPrice)
    (hne : sortAddresses (rounds.participants round.roundId) ≠ []) :
    UpDownComputes terms rounds round (round.winningSide finalPrice)
      (sortAddresses (rounds.participants round.roundId)) := by
  have hupDown := hbook.upDown hmode
  have hraw : rounds.participants round.roundId ≠ [] := by
    intro h
    simp [h, sortAddresses] at hne
  have hpos := hbook.totalStake_pos hraw
  rw [hmode] at hpos
  have hpool := hupDown.pool_ne_zero hpos fun h => hrefund (.inl h)
  have hpot := hupDown.pools_eq
  have hroom : productLimit ≤ supplyLimit ∧ productLimit ≤ i128Max := by decide
  have hside := round.pool_add_other (round.winningSide finalPrice)
  have hpools := And.intro (hupDown.pool_nonneg (round.winningSide finalPrice))
    (hupDown.pool_nonneg (round.winningSide finalPrice).other)
  have hfee := (@Terms.upDownFee_bounds _ terms) hcap hpools
  refine upDownComputes_of_fits hupDown hcap (hpool _) (by omega)
    (rateFits_of_supply hcap (by omega) (by omega)) fun user huser _ => ?_
  have hstake := hbook.stake_le (mem_sortAddresses.mp huser)
  rw [hmode] at hstake
  refine mul_le_i128Max ⟨hstake.1, by omega⟩ ?_
  unfold Terms.upDownPot
  omega

/-- The arithmetic of a Precision settlement of small stakes is in range. -/
theorem precisionComputes_of_small (hbook : Represents rounds round)
    (hmode : round.mode = .precision) (hcap : FeeCapped terms.protocolFeeBps)
    (hsmall : rounds.totalStake .precision round.roundId ≤ productLimit) :
    PrecisionComputes terms rounds round.roundId finalPrice
      (sortAddresses (rounds.participants round.roundId)) := by
  have hprecision := hbook.precision hmode
  have hperm := sortAddresses_perm (rounds.participants round.roundId)
  have hsum : ((sortAddresses (rounds.participants round.roundId)).map
      (rounds.stakeOf .precision round.roundId)).sum =
        rounds.totalStake .precision round.roundId := (hperm.map _).sum_eq
  have hstaked : ∀ user ∈ sortAddresses (rounds.participants round.roundId),
      0 < rounds.stakeOf .precision round.roundId user := by
    intro user huser
    have := hbook.stake_pos (mem_sortAddresses.mp huser)
    rwa [hmode] at this
  have hroom : productLimit ≤ supplyLimit ∧ productLimit ≤ i128Max := by decide
  generalize sortAddresses (rounds.participants round.roundId) = participants at hsum hstaked ⊢
  rw [← hsum] at hsmall
  obtain ⟨scan, hscan⟩ := @foldlM_visit_of_fits _ rounds round.roundId finalPrice participants
    .start le_rfl (fun user huser => (hstaked user huser).le) (by
      show 0 + _ ≤ _
      omega)
  have hfinds := scanPredictions_spec hscan
  obtain ⟨hpos, hle⟩ := hfinds.winners_staked hprecision hstaked
  have hpot := hfinds.totalPot
  have hwinners : 0 ≤ (scan.winners.map (·.amount)).sum := List.sum_nonneg fun x hx => by
    obtain ⟨winner, hmem, rfl⟩ := List.mem_map.mp hx
    exact (hpos winner hmem).le
  refine ⟨scan, hscan, fun hne => ?_⟩
  obtain ⟨dist, hdist⟩ := @calculateProtocolFeePrecision_of_fits scan.totalPot
    (scan.winners.map (·.amount)).sum terms.protocolFeeBps terms.feeModel hcap hwinners hle
    (by omega) (rateFits_of_supply hcap (by omega) (by omega))
  have hwon : 0 < (scan.winners.map (·.amount)).sum := List.sum_pos _ (fun x hx => by
    obtain ⟨winner, hmem, rfl⟩ := List.mem_map.mp hx
    exact hpos winner hmem) (by simpa using hne)
  have hfee := (@Terms.precisionFee_bounds terms) hcap hwinners hle
  obtain ⟨-, hleft⟩ := calculateProtocolFeePrecision_spec (by omega) hle hdist
  refine ⟨_, dist, _, winnerStakes_of_fits hpos (by omega), hdist,
    calculatePrecisionPayouts_of_fits hne hpos (by omega) (by omega) (by omega)
      fun _ stake hstake => ?_⟩
  have hsingle := List.single_le_sum (fun x hx => by
    obtain ⟨winner, hmem, rfl⟩ := List.mem_map.mp hx
    exact (hpos winner hmem).le) _ hstake
  obtain ⟨winner, hmem, rfl⟩ := List.mem_map.mp hstake
  have hamount := hpos winner hmem
  exact mul_le_i128Max ⟨hamount.le, by omega⟩ ⟨by omega, by omega⟩

/-- The arithmetic of a settlement of small stakes is in range. -/
theorem computes_of_small (hbook : Represents rounds round) (hcap : FeeCapped terms.protocolFeeBps)
    (hsmall : rounds.totalStake round.mode round.roundId ≤ productLimit) :
    Computes terms rounds round finalPrice := by
  unfold Computes
  cases hmode : round.mode with
  | upDown =>
      rw [hmode] at hsmall
      exact fun hrefund hne => upDownComputes_of_small hbook hmode hcap hsmall hrefund hne
  | precision =>
      rw [hmode] at hsmall
      exact precisionComputes_of_small hbook hmode hcap hsmall

end Settlements

end XelmaMarket
