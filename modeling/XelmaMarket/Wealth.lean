import Mathlib.Algebra.BigOperators.Group.Finset.Basic
import Mathlib.Algebra.Order.BigOperators.Group.Finset
import XelmaMarket.Frame
import XelmaMarket.Ledger

/-!
# How much the stakes of a round can be

An address can be given the initial amount once, so what a set of accounts holds together with
everything outside the balances is bounded by the number of accounts that ever paid into it: the
set itself, the participants of the rounds so far, and former administrators. The bound keeps the
stakes of a round far within the range of an amount.
-/

namespace XelmaMarket

variable {A : Type}

/-! ## What a set of accounts holds -/

/-- What an account holds, or what it is still to be given. -/
def Vault.wealth (vault : Vault A) (user : A) : ℤ :=
  vault.balance.getD user initialAmount

/-- What the accounts of a set hold beyond all balances together. -/
noncomputable def Vault.excess (vault : Vault A) (members : Finset A) : ℤ :=
  ∑ user ∈ members, vault.wealth user - vault.balance.total fun _ amount => amount

/-- What the accounts of a set hold together with everything outside the balances. -/
noncomputable def Storage.hold (s : Storage A) (members : Finset A) : ℤ :=
  s.vault.excess members + s.value

section Excess

variable [DecidableEq A] {vault : Vault A} {members : Finset A} {user : A} {amount : ℤ}

omit [DecidableEq A] in
theorem balanceOf_le_wealth : vault.balanceOf user ≤ vault.wealth user := by
  unfold Vault.balanceOf Vault.wealth Store.getD
  cases vault.balance.get user with
  | none => decide
  | some balance => exact le_rfl

omit [DecidableEq A] in
theorem wealth_nonneg (hsolvent : vault.Solvent) : 0 ≤ vault.wealth user :=
  (hsolvent.balanceOf_nonneg user).trans balanceOf_le_wealth

omit [DecidableEq A] in
/-- The excess depends on the balances only. -/
theorem excess_congr {vault' : Vault A} (hbalance : vault'.balance = vault.balance) :
    vault'.excess members = vault.excess members := by
  simp [Vault.excess, Vault.wealth, hbalance]

/-- Writing a balance. -/
theorem excess_set {vault' : Vault A} (hset : vault'.balance = vault.balance.set user amount) :
    vault'.excess members = vault.excess members +
      (if user ∈ members then amount - vault.wealth user else 0) -
      (amount - vault.balanceOf user) := by
  have hwealth : ∀ other, vault'.wealth other =
      vault.wealth other + if other = user then amount - vault.wealth user else 0 := by
    intro other
    simp only [Vault.wealth, hset, Store.getD_set]
    split
    · next heq =>
        rw [heq]
        omega
    · simp
  have htotal : (vault'.balance.total fun _ amount => amount) =
      (vault.balance.total fun _ amount => amount) + amount - vault.balanceOf user := by
    rw [hset, Store.total_set, Store.weight_eq_getD, add_sub_assoc]
    rfl
  unfold Vault.excess
  rw [htotal, Finset.sum_congr rfl fun other _ => hwealth other, Finset.sum_add_distrib,
    Finset.sum_ite_eq' members user]
  omega

/-- A deposit does not raise what a set holds beyond the balances. -/
theorem excess_deposit_le (hamount : 0 ≤ amount) :
    (vault.deposit user amount).excess members ≤ vault.excess members := by
  have hle := (@balanceOf_le_wealth _ vault user)
  rw [(@excess_set _ _ vault _ user (vault.balanceOf user + amount)) rfl]
  split <;> omega

/-- A debit of a member moves nothing out of the set; any other one brings a new member. -/
theorem excess_debit (hamount : 0 < amount ∧ amount ≤ vault.balanceOf user) :
    (vault.debit user amount).excess members = vault.excess members +
      if user ∈ members then 0 else amount := by
  have hwealth : vault.wealth user = vault.balanceOf user := by
    unfold Vault.wealth Vault.balanceOf Store.getD at *
    cases hget : vault.balance.get user with
    | none => simp [hget] at hamount; omega
    | some balance => rfl
  rw [(@excess_set _ _ vault _ user (vault.balanceOf user - amount)) rfl,
    hwealth]
  split <;> omega

/-- An account that joins a set brings its wealth. -/
theorem excess_insert (hnew : user ∉ members) :
    vault.excess (insert user members) = vault.wealth user + vault.excess members := by
  unfold Vault.excess
  rw [Finset.sum_insert hnew]
  omega

/-- A larger set holds no less. -/
theorem excess_le_insert (hsolvent : vault.Solvent) :
    vault.excess members ≤ vault.excess (insert user members) := by
  by_cases hmem : user ∈ members
  · rw [Finset.insert_eq_of_mem hmem]
  · rw [excess_insert hmem]
    have := @wealth_nonneg _ _ user hsolvent
    omega

/-- What a new account is given is no more than it was to be given. -/
theorem excess_mint (hnew : vault.balance.get user = none) :
    (vault.deposit user initialAmount).excess members = vault.excess members - initialAmount := by
  have hbalance : vault.balanceOf user = 0 := by
    simp [Vault.balanceOf, Store.getD, hnew]
  have hwealth : vault.wealth user = initialAmount := by
    simp [Vault.wealth, Store.getD, hnew]
  rw [(@excess_set _ _ vault _ user (vault.balanceOf user + initialAmount)) rfl, hbalance, hwealth]
  split <;> omega

end Excess

section Calls

variable [LinearOrder A] {env : Env A} {s s' : Storage A} {call : Call A} {members : Finset A}

/-- Claims do not raise what a set holds beyond the balances. -/
theorem excess_claimAll_le {vault : Vault A} (hsolvent : vault.Solvent) (users : List A) :
    (users.foldl Vault.claim vault).excess members ≤ vault.excess members := by
  induction users generalizing vault with
  | nil => exact le_rfl
  | cons user rest ih =>
      refine (ih (@Vault.Solvent.claim _ _ _ user hsolvent)).trans ?_
      by_cases hpending : vault.pendingOf user = 0
      · simp [Vault.claim, hpending]
      · rw [claim_eq vault user hpending]
        refine (excess_deposit_le (hsolvent.pendingOf_nonneg user)).trans ?_
        exact (excess_congr rfl).le

/-! ## Places taken -/

/-- The places of the active round that are still free, while its betting is open. -/
def Rounds.freePlaces (rounds : Rounds A) (ledger : ℕ) : ℕ :=
  match rounds.activeRound with
  | none => 0
  | some round =>
      if ledger < round.betEndLedger then
        maxVecLength - (rounds.participants round.roundId).length
      else
        0

/-- The places of all rounds so far but the free ones. -/
def Rounds.places (rounds : Rounds A) (ledger : ℕ) : ℤ :=
  maxVecLength * (rounds.lastRoundId.getD 0 : ℕ) - rounds.freePlaces ledger

omit [LinearOrder A] in
theorem freePlaces_of_none {rounds : Rounds A} (hnone : rounds.activeRound = none) (ledger : ℕ) :
    rounds.freePlaces ledger = 0 := by
  simp [Rounds.freePlaces, hnone]

omit [LinearOrder A] in
/-- Free places are lost as ledgers go by. -/
theorem places_later (rounds : Rounds A) {ledger ledger' : ℕ} (hledger : ledger ≤ ledger') :
    rounds.places ledger ≤ rounds.places ledger' := by
  have hfree : rounds.freePlaces ledger' ≤ rounds.freePlaces ledger := by
    unfold Rounds.freePlaces
    cases rounds.activeRound with
    | none => exact le_rfl
    | some round =>
        simp only
        split
        · rw [if_pos (by omega)]
        · exact Nat.zero_le _
  unfold Rounds.places
  omega

omit [LinearOrder A] in
/-- The number of places depends on the last round and on the active round's places. -/
theorem places_le {rounds rounds' : Rounds A} {ledger : ℕ}
    (hlast : rounds'.lastRoundId = rounds.lastRoundId)
    (hfree : rounds'.freePlaces ledger ≤ rounds.freePlaces ledger) :
    rounds.places ledger ≤ rounds'.places ledger := by
  unfold Rounds.places
  rw [hlast]
  omega

/-- An ending frees no place. -/
theorem freePlaces_roundsAfter {rounds : Rounds A} {ending : Ending}
    (hgone : ∀ round, (ending.roundsAfter rounds).activeRound = some round →
      round.roundId ≠ ending.round.roundId) (ledger : ℕ) :
    (ending.roundsAfter rounds).freePlaces ledger ≤ rounds.freePlaces ledger := by
  cases hactive : (ending.roundsAfter rounds).activeRound with
  | none =>
      rw [freePlaces_of_none hactive]
      exact Nat.zero_le _
  | some round =>
      have hbefore := active_of_roundsAfter hactive
      unfold Rounds.freePlaces
      rw [hactive, hbefore]
      simp only [(roundsAfter_other ending (hgone round hactive)).participants, le_refl]

/-! ## What a call does to the holding of a set -/

/-- Endings lose nothing negative. -/
theorem lostBy_nonneg {ending : Ending} (hbook : Represents s.rounds ending.round)
    (hcap : FeeCapped s.control.settings.protocolFeeBps) : 0 ≤ s.lostBy ending := by
  have hcovered := (@Ending.plan_sound _ _ _ s.control.settings.terms _ hbook hcap).covered
  have hgiven := (coverageGiven_bounds hbook).1
  unfold Storage.lostBy
  omega

theorem lost_nonneg (hordered : s.rounds.Ordered)
    (hcap : FeeCapped s.control.settings.protocolFeeBps) (call : Call A) : 0 ≤ s.lost call := by
  unfold Storage.lost
  cases hending : call.ending s with
  | none => exact le_rfl
  | some ending =>
      exact lostBy_nonneg (hordered.live _ _ ((Call.endsBy hending).live hordered)).2 hcap

/-- The value rises by what is minted at most. -/
theorem Effect.value_le (hordered : s.rounds.Ordered)
    (hcap : FeeCapped s.control.settings.protocolFeeBps) (hsolvent : s.vault.Solvent)
    (heffect : Effect env s call s') (hminted : s.minted call = 0) : s'.value ≤ s.value := by
  have hlost := lost_nonneg hordered hcap call
  have htreasury := hsolvent.treasury
  rcases heffect.value hordered hcap with hvalue | ⟨-, hvalue⟩ <;> omega

/-- A call raises what a set that includes the administrator holds only when another account takes
a place of the active round, and then by no more than that account's wealth. -/
theorem Effect.hold (hordered : s.rounds.Ordered)
    (hcap : FeeCapped s.control.settings.protocolFeeBps) (hsolvent : s.vault.Solvent)
    (heffect : Effect env s call s')
    (hadmin : ∀ admin, s.control.governance.admin = some admin → admin ∈ members) :
    (s'.hold members ≤ s.hold members ∧
      s.rounds.places env.ledger.sequence ≤ s'.rounds.places env.ledger.sequence) ∨
    ∃ user, s'.hold members ≤ s.hold (insert user members) ∧
      s.rounds.places env.ledger.sequence + 1 ≤ s'.rounds.places env.ledger.sequence := by
  have hvalue := heffect.value_le hordered hcap hsolvent
  have hheld : s'.vault.excess members ≤ s.vault.excess members → s.minted call = 0 →
      s'.hold members ≤ s.hold members := by
    intro hexcess hminted
    have := hvalue hminted
    unfold Storage.hold
    omega
  have hsamePlaces : s'.rounds = s.rounds →
      s.rounds.places env.ledger.sequence ≤ s'.rounds.places env.ledger.sequence := by
    intro hrounds
    rw [hrounds]
  cases heffect with
  | quiet _ _ hsame =>
      refine .inl ⟨le_of_eq ?_, hsamePlaces hsame.rounds⟩
      unfold Storage.hold Storage.value
      rw [hsame.vault, hsame.rounds]
  | mint user _ hnew _ hvault hsame =>
      refine .inl ⟨le_of_eq ?_, hsamePlaces hsame.rounds⟩
      unfold Storage.hold Storage.value
      rw [hvault, hsame.rounds, excess_mint hnew, worth_deposit]
      omega
  | treasuryAddress _ _ _ _ _ _ _ hvault hsame =>
      refine .inl ⟨hheld (le_of_eq (excess_congr ?_)) rfl, hsamePlaces hsame.rounds⟩
      rw [hvault]
  | payFee _ recipient amount _ hcall hamount hvault hsame
  | payFund _ recipient amount _ hcall hamount hvault hsame =>
      have hminted : s.minted call = 0 := by
        rcases hcall with rfl | ⟨_, _, rfl⟩ <;> rfl
      refine .inl ⟨hheld ?_ hminted, hsamePlaces hsame.rounds⟩
      have hexcess := @excess_deposit_le _ _ s.vault members recipient _
        hamount.1.le
      rw [hvault]
      exact hexcess
  | topUp admin amount _ hgovernance _ hamount hvault hsame =>
      refine .inl ⟨hheld ?_ rfl, hsamePlaces hsame.rounds⟩
      have hexcess := @excess_debit _ _ _ members _ _ hamount
      rw [if_pos (hadmin admin hgovernance)] at hexcess
      rw [hvault]
      exact hexcess.le.trans (by omega)
  | reclaim user admin _ _ _ _ _ _ _ _ hvault hsame =>
      refine .inl ⟨hheld ?_ rfl, hsamePlaces hsame.rounds⟩
      rw [hvault]
      exact excess_deposit_le (hsolvent.pendingOf_nonneg user)
  | claim _ users _ hcall _ hvault hsame =>
      have hminted : s.minted call = 0 := by
        rcases hcall with ⟨_, rfl, -⟩ | rfl <;> rfl
      refine .inl ⟨hheld ?_ hminted, hsamePlaces hsame.rounds⟩
      rw [hvault]
      exact excess_claimAll_le hsolvent users
  | openRound _ round _ hcall hactive hid _ _ hvault hrounds =>
      have hminted : s.minted call = 0 := by
        rcases hcall with ⟨_, _, rfl⟩ | rfl <;> rfl
      refine .inl ⟨hheld (excess_congr (by rw [hvault])).le hminted, ?_⟩
      have hfree : (s.rounds.openRound round).freePlaces env.ledger.sequence ≤ maxVecLength := by
        simp only [Rounds.freePlaces, Rounds.openRound]
        split <;> omega
      unfold Rounds.places
      rw [hrounds, freePlaces_of_none hactive]
      simp only [Rounds.openRound, Option.getD_some, hid] at hfree ⊢
      push_cast
      rw [mul_add]
      omega
  | stake _ round user amount _ hround _ hopen hamount hroom hplaced hvault =>
      have hjoined := hplaced.joined (hordered.active_represented hround) hround hamount.1
      have hkept := value_of_stake hordered hround hroom hjoined hvault
      have hplaces : s.rounds.places env.ledger.sequence + 1 ≤
          s'.rounds.places env.ledger.sequence := by
        obtain ⟨round', hround', hid, -, hend, -⟩ := hjoined.active
        unfold Rounds.places Rounds.freePlaces
        rw [hround, hround', hjoined.last]
        simp only [hid, hend, if_pos hopen, hjoined.participants, List.length_append,
          List.length_singleton]
        omega
      have hexcess := @excess_debit _ _ _ members _ _ hamount
      by_cases hmem : user ∈ members
      · refine .inl ⟨hheld ?_ hplaced.quiet.1, by omega⟩
        rw [hvault, hexcess, if_pos hmem]
        omega
      · refine .inr ⟨user, ?_, hplaces⟩
        have hwealth := (@balanceOf_le_wealth _ s.vault user)
        unfold Storage.hold
        rw [hkept, hvault, hexcess, if_neg hmem, excess_insert hmem]
        omega
  | reveal round user price salt commitment _ hround _ _ _ hvault hrounds =>
      refine .inl ⟨hheld (excess_congr (by rw [hvault])).le rfl, ?_⟩
      rw [hrounds]
      exact places_le rfl le_rfl
  | cashOut round user position penaltyBps _ hround _ hclosed _ _ _ hvault hrounds =>
      refine .inl ⟨hheld (excess_congr ?_).le rfl, ?_⟩
      · rw [hvault]
        simp
      · rw [hrounds]
        refine places_le rfl ?_
        have hclosed' : ¬ env.ledger.sequence <
            (round.withPool position.side (-position.amount)).betEndLedger := by
          cases position.side <;> simpa [Round.withPool] using hclosed
        simp only [Rounds.freePlaces, Rounds.leave, if_neg hclosed', Nat.zero_le]
  | stage _ round pending _ hprice _ _ _ _ hvault hrounds =>
      refine .inl ⟨hheld (excess_congr (by rw [hvault])).le (minted_of_price hprice), ?_⟩
      rw [hrounds]
      refine places_le rfl ?_
      rw [freePlaces_of_none rfl]
      exact Nat.zero_le _
  | ending _ ending _ hending hends =>
      have hends' := Call.endsBy hending
      refine .inl ⟨hheld (excess_congr ?_).le (minted_of_endsBy hends'), ?_⟩
      · rw [hends.vault]
        simp
      · rw [hends.rounds]
        exact places_le (roundsAfter_last ending)
          (freePlaces_roundsAfter (hends'.gone hordered).1 _)

/-! ## The bound -/

/-- A set that includes the administrator holds no more than the initial amounts of its members,
of the participants of all rounds and of the former administrators. -/
def Storage.Bounded (ledger : ℕ) (s : Storage A) : Prop :=
  ∀ members : Finset A, (∀ admin, s.control.governance.admin = some admin → admin ∈ members) →
    s.hold members ≤ initialAmount * (members.card + s.rounds.places ledger +
      (executedIds s.control.governance.govProposal).card)

omit [LinearOrder A] in
/-- The bound lasts as ledgers go by. -/
theorem Storage.Bounded.later {ledger ledger' : ℕ} (hbounded : s.Bounded ledger)
    (hledger : ledger ≤ ledger') : s.Bounded ledger' := by
  intro members hadmin
  refine (hbounded members hadmin).trans (mul_le_mul_of_nonneg_left ?_ (by decide))
  have := places_later s.rounds hledger
  omega

/-- Every successful call keeps the bound. -/
theorem Effect.bounded (hordered : s.rounds.Ordered)
    (hcap : FeeCapped s.control.settings.protocolFeeBps) (hsolvent : s.vault.Solvent)
    (heffect : Effect env s call s') (hsteered : Steered s.control s'.control)
    (hnumbered : Numbered s.control.governance.govProposal s.control.governance.nextGovProposalId)
    (hbounded : s.Bounded env.ledger.sequence) : s'.Bounded env.ledger.sequence := by
  have hcount := Finset.card_le_card (hsteered.executed hnumbered)
  have hstep : ∀ members : Finset A,
      (∀ admin, s.control.governance.admin = some admin → admin ∈ members) →
      s'.hold members ≤ initialAmount * (members.card +
        s'.rounds.places env.ledger.sequence +
        (executedIds s.control.governance.govProposal).card) := by
    intro members hadmin
    rcases heffect.hold hordered hcap hsolvent hadmin with ⟨hhold, hplaces⟩ | ⟨user, hhold, hplaces⟩
    · refine (hhold.trans (hbounded members hadmin)).trans
        (mul_le_mul_of_nonneg_left ?_ (by decide))
      omega
    · have hmembers : ∀ admin, s.control.governance.admin = some admin →
          admin ∈ insert user members := fun admin h => Finset.mem_insert_of_mem (hadmin admin h)
      have hcard := Finset.card_insert_le user members
      refine (hhold.trans (hbounded _ hmembers)).trans (mul_le_mul_of_nonneg_left ?_ (by decide))
      omega
  intro members hadmin
  by_cases hkept : ∀ admin, s.control.governance.admin = some admin → admin ∈ members
  · refine (hstep members hkept).trans (mul_le_mul_of_nonneg_left ?_ (by decide))
    omega
  · -- the administrator changed: the former one may have paid in
    push Not at hkept
    obtain ⟨former, hformer, hout⟩ := hkept
    have hexecuted : (executedIds s.control.governance.govProposal).card <
        (executedIds s'.control.governance.govProposal).card := by
      rcases hsteered.admin with hsame | hnone | hexecuted
      · exact absurd (hadmin former (hsame.trans hformer)) hout
      · rw [hnone] at hformer
        cases hformer
      · exact Finset.card_lt_card (hexecuted hnumbered)
    have hmembers : ∀ admin, s.control.governance.admin = some admin →
        admin ∈ insert former members := by
      intro admin h
      obtain rfl := Option.some.inj (hformer.symm.trans h)
      exact Finset.mem_insert_self _ _
    have hsolvent' := heffect.solvent hordered hcap hsolvent
    have hmore : s'.hold members ≤ s'.hold (insert former members) := by
      have := @excess_le_insert _ _ _ members former hsolvent'
      unfold Storage.hold
      omega
    have hcard := Finset.card_insert_le former members
    refine (hmore.trans (hstep _ hmembers)).trans (mul_le_mul_of_nonneg_left ?_ (by decide))
    omega

/-- More than there can ever be. -/
def supplyLimit : ℤ := initialAmount * 2 ^ 66

omit [LinearOrder A] in
/-- What a few accounts hold together with everything outside the balances is within the limit. -/
theorem Storage.Bounded.supply_le {ledger : ℕ} (hbounded : s.Bounded ledger)
    (hpaced : Paced ledger s.rounds) (hledger : ledger < 2 ^ 32) {members : Finset A}
    (hadmin : ∀ admin, s.control.governance.admin = some admin → admin ∈ members)
    (hcard : members.card ≤ 2) :
    ∑ user ∈ members, s.vault.wealth user + s.vault.pendingTotal + s.vault.treasury +
      s.vault.insuranceFund + s.rounds.escrow ≤ supplyLimit := by
  have hbound := hbounded members hadmin
  have hexecuted := card_executedIds_le s.control.governance.govProposal
  have hplaces : s.rounds.places ledger ≤ maxVecLength * 2 ^ 32 := by
    have hlast := hpaced.last_le
    have hmul : maxVecLength * s.rounds.lastRoundId.getD 0 ≤ maxVecLength * 2 ^ 32 :=
      Nat.mul_le_mul_left _ (by omega)
    unfold Rounds.places
    push_cast at hmul ⊢
    omega
  have hrange : initialAmount * (members.card + s.rounds.places ledger +
      (executedIds s.control.governance.govProposal).card) ≤ supplyLimit := by
    have hcount : (members.card : ℤ) + s.rounds.places ledger +
        (executedIds s.control.governance.govProposal).card ≤
          2 + (maxVecLength * 2 ^ 32 : ℕ) + 2 ^ 64 := by
      push_cast
      omega
    exact (mul_le_mul_of_nonneg_left hcount (by decide)).trans (by decide)
  unfold Storage.hold Vault.excess Storage.value Vault.worth at hbound
  omega

/-- A user's wealth and everything outside the balances are within the limit. -/
theorem Storage.Bounded.user_supply_le {ledger : ℕ} (hbounded : s.Bounded ledger)
    (hsolvent : s.vault.Solvent) (hpaced : Paced ledger s.rounds) (hledger : ledger < 2 ^ 32)
    (user : A) :
    s.vault.wealth user + s.vault.pendingTotal + s.vault.treasury + s.vault.insuranceFund +
      s.rounds.escrow ≤ supplyLimit := by
  obtain ⟨members, hadmin, hcard, hmem⟩ : ∃ members : Finset A,
      (∀ admin, s.control.governance.admin = some admin → admin ∈ members) ∧
        members.card ≤ 2 ∧ user ∈ members := by
    cases h : s.control.governance.admin with
    | none => exact ⟨{user}, by simp, by simp, by simp⟩
    | some admin => exact ⟨{user, admin}, by simp, Finset.card_le_two, by simp⟩
  have hbound := hbounded.supply_le hpaced hledger hadmin hcard
  have hwealth : s.vault.wealth user ≤ ∑ user ∈ members, s.vault.wealth user :=
    Finset.single_le_sum (fun other _ => @wealth_nonneg _ _ other hsolvent) hmem
  omega

omit [LinearOrder A] in
/-- The treasury, the fund, the pending winnings and the stakes are within the limit. -/
theorem Storage.Bounded.outside_le {ledger : ℕ} (hbounded : s.Bounded ledger)
    (hsolvent : s.vault.Solvent) (hpaced : Paced ledger s.rounds) (hledger : ledger < 2 ^ 32) :
    s.vault.pendingTotal + s.vault.treasury + s.vault.insuranceFund + s.rounds.escrow ≤
      supplyLimit := by
  obtain ⟨members, hadmin, hcard⟩ : ∃ members : Finset A,
      (∀ admin, s.control.governance.admin = some admin → admin ∈ members) ∧
        members.card ≤ 2 := by
    cases h : s.control.governance.admin with
    | none => exact ⟨∅, by simp, by simp⟩
    | some admin => exact ⟨{admin}, by simp, by simp⟩
  have hbound := hbounded.supply_le hpaced hledger hadmin hcard
  have hmembers : 0 ≤ ∑ user ∈ members, s.vault.wealth user :=
    Finset.sum_nonneg fun user _ => wealth_nonneg hsolvent
  omega

omit [LinearOrder A] in
theorem Vault.Solvent.pendingTotal_nonneg {vault : Vault A} (hsolvent : vault.Solvent) :
    0 ≤ vault.pendingTotal :=
  Store.total_nonneg _ fun user amount hget => hsolvent.pending user amount hget

omit [LinearOrder A] in
/-- The stakes of a live round are within the limit. -/
theorem Storage.Bounded.totalStake_le_supply {ledger : ℕ} {round : Round}
    (hbounded : s.Bounded ledger) (hordered : s.rounds.Ordered) (hsolvent : s.vault.Solvent)
    (hpaced : Paced ledger s.rounds) (hledger : ledger < 2 ^ 32)
    (hbook : Represents s.rounds round) :
    s.rounds.totalStake round.mode round.roundId ≤ supplyLimit := by
  have hbound := hbounded.outside_le hsolvent hpaced hledger
  have hstakes := hordered.totalStake_le_escrow hbook
  have hpending := hsolvent.pendingTotal_nonneg
  have htreasury := hsolvent.treasury
  have hfund := hsolvent.fund
  omega

omit [LinearOrder A] in
/-- The stakes of a live round stay in the range of an amount. -/
theorem Storage.Bounded.totalStake_le {ledger : ℕ} {round : Round} (hbounded : s.Bounded ledger)
    (hordered : s.rounds.Ordered) (hsolvent : s.vault.Solvent)
    (hpaced : Paced ledger s.rounds) (hledger : ledger < 2 ^ 32)
    (hbook : Represents s.rounds round) :
    s.rounds.totalStake round.mode round.roundId ≤ i128Max :=
  (hbounded.totalStake_le_supply hordered hsolvent hpaced hledger hbook).trans (by decide)

end Calls

end XelmaMarket
