import XelmaMarket.Settlement
import XelmaMarket.Statistics

/-!
# Accounts

Pure functions for what the helpers do to the accounts: credit pending winnings, collect a fee,
pay out a claim, record an outcome. Each helper is shown to be its function, and the functions
have the lemmas later proofs use instead of unfolding the helpers.
-/

namespace XelmaMarket

open Transaction

variable {A : Type}

/-! ## Amounts -/

/-- The treasury as an amount; 0 when unset or when an address was written there. -/
def Vault.treasury (vault : Vault A) : ℤ :=
  match vault.protocolFeeTreasury with
  | some (.amount value) => value
  | _ => 0

/-- The part of a fee that goes to the insurance fund. -/
def insuranceShare (splitBps : ℕ) (fee : ℤ) : ℤ :=
  min (fee * splitBps / bpsDenominator) fee

theorem insuranceShare_nonneg {splitBps : ℕ} {fee : ℤ} (hfee : 0 ≤ fee) :
    0 ≤ insuranceShare splitBps fee := by
  have h : 0 ≤ fee * (splitBps : ℤ) / bpsDenominator :=
    Int.ediv_nonneg (mul_nonneg hfee (by omega)) (by decide)
  exact le_min h hfee

theorem insuranceShare_le {splitBps : ℕ} {fee : ℤ} : insuranceShare splitBps fee ≤ fee :=
  min_le_right _ _

/-- The vault after a fee is collected: the insurance share to the fund, the rest to the
treasury. -/
def Vault.collectFee (vault : Vault A) (splitBps : ℕ) (fee : ℤ) : Vault A :=
  if fee ≤ 0 then
    vault
  else
    { vault with
      insFundBal :=
        if insuranceShare splitBps fee ≤ 0 then vault.insFundBal
        else some (vault.insuranceFund + insuranceShare splitBps fee)
      protocolFeeTreasury :=
        some (.amount (vault.treasury + (fee - insuranceShare splitBps fee))) }

/-- The vault after a coverage is paid from the fund. -/
def Vault.payFromFund (vault : Vault A) (amount : ℤ) : Vault A :=
  if amount ≤ 0 then vault else { vault with insFundBal := some (vault.insuranceFund - amount) }

section CollectFee

variable (vault : Vault A) (splitBps : ℕ) (fee : ℤ)

@[simp] theorem Vault.collectFee_balance : (vault.collectFee splitBps fee).balance = vault.balance := by
  unfold Vault.collectFee
  split <;> rfl

@[simp] theorem Vault.collectFee_pendingWinnings :
    (vault.collectFee splitBps fee).pendingWinnings = vault.pendingWinnings := by
  unfold Vault.collectFee
  split <;> rfl

@[simp] theorem Vault.collectFee_updatedAt :
    (vault.collectFee splitBps fee).pendingWinningsUpdatedAt = vault.pendingWinningsUpdatedAt := by
  unfold Vault.collectFee
  split <;> rfl

@[simp] theorem Vault.collectFee_zero : vault.collectFee splitBps 0 = vault := rfl

variable {fee}

theorem Vault.collectFee_treasury (hfee : 0 ≤ fee) :
    (vault.collectFee splitBps fee).treasury =
      vault.treasury + (fee - insuranceShare splitBps fee) := by
  unfold Vault.collectFee
  split
  · have hzero : fee = 0 := by omega
    subst hzero
    simp [insuranceShare]
  · rfl

theorem Vault.collectFee_insuranceFund (hfee : 0 ≤ fee) :
    (vault.collectFee splitBps fee).insuranceFund =
      vault.insuranceFund + insuranceShare splitBps fee := by
  have hnonneg := @insuranceShare_nonneg splitBps _ hfee
  unfold Vault.collectFee
  split
  · have hzero : fee = 0 := by omega
    subst hzero
    simp [insuranceShare]
  · by_cases hshare : insuranceShare splitBps fee ≤ 0
    · have hzero : insuranceShare splitBps fee = 0 := by omega
      simp [hzero, Vault.insuranceFund]
    · simp [hshare, Vault.insuranceFund]

end CollectFee

theorem Vault.payFromFund_insuranceFund (vault : Vault A) {amount : ℤ} (hamount : 0 ≤ amount) :
    (vault.payFromFund amount).insuranceFund = vault.insuranceFund - amount := by
  unfold Vault.payFromFund
  split
  · have hzero : amount = 0 := by omega
    simp [hzero]
  · rfl

@[simp] theorem Vault.payFromFund_balance (vault : Vault A) (amount : ℤ) :
    (vault.payFromFund amount).balance = vault.balance := by
  unfold Vault.payFromFund
  split <;> rfl

@[simp] theorem Vault.payFromFund_pendingWinnings (vault : Vault A) (amount : ℤ) :
    (vault.payFromFund amount).pendingWinnings = vault.pendingWinnings := by
  unfold Vault.payFromFund
  split <;> rfl

@[simp] theorem Vault.payFromFund_updatedAt (vault : Vault A) (amount : ℤ) :
    (vault.payFromFund amount).pendingWinningsUpdatedAt = vault.pendingWinningsUpdatedAt := by
  unfold Vault.payFromFund
  split <;> rfl

@[simp] theorem Vault.payFromFund_treasury (vault : Vault A) (amount : ℤ) :
    (vault.payFromFund amount).treasury = vault.treasury := by
  unfold Vault.payFromFund
  split <;> rfl

/-! ## Credits -/

section DecidableAddress

variable [DecidableEq A]

/-- The vault after a credit to a user's pending winnings at a ledger. -/
def Vault.credit (vault : Vault A) (ledger : ℕ) (user : A) (amount : ℤ) : Vault A :=
  { vault with
    pendingWinnings := vault.pendingWinnings.set user (vault.pendingOf user + amount)
    pendingWinningsUpdatedAt := vault.pendingWinningsUpdatedAt.set user ledger }

/-- The vault after several credits, in order. -/
def Vault.creditAll (vault : Vault A) (ledger : ℕ) (credits : List (A × ℤ)) : Vault A :=
  credits.foldl (fun vault credit => vault.credit ledger credit.1 credit.2) vault

/-- What a list of credits gives one user. -/
def creditTo (credits : List (A × ℤ)) (user : A) : ℤ :=
  ((credits.filter fun credit => credit.1 = user).map (·.2)).sum

@[simp] theorem Vault.creditAll_nil (vault : Vault A) (ledger : ℕ) :
    vault.creditAll ledger [] = vault := rfl

@[simp] theorem Vault.creditAll_cons (vault : Vault A) (ledger : ℕ) (credit : A × ℤ)
    (rest : List (A × ℤ)) : vault.creditAll ledger (credit :: rest) =
      (vault.credit ledger credit.1 credit.2).creditAll ledger rest := rfl

theorem Vault.creditAll_append (vault : Vault A) (ledger : ℕ) (first second : List (A × ℤ)) :
    vault.creditAll ledger (first ++ second) =
      (vault.creditAll ledger first).creditAll ledger second :=
  List.foldl_append

@[simp] theorem creditTo_nil (user : A) : creditTo [] user = 0 := rfl

theorem creditTo_cons (credit : A × ℤ) (rest : List (A × ℤ)) (user : A) :
    creditTo (credit :: rest) user =
      (if credit.1 = user then credit.2 else 0) + creditTo rest user := by
  by_cases h : credit.1 = user <;> simp [creditTo, h]

theorem creditTo_nonneg {credits : List (A × ℤ)} (hcredits : ∀ credit ∈ credits, 0 ≤ credit.2)
    (user : A) : 0 ≤ creditTo credits user := by
  refine List.sum_nonneg ?_
  intro x hx
  obtain ⟨credit, hmem, rfl⟩ := List.mem_map.mp hx
  exact hcredits credit (List.mem_filter.mp hmem).1

/-- A user without a credit is given nothing. -/
theorem creditTo_of_not_mem {credits : List (A × ℤ)} {user : A}
    (hmem : user ∉ credits.map (·.1)) : creditTo credits user = 0 := by
  have hfilter : credits.filter (fun credit => credit.1 = user) = [] := by
    rw [List.filter_eq_nil_iff]
    intro credit hcredit heq
    exact hmem (List.mem_map.mpr ⟨credit, hcredit, by simpa using heq⟩)
  simp [creditTo, hfilter]

/-- Over distinct users a user is given exactly their one credit. -/
theorem creditTo_of_mem {credits : List (A × ℤ)} (hnodup : (credits.map (·.1)).Nodup)
    {credit : A × ℤ} (hmem : credit ∈ credits) : creditTo credits credit.1 = credit.2 := by
  induction credits with
  | nil => simp at hmem
  | cons head rest ih =>
      simp only [List.map_cons, List.nodup_cons] at hnodup
      rw [creditTo_cons]
      rcases List.mem_cons.mp hmem with rfl | hmem
      · simp [creditTo_of_not_mem hnodup.1]
      · have hne : head.1 ≠ credit.1 := by
          intro heq
          exact hnodup.1 (heq ▸ List.mem_map_of_mem hmem)
        simp [hne, ih hnodup.2 hmem]

/-- One credit, given where it is positive. -/
theorem creditTo_positive {user : A} {amount : ℤ} (hamount : 0 ≤ amount) :
    creditTo ([(user, amount)].filter fun credit => 0 < credit.2) user = amount := by
  rcases hamount.eq_or_lt with rfl | hpos
  · rfl
  · simp [hpos, creditTo_cons]

section CreditAll

variable (vault : Vault A) (ledger : ℕ) (credits : List (A × ℤ))

@[simp] theorem Vault.creditAll_balance :
    (vault.creditAll ledger credits).balance = vault.balance := by
  induction credits generalizing vault with
  | nil => rfl
  | cons credit rest ih => exact ih _

@[simp] theorem Vault.creditAll_protocolFeeTreasury :
    (vault.creditAll ledger credits).protocolFeeTreasury = vault.protocolFeeTreasury := by
  induction credits generalizing vault with
  | nil => rfl
  | cons credit rest ih => exact ih _

@[simp] theorem Vault.creditAll_insFundBal :
    (vault.creditAll ledger credits).insFundBal = vault.insFundBal := by
  induction credits generalizing vault with
  | nil => rfl
  | cons credit rest ih => exact ih _

@[simp] theorem Vault.creditAll_treasury :
    (vault.creditAll ledger credits).treasury = vault.treasury := by
  simp [Vault.treasury]

@[simp] theorem Vault.creditAll_insuranceFund :
    (vault.creditAll ledger credits).insuranceFund = vault.insuranceFund := by
  simp [Vault.insuranceFund]

theorem Vault.credit_pendingOf (user user' : A) (amount : ℤ) :
    (vault.credit ledger user amount).pendingOf user' =
      vault.pendingOf user' + if user = user' then amount else 0 := by
  by_cases h : user = user'
  · subst h
    simp [Vault.credit, Vault.pendingOf, Store.getD_set]
  · simp [Vault.credit, Vault.pendingOf, Store.getD_set, h, Ne.symm h]

/-- Credits raise a user's pending winnings by what they give the user. -/
theorem Vault.creditAll_pendingOf (user : A) :
    (vault.creditAll ledger credits).pendingOf user =
      vault.pendingOf user + creditTo credits user := by
  induction credits generalizing vault with
  | nil => simp
  | cons credit rest ih =>
      rw [Vault.creditAll_cons, ih, Vault.credit_pendingOf, creditTo_cons, add_assoc]

/-- Credits stamp the users they credit with the ledger and nobody else. -/
theorem Vault.creditAll_updatedAt (user : A) :
    (vault.creditAll ledger credits).pendingWinningsUpdatedAt.get user =
      if user ∈ credits.map (·.1) then some ledger
      else vault.pendingWinningsUpdatedAt.get user := by
  induction credits generalizing vault with
  | nil => simp
  | cons credit rest ih =>
      rw [Vault.creditAll_cons, ih]
      by_cases hrest : user ∈ rest.map (·.1)
      · simp only [hrest, List.map_cons, List.mem_cons, or_true, if_true]
      · by_cases hhead : user = credit.1
        · subst hhead
          simp [hrest, Vault.credit]
        · simp [hrest, hhead, Vault.credit, Store.get_set]

/-- An uncredited user keeps the entry. -/
theorem Vault.creditAll_get_of_not_mem {user : A} (hmem : user ∉ credits.map (·.1)) :
    (vault.creditAll ledger credits).pendingWinnings.get user =
      vault.pendingWinnings.get user := by
  induction credits generalizing vault with
  | nil => rfl
  | cons credit rest ih =>
      simp only [List.map_cons, List.mem_cons, not_or] at hmem
      rw [Vault.creditAll_cons, ih _ hmem.2]
      exact Store.get_set_of_ne _ _ hmem.1

/-- The total of all pending winnings. -/
noncomputable def Vault.pendingTotal (vault : Vault A) : ℤ :=
  vault.pendingWinnings.total fun _ amount => amount

theorem Vault.credit_pendingTotal (user : A) (amount : ℤ) :
    (vault.credit ledger user amount).pendingTotal = vault.pendingTotal + amount := by
  unfold Vault.pendingTotal Vault.credit
  rw [Store.total_set, Store.weight_eq_getD]
  simp [Vault.pendingOf]

/-- Credits raise the total by their sum. -/
theorem Vault.creditAll_pendingTotal :
    (vault.creditAll ledger credits).pendingTotal =
      vault.pendingTotal + (credits.map (·.2)).sum := by
  induction credits generalizing vault with
  | nil => simp
  | cons credit rest ih =>
      rw [Vault.creditAll_cons, ih, Vault.credit_pendingTotal, List.map_cons, List.sum_cons,
        add_assoc]

end CreditAll

/-! ## Claims -/

/-- The vault after a user's pending winnings moved to the balance. -/
def Vault.claim (vault : Vault A) (user : A) : Vault A :=
  if vault.pendingOf user = 0 then
    vault
  else
    { vault with
      pendingWinnings := vault.pendingWinnings.remove user
      pendingWinningsUpdatedAt := vault.pendingWinningsUpdatedAt.remove user
      balance := vault.balance.set user (vault.balanceOf user + vault.pendingOf user) }

/-! ## Recorded outcomes -/

/-- Record an outcome; the first record of a user for a round stays. -/
def recordOutcome (outcomes : Store (ℕ × A) (UserRoundOutcome A)) (roundId : ℕ)
    (record : UserRoundOutcome A) : Store (ℕ × A) (UserRoundOutcome A) :=
  if outcomes.has (roundId, record.user) then outcomes
  else outcomes.set (roundId, record.user) record

/-- Record several outcomes, in order. -/
def recordAll (outcomes : Store (ℕ × A) (UserRoundOutcome A)) (roundId : ℕ)
    (records : List (UserRoundOutcome A)) : Store (ℕ × A) (UserRoundOutcome A) :=
  records.foldl (fun outcomes record => recordOutcome outcomes roundId record) outcomes

section RecordAll

variable {outcomes : Store (ℕ × A) (UserRoundOutcome A)} {roundId : ℕ}
  {records : List (UserRoundOutcome A)}

theorem recordAll_append (first second : List (UserRoundOutcome A)) :
    recordAll outcomes roundId (first ++ second) =
      recordAll (recordAll outcomes roundId first) roundId second :=
  List.foldl_append

theorem recordOutcome_get_of_ne {record : UserRoundOutcome A} {key : ℕ × A}
    (hne : key ≠ (roundId, record.user)) :
    (recordOutcome outcomes roundId record).get key = outcomes.get key := by
  unfold recordOutcome
  split
  · rfl
  · exact Store.get_set_of_ne _ _ hne

/-- Recording for a round leaves the records of the users it does not name. -/
theorem recordAll_get_of_not_mem {key : ℕ × A}
    (hkey : ∀ record ∈ records, key ≠ (roundId, record.user)) :
    (recordAll outcomes roundId records).get key = outcomes.get key := by
  induction records generalizing outcomes with
  | nil => rfl
  | cons record rest ih =>
      show (recordAll (recordOutcome outcomes roundId record) roundId rest).get key = _
      rw [ih fun other hother => hkey other (List.mem_cons_of_mem _ hother)]
      exact recordOutcome_get_of_ne (hkey record (by simp))

/-- Over distinct users without a record, every record is stored. -/
theorem recordAll_get_of_mem (hnodup : (records.map (·.user)).Nodup)
    {record : UserRoundOutcome A} (hmem : record ∈ records)
    (hnone : outcomes.get (roundId, record.user) = none) :
    (recordAll outcomes roundId records).get (roundId, record.user) = some record := by
  induction records generalizing outcomes with
  | nil => simp at hmem
  | cons head rest ih =>
      simp only [List.map_cons, List.nodup_cons] at hnodup
      show (recordAll (recordOutcome outcomes roundId head) roundId rest).get _ = _
      rcases List.mem_cons.mp hmem with rfl | hmem
      · rw [recordAll_get_of_not_mem]
        · simp [recordOutcome, Store.has, hnone]
        · intro other hother heq
          rw [Prod.mk.injEq] at heq
          exact hnodup.1 (heq.2 ▸ List.mem_map_of_mem hother)
      · refine ih hnodup.2 hmem ?_
        rw [recordOutcome_get_of_ne, hnone]
        intro heq
        rw [Prod.mk.injEq] at heq
        exact hnodup.1 (heq.2 ▸ List.mem_map_of_mem hmem)

/-- Recording keeps every record that is there. -/
theorem recordAll_kept {key : ℕ × A} {record : UserRoundOutcome A}
    (hget : outcomes.get key = some record) :
    (recordAll outcomes roundId records).get key = some record := by
  induction records generalizing outcomes with
  | nil => exact hget
  | cons head rest ih =>
      refine @ih (recordOutcome outcomes roundId head) ?_
      by_cases hkey : key = (roundId, head.user)
      · subst hkey
        simp [recordOutcome, Store.has, hget]
      · rw [recordOutcome_get_of_ne hkey, hget]

end RecordAll

/-! ## The helpers are these functions -/

variable {env : Env A} {s : Storage A}

theorem accumulatePending_spec (user : A) (amount : ℤ) :
    Ensures (accumulatePending user amount) env s fun _ s' =>
      s' = { s with vault := s.vault.credit env.ledger.sequence user amount } := by
  simp only [accumulatePending, ensures_bind, ensures_gets, ensures_liftM, payoutAdd_eq_ok,
    ensures_onSome, ensures_reject, ensures_ledgerSequence, ensures_updateVault]
  rintro total ⟨rfl, -, -⟩
  exact ⟨fun _ _ _ => rfl, fun _ => rfl⟩

theorem persistUserOutcome_spec (roundId : ℕ) (record : UserRoundOutcome A) :
    Ensures (persistUserOutcome roundId record) env s fun _ s' =>
      s' = { s with
        userRoundOutcome := recordOutcome s.userRoundOutcome roundId record } := by
  simp only [persistUserOutcome, ensures_bind, ensures_gets, ensures_onlyIf, ensures_update]
  constructor
  · intro hrecorded
    simp [recordOutcome, hrecorded]
  · intro hrecorded
    simp [recordOutcome, hrecorded]

omit [DecidableEq A] in
theorem collectInsuranceFee_spec {fee : ℤ} (hfee : 0 < fee) :
    Ensures (collectInsuranceFee fee) env s fun share s' =>
      share = insuranceShare s.control.settings.insuranceSplitBps fee ∧
      s' = { s with vault := { s.vault with
        insFundBal :=
          if share ≤ 0 then s.vault.insFundBal else some (s.vault.insuranceFund + share) } } := by
  have hproduct : 0 ≤ fee * (s.control.settings.insuranceSplitBps : ℤ) :=
    mul_nonneg hfee.le (by omega)
  have hdiv := Int.tdiv_eq_ediv_of_nonneg (b := bpsDenominator) hproduct
  have hnonneg : 0 ≤ fee * (s.control.settings.insuranceSplitBps : ℤ) / bpsDenominator :=
    Int.ediv_nonneg hproduct (by decide)
  simp only [collectInsuranceFee, ensures_bind, ensures_gets, ensures_ite, ensures_pure,
    ensures_liftM, checked_eq_ok, divide_eq_ok, setInsuranceFund, ensures_updateVault]
  constructor
  · rintro (hsplit | hle)
    · rw [hsplit]
      simp [insuranceShare, hfee.le]
    · omega
  · rintro - product ⟨rfl, -, -⟩ amount ⟨rfl, -, -, -⟩
    rw [hdiv]
    constructor
    · intro hle
      have hzero : fee * (s.control.settings.insuranceSplitBps : ℤ) / bpsDenominator = 0 := by
        omega
      simp [insuranceShare, hzero, hfee.le]
    · intro hpos total htotal
      obtain ⟨rfl, -, -⟩ := htotal
      have hmin : ¬ min (fee * (s.control.settings.insuranceSplitBps : ℤ) / bpsDenominator) fee
          ≤ 0 := by
        rw [min_le_iff]
        omega
      exact ⟨rfl, by simp only [if_neg hmin]⟩

omit [DecidableEq A] in
theorem readTreasury_spec :
    Ensures readTreasury env s fun value s' => value = s.vault.treasury ∧ s' = s := by
  simp only [readTreasury, ensures_bind, ensures_gets]
  split
  · next h => simp [Vault.treasury, h]
  · next h => simp [Vault.treasury, h]
  · simp

omit [DecidableEq A] in
theorem collectProtocolFee_spec (fee : ℤ) :
    Ensures (collectProtocolFee fee) env s fun _ s' =>
      s' = { s with
        vault := s.vault.collectFee s.control.settings.insuranceSplitBps fee } := by
  simp only [collectProtocolFee, ensures_onlyIf]
  constructor
  · intro hfee
    refine (collectInsuranceFee_spec (by omega)).bind ?_
    rintro share s₁ ⟨rfl, rfl⟩
    simp only [ensures_bind, ensures_liftM, checked_eq_ok]
    rintro ops ⟨rfl, -, -⟩
    refine readTreasury_spec.mono ?_
    rintro value s₂ ⟨rfl, rfl⟩
    simp only [setTreasury, ensures_updateVault]
    rintro total ⟨rfl, -, -⟩
    simp only [Vault.collectFee, if_neg hfee]
    rfl
  · intro hfee
    simp only [Vault.collectFee, if_pos (not_not.mp hfee)]

/-! ## Loops of credits and records -/

/-- What records credit: the payout of every record but a loss. -/
def creditsOf (records : List (UserRoundOutcome A)) : List (A × ℤ) :=
  (records.filter fun record => record.outcome ≠ .loss).map fun record =>
    (record.user, record.payout)

omit [DecidableEq A] in
theorem creditsOf_append (first second : List (UserRoundOutcome A)) :
    creditsOf (first ++ second) = creditsOf first ++ creditsOf second := by
  simp [creditsOf, List.filter_append]

end DecidableAddress

section LinearAddress

variable [LinearOrder A] {env : Env A} {s : Storage A} {ledger roundId : ℕ}

/-- `s'` is `s` after the records of a round were credited, stored and counted. -/
structure Settles (ledger roundId : ℕ) (records : List (UserRoundOutcome A))
    (s s' : Storage A) : Prop where
  control : s'.control = s.control
  rounds : s'.rounds = s.rounds
  vault : s'.vault = s.vault.creditAll ledger (creditsOf records)
  outcomes : s'.userRoundOutcome = recordAll s.userRoundOutcome roundId records
  stats : s'.stats = s.stats.countAll records

theorem Settles.refl (s : Storage A) : Settles ledger roundId [] s s :=
  ⟨rfl, rfl, rfl, rfl, rfl⟩

theorem Settles.trans {first second : List (UserRoundOutcome A)} {s s' s'' : Storage A}
    (hfirst : Settles ledger roundId first s s') (hsecond : Settles ledger roundId second s' s'') :
    Settles ledger roundId (first ++ second) s s'' where
  control := hsecond.control.trans hfirst.control
  rounds := hsecond.rounds.trans hfirst.rounds
  vault := by rw [hsecond.vault, hfirst.vault, creditsOf_append, Vault.creditAll_append]
  outcomes := by rw [hsecond.outcomes, hfirst.outcomes, recordAll_append]
  stats := by rw [hsecond.stats, hfirst.stats, Stats.countAll_append]

/-- The loop rule: when every turn settles its own records, the loop settles them all, in
order. What a turn finds out about its item is known of every item at the end. -/
theorem settles_forEach {α : Type} {items : List α} {body : α → ContractM A PUnit}
    (records : α → List (UserRoundOutcome A)) (found : α → Prop)
    (hbody : ∀ a ∈ items, ∀ s', s'.rounds = s.rounds → s'.control = s.control →
      Ensures (body a) env s' fun _ s'' =>
        found a ∧ Settles ledger roundId (records a) s' s'') :
    Ensures (forEach items body) env s fun _ s' =>
      (∀ a ∈ items, found a) ∧ Settles ledger roundId (items.flatMap records) s s' := by
  induction items generalizing s with
  | nil => simpa using Settles.refl s
  | cons a rest ih =>
      simp only [ensures_forEach_cons]
      refine (hbody a (by simp) s rfl rfl).mono ?_
      intro _ s₁ hfirst
      refine (ih fun b hb s' hrounds hcontrol => ?_).mono ?_
      · exact hbody b (List.mem_cons_of_mem _ hb) s' (hrounds.trans hfirst.2.rounds)
          (hcontrol.trans hfirst.2.control)
      · intro _ s₂ hsecond
        refine ⟨?_, by simpa using hfirst.2.trans hsecond.2⟩
        intro b hb
        rcases List.mem_cons.mp hb with rfl | hb
        · exact hfirst.1
        · exact hsecond.1 b hb

/-- The loop rule with an accumulator that follows a function of its own. -/
theorem settles_foldEach {α β : Type} {items : List α} {acc : β}
    {body : β → α → ContractM A β} (records : α → List (UserRoundOutcome A))
    (follow : β → α → Except Failure β)
    (hbody : ∀ a ∈ items, ∀ acc s', s'.rounds = s.rounds → s'.control = s.control →
      Ensures (body acc a) env s' fun acc' s'' =>
        follow acc a = .ok acc' ∧ Settles ledger roundId (records a) s' s'') :
    Ensures (foldEach items acc body) env s fun acc' s' =>
      items.foldlM follow acc = .ok acc' ∧
        Settles ledger roundId (items.flatMap records) s s' := by
  induction items generalizing s acc with
  | nil =>
      simp only [ensures_foldEach_nil, List.foldlM_nil, List.flatMap_nil]
      exact ⟨rfl, Settles.refl s⟩
  | cons a rest ih =>
      simp only [ensures_foldEach_cons]
      refine (hbody a (by simp) acc s rfl rfl).mono ?_
      intro acc₁ s₁ hfirst
      refine (ih fun b hb acc' s' hrounds hcontrol => ?_).mono ?_
      · exact hbody b (List.mem_cons_of_mem _ hb) acc' s' (hrounds.trans hfirst.2.rounds)
          (hcontrol.trans hfirst.2.control)
      · intro acc₂ s₂ hsecond
        refine ⟨?_, by simpa using hfirst.2.trans hsecond.2⟩
        rw [List.foldlM_cons, hfirst.1]
        exact hsecond.1

/-- A credit with a record that does not count settles the record. -/
theorem creditOutcome_spec {record : UserRoundOutcome A} (hcounts : ¬ record.counts) :
    Ensures (creditOutcome roundId record) env s fun _ s' =>
      Settles env.ledger.sequence roundId [record] s s' := by
  simp only [creditOutcome]
  refine (accumulatePending_spec record.user record.payout).bind ?_
  rintro _ s₁ rfl
  refine (persistUserOutcome_spec roundId record).mono ?_
  rintro _ s₂ rfl
  constructor
  · rfl
  · rfl
  · have hloss : record.outcome ≠ .loss := fun hloss => hcounts (.inr hloss)
    simp [creditsOf, hloss]
  · rfl
  · exact (if_neg hcounts).symm

/-- A credit, a counted win and its record settle the record. -/
theorem creditWin_spec {record : UserRoundOutcome A} (hwin : record.outcome = .win) :
    Ensures (do
      accumulatePending record.user record.payout
      onStats (updateStatsWin record.user)
      persistUserOutcome roundId record) env s fun _ s' =>
        Settles env.ledger.sequence roundId [record] s s' := by
  refine (accumulatePending_spec record.user record.payout).bind ?_
  rintro _ s₁ rfl
  simp only [ensures_bind, ensures_onStats]
  refine (updateStatsWin_spec record.user).mono ?_
  rintro _ stats rfl
  refine (persistUserOutcome_spec roundId record).mono ?_
  rintro _ s₂ rfl
  constructor
  · rfl
  · rfl
  · simp [creditsOf, hwin]
  · rfl
  · simp [Stats.countAll, Stats.countRecord, UserRoundOutcome.counts, hwin]

/-- A counted loss and its record settle the record. -/
theorem recordLoss_spec {record : UserRoundOutcome A} (hloss : record.outcome = .loss) :
    Ensures (do
      onStats (updateStatsLoss record.user)
      persistUserOutcome roundId record) env s fun _ s' =>
        Settles env.ledger.sequence roundId [record] s s' := by
  simp only [ensures_bind, ensures_onStats]
  refine (updateStatsLoss_spec record.user).mono ?_
  rintro _ stats rfl
  refine (persistUserOutcome_spec roundId record).mono ?_
  rintro _ s₂ rfl
  constructor
  · rfl
  · rfl
  · simp [creditsOf, hloss]
  · rfl
  · simp [Stats.countAll, Stats.countRecord, UserRoundOutcome.counts, hloss]

end LinearAddress

end XelmaMarket
