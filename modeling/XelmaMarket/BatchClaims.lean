import XelmaMarket.Script

/-!
# Batch claims

Claiming for a batch of users is claiming for each of them in turn: it succeeds when all the single
claims do, with the same amounts, and leaves the same state, in whatever order the users are listed.
-/

namespace XelmaMarket

open Transaction

variable {A : Type} [LinearOrder A]

/-! ## Single claims -/

/-- What a user has pending can be moved to the balance: there is nothing, or the sum is in
range. -/
def Vault.Claimable (vault : Vault A) (user : A) : Prop :=
  vault.pendingOf user = 0 ∨
    i128Min ≤ vault.balanceOf user + vault.pendingOf user ∧
      vault.balanceOf user + vault.pendingOf user ≤ i128Max

/-- Claims are open: the schema is supported, and the mode does not block them. -/
def Storage.ClaimsOpen (s : Storage A) : Prop :=
  SchemaSupported s.control.settings.schemaVersion ∧
    ¬ s.control.settings.currentMode.blocks .adminConfig

section Single

variable {env : Env A} {s : Storage A} {vault : Vault A} {user other : A} {users : List A}
  {post : ℤ → Storage A → Prop}

theorem claimPending_returns : Returns (claimPending user) env s post ↔
    s.vault.Claimable user ∧ post (s.vault.pendingOf user)
      { s with vault := s.vault.claim user } := by
  simp only [claimPending, setBalance, returns_bind, returns_gets, returns_ite, returns_pure,
    returns_liftM, payoutAdd_eq_ok, returns_updateVault, Vault.Claimable, Vault.claim]
  by_cases hzero : s.vault.pendingOf user = 0
  · simp [hzero]
  · simp [hzero]

theorem claimWinnings_returns : Returns (claimWinnings user) env s post ↔
    s.ClaimsOpen ∧ user ∈ env.signers ∧ s.vault.Claimable user ∧
      post (s.vault.pendingOf user) { s with vault := s.vault.claim user } := by
  simp only [claimWinnings, requireSupportedSchema, ensureNotPaused, policyGate, returns_bind,
    returns_onControl, returns_gets, returns_reject, returns_pure, returns_requireAuth,
    claimPending_returns, Storage.ClaimsOpen, SchemaSupported, not_or, ne_eq, gt_iff_lt, not_lt]
  grind

/-- A claim leaves the other accounts as they are. -/
theorem claim_other (hne : other ≠ user) :
    (vault.claim user).balanceOf other = vault.balanceOf other ∧
      (vault.claim user).pendingOf other = vault.pendingOf other := by
  unfold Vault.claim
  split
  · exact ⟨rfl, rfl⟩
  · simp [Vault.balanceOf, Vault.pendingOf, Store.getD, Store.get_set_of_ne _ _ hne,
      Store.get_remove_of_ne _ hne]

theorem claimable_claim (hne : other ≠ user) :
    (vault.claim user).Claimable other ↔ vault.Claimable other := by
  obtain ⟨hbalance, hpending⟩ := @claim_other _ _ vault user other hne
  unfold Vault.Claimable
  rw [hbalance, hpending]

theorem claim_of_zero (hzero : vault.pendingOf user = 0) : vault.claim user = vault := by
  rw [Vault.claim, if_pos hzero]

/-- The vault after two users claimed what they had pending. -/
theorem claim_claim (hne : other ≠ user) (huser : vault.pendingOf user ≠ 0)
    (hother : vault.pendingOf other ≠ 0) :
    (vault.claim user).claim other =
      { vault with
        pendingWinnings := (vault.pendingWinnings.remove user).remove other
        pendingWinningsUpdatedAt := (vault.pendingWinningsUpdatedAt.remove user).remove other
        balance := (vault.balance.set user (vault.balanceOf user + vault.pendingOf user)).set other
          (vault.balanceOf other + vault.pendingOf other) } := by
  obtain ⟨hbalance, hpending⟩ := @claim_other _ _ vault user other hne
  have hother' : (vault.claim user).pendingOf other ≠ 0 := by rwa [hpending]
  rw [claim_eq _ other hother', ← hbalance, ← hpending]
  unfold Vault.claim
  rw [if_neg huser]
  rfl

/-- Claims of two users commute. -/
theorem claim_comm (hne : other ≠ user) :
    (vault.claim user).claim other = (vault.claim other).claim user := by
  obtain ⟨-, hpending⟩ := @claim_other _ _ vault user other hne
  obtain ⟨-, hpending'⟩ := @claim_other _ _ vault other user hne.symm
  by_cases hother : vault.pendingOf other = 0
  · rw [claim_of_zero (hpending.trans hother), claim_of_zero hother]
  · by_cases huser : vault.pendingOf user = 0
    · rw [claim_of_zero (hpending'.trans huser), claim_of_zero huser]
    · rw [claim_claim hne huser hother, claim_claim hne.symm hother huser,
        Store.set_comm _ _ _ hne, Store.remove_comm _ user other,
        Store.remove_comm _ user other]

/-- The order of a batch does not matter. -/
theorem foldl_claim_perm {users' : List A} (hperm : users.Perm users') (hnodup : users.Nodup) :
    users.foldl Vault.claim vault = users'.foldl Vault.claim vault := by
  induction hperm generalizing vault with
  | nil => rfl
  | cons user _ ih => exact ih (List.nodup_cons.mp hnodup).2
  | swap first second rest =>
      have hne : first ≠ second := by
        rintro rfl
        exact (List.nodup_cons.mp hnodup).1 List.mem_cons_self
      simp only [List.foldl_cons, claim_comm hne]
  | trans hfirst _ ih ih' => exact (ih hnodup).trans (ih' (hfirst.nodup_iff.mp hnodup))

end Single

/-! ## A batch -/

section Batch

variable {env : Env A} {s s' : Storage A} {users : List A} {amounts : List ℤ}

/-- Sorting brings two occurrences of an address together. -/
theorem hasAdjacentDuplicate_sorted {sorted : List A} (hsorted : sorted.Pairwise (· ≤ ·)) :
    hasAdjacentDuplicate sorted = false ↔ sorted.Nodup := by
  induction sorted with
  | nil => simp [hasAdjacentDuplicate]
  | cons first rest ih =>
      obtain ⟨hfirst, hrest⟩ := List.pairwise_cons.mp hsorted
      cases rest with
      | nil => simp [hasAdjacentDuplicate]
      | cons second rest =>
          rw [hasAdjacentDuplicate, Bool.or_eq_false_iff, decide_eq_false_iff_not, ih hrest,
            @List.nodup_cons _ first]
          refine and_congr_left fun _ => ?_
          constructor
          · -- whatever comes later in a sorted list is no smaller than the second
            intro hne hmem
            rcases List.mem_cons.mp hmem with rfl | hmem
            · exact hne rfl
            · have hle := (List.pairwise_cons.mp hrest).1 first hmem
              exact hne (le_antisymm (hfirst second List.mem_cons_self) hle)
          · rintro hout rfl
            exact hout List.mem_cons_self

/-- The loop of a batch of different users returns when each of them can claim. -/
theorem claimEach_returns {post : List ℤ → Storage A → Prop} (hnodup : users.Nodup) :
    Returns (foldEach users amounts fun amounts user => do
        requireAuth user
        let amount ← claimPending user
        return amounts ++ [amount]) env s post ↔
      (∀ user ∈ users, user ∈ env.signers ∧ s.vault.Claimable user) ∧
        post (amounts ++ users.map s.vault.pendingOf)
          { s with vault := users.foldl Vault.claim s.vault } := by
  induction users generalizing s amounts with
  | nil => simp
  | cons user rest ih =>
      obtain ⟨hout, hrest⟩ := List.nodup_cons.mp hnodup
      have hne : ∀ other ∈ rest, other ≠ user := fun other hmem heq => hout (heq ▸ hmem)
      have hclaimable : ∀ other ∈ rest,
          ((s.vault.claim user).Claimable other ↔ s.vault.Claimable other) :=
        fun other hmem => claimable_claim (hne other hmem)
      have hamounts : rest.map (s.vault.claim user).pendingOf = rest.map s.vault.pendingOf :=
        List.map_congr_left fun other hmem => (claim_other (hne other hmem)).2
      simp only [returns_foldEach_cons, returns_bind, returns_requireAuth, returns_pure,
        claimPending_returns, ih hrest, hamounts, List.forall_mem_cons, List.map_cons,
        List.append_assoc, List.singleton_append, List.foldl_cons]
      constructor
      · rintro ⟨hsigner, hclaim, hall, hpost⟩
        refine ⟨⟨⟨hsigner, hclaim⟩, fun other hmem => ?_⟩, hpost⟩
        exact ⟨(hall other hmem).1, (hclaimable other hmem).mp (hall other hmem).2⟩
      · rintro ⟨⟨⟨hsigner, hclaim⟩, hall⟩, hpost⟩
        refine ⟨hsigner, hclaim, fun other hmem => ?_, hpost⟩
        exact ⟨(hall other hmem).1, (hclaimable other hmem).mpr (hall other hmem).2⟩

/-- A batch returns when claims are open, it is small enough, no user is listed twice, and each of
them authorised it and can claim. -/
theorem claimMany_returns {post : List ℤ → Storage A → Prop} :
    Returns (claimMany users) env s post ↔
      s.ClaimsOpen ∧ users.length ≤ maxClaimBatchSize ∧ users.Nodup ∧
        (∀ user ∈ users, user ∈ env.signers ∧ s.vault.Claimable user) ∧
        post (users.map s.vault.pendingOf)
          { s with vault := users.foldl Vault.claim s.vault } := by
  have hduplicate : ¬ hasAdjacentDuplicate (sortAddresses users) = true ↔ users.Nodup := by
    have hsorted : (sortAddresses users).Pairwise (· ≤ ·) :=
      List.pairwise_insertionSort (· ≤ ·) users
    rw [Bool.not_eq_true, hasAdjacentDuplicate_sorted hsorted,
      (sortAddresses_perm users).nodup_iff]
  simp only [claimMany, requireSupportedSchema, ensureNotPaused, policyGate, returns_bind,
    returns_onControl, returns_gets, returns_reject, returns_pure, hduplicate,
    Storage.ClaimsOpen, SchemaSupported, not_or, ne_eq, gt_iff_lt, not_lt]
  constructor
  · rintro ⟨⟨hzero, hschema⟩, hmode, hlength, hnodup, hloop⟩
    rw [claimEach_returns hnodup, List.nil_append] at hloop
    exact ⟨⟨⟨hzero, hschema⟩, hmode⟩, hlength, hnodup, hloop⟩
  · rintro ⟨⟨⟨hzero, hschema⟩, hmode⟩, hlength, hnodup, hloop⟩
    refine ⟨⟨hzero, hschema⟩, hmode, hlength, hnodup, ?_⟩
    rw [claimEach_returns hnodup, List.nil_append]
    exact hloop

/-- A batch that succeeds is small enough, lists no user twice, and each of them can claim. -/
theorem claimMany_ensures (users : List A) :
    Ensures (Call.claimMany users).exec env s fun _ _ =>
      users.length ≤ maxClaimBatchSize ∧ users.Nodup ∧
        ∀ user ∈ users, s.vault.Claimable user := by
  intro value s' hrun
  have hreturns : Returns (claimMany users) env s fun _ _ => True := by
    obtain ⟨amounts, s₁, hclaim, -⟩ := (returns_bind _ _).mp
      (⟨value, s', hrun, trivial⟩ : Returns (discardResult (claimMany users)) env s fun _ _ => True)
    exact ⟨amounts, s₁, hclaim, trivial⟩
  obtain ⟨-, hlength, hnodup, hall, -⟩ := claimMany_returns.mp hreturns
  exact ⟨hlength, hnodup, fun user hmem => (hall user hmem).2⟩

end Batch

/-! ## One by one -/

/-- The users claim one after the other in calls of their own, each with some authorisation. -/
inductive ClaimsInTurn (host : Host A) (ledger : Ledger) :
    Storage A → List A → List ℤ → Storage A → Prop where
  | nil (s : Storage A) : ClaimsInTurn host ledger s [] [] s
  | cons {s s₁ s' : Storage A} {user : A} {rest : List A} {amount : ℤ} {amounts : List ℤ}
      (signers : List A)
      (hclaim : claimWinnings user ⟨host, ledger, signers⟩ s = .ok (amount, s₁))
      (hrest : ClaimsInTurn host ledger s₁ rest amounts s') :
      ClaimsInTurn host ledger s (user :: rest) (amount :: amounts) s'

section InTurn

variable {host : Host A} {ledger : Ledger} {s s' : Storage A} {users : List A} {amounts : List ℤ}

/-- Different users claim in turn when claims are open and each of them can claim. -/
theorem claimsInTurn_iff (hnodup : users.Nodup) :
    ClaimsInTurn host ledger s users amounts s' ↔
      (users ≠ [] → s.ClaimsOpen) ∧ (∀ user ∈ users, s.vault.Claimable user) ∧
        amounts = users.map s.vault.pendingOf ∧
        s' = { s with vault := users.foldl Vault.claim s.vault } := by
  induction users generalizing s amounts with
  | nil =>
      constructor
      · intro hturn
        cases hturn
        simp
      · rintro ⟨-, -, rfl, rfl⟩
        exact .nil s
  | cons user rest ih =>
      obtain ⟨hout, hrest⟩ := List.nodup_cons.mp hnodup
      have hne : ∀ other ∈ rest, other ≠ user := fun other hmem heq => hout (heq ▸ hmem)
      have hamounts : rest.map (s.vault.claim user).pendingOf = rest.map s.vault.pendingOf :=
        List.map_congr_left fun other hmem => (claim_other (hne other hmem)).2
      have hafter := @ih { s with vault := s.vault.claim user }
      simp only [hamounts] at hafter
      constructor
      · intro hturn
        cases hturn with
        | cons signers hclaim hturn =>
            obtain ⟨hopen, -, hclaimable, rfl, rfl⟩ :=
              claimWinnings_returns.mp (eq_ok_iff_returns.mp hclaim)
            obtain ⟨-, hall, rfl, rfl⟩ := (hafter hrest).mp hturn
            refine ⟨fun _ => hopen, List.forall_mem_cons.mpr ⟨hclaimable, ?_⟩, rfl, rfl⟩
            exact fun other hmem => (claimable_claim (hne other hmem)).mp (hall other hmem)
      · rintro ⟨hopen, hall, rfl, rfl⟩
        obtain ⟨hclaimable, hall⟩ := List.forall_mem_cons.mp hall
        have hopen := hopen (List.cons_ne_nil _ _)
        have hclaim := eq_ok_iff_returns.mpr ((@claimWinnings_returns _ _ ⟨host, ledger, [user]⟩ s
          user _).mpr ⟨hopen, List.mem_singleton_self user, hclaimable, rfl, rfl⟩)
        refine .cons [user] hclaim ((hafter hrest).mpr ⟨fun _ => hopen, ?_, rfl, rfl⟩)
        exact fun other hmem => (claimable_claim (hne other hmem)).mpr (hall other hmem)

end InTurn

/-! ## Over all histories -/

/-- A batch of up to 50 different users who authorised it succeeds exactly when their claims in turn
do, with the same amounts and the same state, in every order; a batch that fails, as one that is
too large, lists a user twice or overflows does, changes nothing. -/
theorem claim_many_refines {host : Host A} {chain : Chain A} {signers users : List A}
    (hne : users ≠ []) (hsize : users.length ≤ 50) (hnodup : users.Nodup)
    (hsigners : ∀ user ∈ users, user ∈ signers) :
    (∀ amounts s', claimMany users ⟨host, chain.ledger, signers⟩ chain.storage = .ok (amounts, s') ↔
      ClaimsInTurn host chain.ledger chain.storage users amounts s') ∧
    (∀ users' amounts s', users.Perm users' →
      claimMany users ⟨host, chain.ledger, signers⟩ chain.storage = .ok (amounts, s') →
      ∃ amounts', claimMany users' ⟨host, chain.ledger, signers⟩ chain.storage =
        .ok (amounts', s')) ∧
    (∀ batch : List A, 50 < batch.length ∨ ¬ batch.Nodup ∨
        (∃ user ∈ batch, ¬ chain.storage.vault.Claimable user) →
      ∀ chain', ¬ Step host chain (.invoke signers (.claimMany batch)) chain') ∧
    (∀ batch : List A, (∀ chain', ¬ Step host chain (.invoke signers (.claimMany batch)) chain') →
      chain.submit host (.invoke signers (.claimMany batch)) = chain) := by
  have hbatch : ∀ {batch : List A} {amounts s'},
      claimMany batch ⟨host, chain.ledger, signers⟩ chain.storage = .ok (amounts, s') ↔
        chain.storage.ClaimsOpen ∧ batch.length ≤ maxClaimBatchSize ∧ batch.Nodup ∧
          (∀ user ∈ batch, user ∈ signers ∧ chain.storage.vault.Claimable user) ∧
          batch.map chain.storage.vault.pendingOf = amounts ∧
          { chain.storage with vault := batch.foldl Vault.claim chain.storage.vault } = s' := by
    exact fun {_ _ _} => eq_ok_iff_returns.trans claimMany_returns
  refine ⟨fun amounts s' => ?_, ?_, ?_, fun batch => submit_eq_of_failed⟩
  · rw [hbatch, claimsInTurn_iff hnodup]
    constructor
    · rintro ⟨hopen, -, -, hall, rfl, rfl⟩
      exact ⟨fun _ => hopen, fun user hmem => (hall user hmem).2, rfl, rfl⟩
    · rintro ⟨hopen, hall, rfl, rfl⟩
      exact ⟨hopen hne, hsize, hnodup, fun user hmem => ⟨hsigners user hmem, hall user hmem⟩,
        rfl, rfl⟩
  · intro users' amounts s' hperm hrun
    obtain ⟨hopen, hlength, -, hall, -, rfl⟩ := hbatch.mp hrun
    refine ⟨users'.map chain.storage.vault.pendingOf, hbatch.mpr ⟨hopen, ?_, ?_, ?_, rfl, ?_⟩⟩
    · rwa [← hperm.length_eq]
    · exact hperm.nodup_iff.mp hnodup
    · exact fun user hmem => hall user (hperm.mem_iff.mpr hmem)
    · rw [foldl_claim_perm hperm hnodup]
  · intro batch hbad chain' hstep
    obtain ⟨hlength, hdistinct, hclaimable⟩ := hstep.ensured (claimMany_ensures batch)
    rcases hbad with hlarge | hduplicate | ⟨user, hmem, hoverflow⟩
    · exact absurd hlength (not_le.mpr hlarge)
    · exact hduplicate hdistinct
    · exact hoverflow (hclaimable user hmem)

/-- The users of a voided trial round claim in turn what a batch claims for them. -/
theorem voided_round_claims : ∃ (chain : Chain ℕ) (s' : Storage ℕ), Reachable trialHost chain ∧
    ClaimsInTurn trialHost chain.ledger chain.storage [4, 3] [30, 70] s' := by
  obtain ⟨trace, chain, hhistory, -, hfits⟩ := exists_trial_history
    (overlappingRounds ++ [.invoke [9] (.voidRound 1)])
    (fun chain => (claimMany [4, 3] ⟨trialHost, chain.ledger, [3, 4]⟩ chain.storage).toOption.any
      fun result : List ℤ × Storage ℕ => decide (result.1 = [30, 70])) (by decide +kernel)
  obtain ⟨⟨amounts, s'⟩, hrun, hamounts⟩ := (Option.any_eq_true _ _).mp hfits
  obtain rfl : amounts = [30, 70] := of_decide_eq_true hamounts
  cases hclaim : claimMany [4, 3] ⟨trialHost, chain.ledger, [3, 4]⟩ chain.storage with
  | error failure =>
      rw [hclaim] at hrun
      cases hrun
  | ok result =>
      rw [hclaim] at hrun
      obtain rfl := Option.some.inj hrun
      exact ⟨chain, s', ⟨trace, hhistory⟩,
        ((claim_many_refines (by decide) (by decide) (by decide) (by decide)).1 _ _).mp hclaim⟩

end XelmaMarket
