import XelmaMarket.RoundLife

/-!
# Custody

Who can take what out of an account. A balance goes down only by a stake its owner authorised or by
a top-up of the admin. Pending winnings go down only to nothing: the owner claims them, or the admin
reclaims them, and then every credit in them is older than the expiry.
-/

namespace XelmaMarket

variable {A : Type} [LinearOrder A] {env : Env A} {s s' : Storage A} {call : Call A} {user : A}

/-! ## Balances -/

/-- A call that stakes an amount of a user. -/
def Call.Stakes (user : A) (amount : ℤ) (call : Call A) : Prop :=
  (∃ side, call = .placeBet user amount side) ∨
    (∃ price, call = .placePrecisionPrediction user amount price) ∨
    (∃ price, call = .predictPrice user price amount) ∨
    ∃ hash, call = .commitPrediction user hash amount

/-- What lowers the balance of a user. -/
inductive BalanceLowered (env : Env A) (s : Storage A) (call : Call A) (s' : Storage A) (user : A) :
    Prop where
  | staked (round : Round) (amount : ℤ) (hcall : call.Stakes user amount)
      (hsigner : user ∈ env.signers) (hround : s.rounds.activeRound = some round)
      (hstake : s'.rounds.stakeOf round.mode round.roundId user = amount)
      (hbalance : s'.vault.balanceOf user = s.vault.balanceOf user - amount)
  | toppedUp (amount : ℤ) (hcall : call = .topUpInsuranceFund amount)
      (hadmin : s.control.governance.admin = some user) (hsigner : user ∈ env.signers)
      (hbalance : s'.vault.balanceOf user = s.vault.balanceOf user - amount)

omit [LinearOrder A] in
theorem balanceOf_debit [DecidableEq A] (vault : Vault A) (other : A) (amount : ℤ) :
    (vault.debit other amount).balanceOf user =
      vault.balanceOf user - if user = other then amount else 0 := by
  by_cases hother : user = other
  · subst hother
    simp [Vault.debit, Vault.balanceOf, Store.getD_set]
  · simp [Vault.debit, Vault.balanceOf, Store.getD_set, hother]

omit [LinearOrder A] in
theorem balanceOf_deposit [DecidableEq A] (vault : Vault A) (other : A) (amount : ℤ) :
    (vault.deposit other amount).balanceOf user =
      vault.balanceOf user + if user = other then amount else 0 := by
  by_cases hother : user = other
  · subst hother
    simp [Vault.deposit, Vault.balanceOf, Store.getD_set]
  · simp [Vault.deposit, Vault.balanceOf, Store.getD_set, hother]

omit [LinearOrder A] in
/-- A claim moves a user's pending winnings to the balance. -/
theorem claim_sum [DecidableEq A] (vault : Vault A) (other : A) :
    (vault.claim other).balanceOf user + (vault.claim other).pendingOf user =
      vault.balanceOf user + vault.pendingOf user := by
  unfold Vault.claim
  split
  · rfl
  · by_cases hother : user = other
    · subst hother
      simp [Vault.balanceOf, Vault.pendingOf, Store.getD_set, Store.getD_remove]
    · simp [Vault.balanceOf, Vault.pendingOf, Store.getD_set, Store.getD_remove, hother]

omit [LinearOrder A] in
theorem claimAll_sum [DecidableEq A] (vault : Vault A) (users : List A) :
    (users.foldl Vault.claim vault).balanceOf user + (users.foldl Vault.claim vault).pendingOf user =
      vault.balanceOf user + vault.pendingOf user := by
  induction users generalizing vault with
  | nil => rfl
  | cons other rest ih => exact (ih _).trans (claim_sum vault other)

omit [LinearOrder A] in
theorem Placement.stakes [DecidableEq A] {rounds rounds' : Rounds A} {round : Round} {amount : ℤ}
    (hplaced : Placement rounds round user amount call rounds') : call.Stakes user amount := by
  cases hplaced with
  | bet side => exact .inl ⟨side, rfl⟩
  | predict _ price hcall =>
      rcases hcall with rfl | rfl
      · exact .inr (.inl ⟨price, rfl⟩)
      · exact .inr (.inr (.inl ⟨price, rfl⟩))
  | commit hash => exact .inr (.inr (.inr ⟨hash, rfl⟩))

/-- A balance is lowered by its owner's stake or by the admin's top-up only. -/
theorem Effect.balanceLowered (hordered : s.rounds.Ordered) (hsolvent : s.vault.Solvent)
    (heffect : Effect env s call s') (hlowered : s'.vault.balanceOf user < s.vault.balanceOf user) :
    BalanceLowered env s call s' user := by
  have hpending := hsolvent.pendingOf_nonneg
  have hunchanged : s'.vault.balance = s.vault.balance → BalanceLowered env s call s' user := by
    intro hsame
    unfold Vault.balanceOf at hlowered
    rw [hsame] at hlowered
    exact absurd hlowered (lt_irrefl _)
  have hraised : ∀ vault : Vault A, ∀ other amount, 0 ≤ amount →
      vault.balanceOf user = s.vault.balanceOf user →
      s'.vault.balance = (vault.deposit other amount).balance →
      BalanceLowered env s call s' user := by
    intro vault other amount hamount hvault hsame
    have hdeposit := @balanceOf_deposit _ user _ vault other amount
    unfold Vault.balanceOf at hlowered hdeposit hvault
    rw [hsame, hdeposit] at hlowered
    split at hlowered <;> omega
  cases heffect with
  | quiet _ _ hsame => exact hunchanged (by rw [hsame.vault])
  | treasuryAddress _ _ _ _ _ _ _ hvault | openRound _ _ _ _ _ _ _ _ hvault
  | reveal _ _ _ _ _ _ _ _ _ _ hvault | stage _ _ _ _ _ _ _ _ _ hvault =>
      exact hunchanged (by rw [hvault])
  | mint other _ _ _ hvault =>
      exact hraised s.vault other initialAmount (by decide) rfl (by rw [hvault])
  | payFee _ recipient amount _ _ hamount hvault
  | payFund _ recipient amount _ _ hamount hvault =>
      exact hraised s.vault recipient amount hamount.1.le rfl (by rw [hvault])
  | topUp admin amount _ hadmin hsigner hamount hvault =>
      have hbalance : s'.vault.balanceOf user =
          s.vault.balanceOf user - if user = admin then amount else 0 := by
        rw [hvault]
        exact balanceOf_debit s.vault admin amount
      by_cases huser : user = admin
      · subst huser
        exact .toppedUp amount rfl hadmin hsigner (by simpa using hbalance)
      · simp only [huser, if_false] at hbalance
        omega
  | reclaim other admin _ _ _ _ _ _ _ _ hvault =>
      exact hraised (s.vault.clearPending other) admin _ (hpending other) rfl (by rw [hvault])
  | claim _ users _ _ _ hvault =>
      have hsum := @claimAll_sum _ user _ s.vault users
      have hnonneg := hpending user
      rw [← hvault] at hsum
      have hafter : s'.vault.pendingOf user ≤ s.vault.pendingOf user := by
        rw [hvault]
        rcases claimAll_pendingOf s.vault users user with hsame | hzero <;> omega
      omega
  | stake _ round other amount _ hround hsigner _ hamount _ hplaced hvault =>
      have hbalance : s'.vault.balanceOf user =
          s.vault.balanceOf user - if user = other then amount else 0 := by
        rw [hvault]
        exact balanceOf_debit s.vault other amount
      by_cases huser : user = other
      · subst huser
        have hjoined := hplaced.joined (hordered.active_represented hround) hround hamount.1
        exact .staked round amount hplaced.stakes hsigner hround hjoined.staked
          (by simpa using hbalance)
      · simp only [huser, if_false] at hbalance
        omega
  | cashOut _ _ _ _ _ _ _ _ _ _ _ hvault => exact hunchanged (by rw [hvault]; simp)
  | ending _ _ _ _ hends => exact hunchanged hends.balance

/-! ## Pending winnings -/

/-- What a call does to the pending winnings of a user and to the date of the last credit. -/
inductive PendingStep (env : Env A) (s : Storage A) (call : Call A) (s' : Storage A) (user : A) :
    Prop where
  | kept (hentry : s'.vault.pendingWinnings.get user = s.vault.pendingWinnings.get user)
      (hdate : s'.vault.pendingWinningsUpdatedAt.get user =
        s.vault.pendingWinningsUpdatedAt.get user)
  | credited (hraised : s.vault.pendingOf user ≤ s'.vault.pendingOf user)
      (hdate : s'.vault.pendingWinningsUpdatedAt.get user = some env.ledger.sequence)
  | claimed (hcall : call = .claimWinnings user ∨ ∃ users, call = .claimMany users ∧ user ∈ users)
      (hsigner : user ∈ env.signers) (hcleared : s'.vault.pendingOf user = 0)
      (hbalance : s'.vault.balanceOf user = s.vault.balanceOf user + s.vault.pendingOf user)
  | reclaimed (admin : A) (expiry updatedAt : ℕ)
      (hcall : call = .reclaimExpiredPendingWinnings user)
      (hadmin : s.control.governance.admin = some admin) (hsigner : admin ∈ env.signers)
      (hexpiry : s.control.settings.pendingWinningsExpiry = some expiry ∧ expiry ≠ 0)
      (hdate : s.vault.pendingWinningsUpdatedAt.get user = some updatedAt)
      (hexpired : updatedAt + expiry ≤ env.ledger.sequence)
      (hcleared : s'.vault.pendingOf user = 0)
      (hbalance : s'.vault.balanceOf admin = s.vault.balanceOf admin + s.vault.pendingOf user)

omit [LinearOrder A] in
/-- Claims leave the entry and the date of a user who claims nothing. -/
theorem claimAll_kept [DecidableEq A] (vault : Vault A) {users : List A}
    (hkept : user ∉ users ∨ vault.pendingOf user = 0) :
    (users.foldl Vault.claim vault).pendingWinnings.get user = vault.pendingWinnings.get user ∧
      (users.foldl Vault.claim vault).pendingWinningsUpdatedAt.get user =
        vault.pendingWinningsUpdatedAt.get user := by
  induction users generalizing vault with
  | nil => exact ⟨rfl, rfl⟩
  | cons other rest ih =>
      have hstep : (vault.claim other).pendingWinnings.get user = vault.pendingWinnings.get user ∧
          (vault.claim other).pendingWinningsUpdatedAt.get user =
            vault.pendingWinningsUpdatedAt.get user := by
        unfold Vault.claim
        split
        · exact ⟨rfl, rfl⟩
        · next hnonzero =>
            have hother : user ≠ other := by
              rintro rfl
              rcases hkept with hnot | hzero
              · exact hnot (by simp)
              · exact hnonzero hzero
            exact ⟨Store.get_remove_of_ne _ hother, Store.get_remove_of_ne _ hother⟩
      have hnext : user ∉ rest ∨ (vault.claim other).pendingOf user = 0 := by
        refine hkept.imp (fun hnot hmem => hnot (List.mem_cons_of_mem _ hmem)) fun hzero => ?_
        unfold Vault.pendingOf Store.getD at hzero ⊢
        rw [hstep.1, hzero]
      exact ⟨(ih _ hnext).1.trans hstep.1, (ih _ hnext).2.trans hstep.2⟩

omit [LinearOrder A] in
/-- Claims leave nothing to a user who claims. -/
theorem claimAll_cleared [DecidableEq A] (vault : Vault A) {users : List A}
    (huser : user ∈ users) : (users.foldl Vault.claim vault).pendingOf user = 0 := by
  induction users generalizing vault with
  | nil => cases huser
  | cons other rest ih =>
      by_cases hrest : user ∈ rest
      · exact ih _ hrest
      · obtain rfl : user = other := by simpa [hrest] using huser
        have hzero : (vault.claim user).pendingOf user = 0 := by
          unfold Vault.claim
          split
          · assumption
          · simp [Vault.pendingOf, Store.getD_remove]
        rw [List.foldl_cons]
        have hkept := (@claimAll_kept _ user _ (vault.claim user) rest (.inl hrest)).1
        unfold Vault.pendingOf Store.getD at hzero ⊢
        rw [hkept, hzero]

/-- Credits leave a user's entry and date, or date it now. -/
theorem creditAll_pendingStep {vault : Vault A} {credits : List (A × ℤ)}
    (hcredits : ∀ credit ∈ credits, 0 ≤ credit.2) :
    ((vault.creditAll env.ledger.sequence credits).pendingWinnings.get user =
        vault.pendingWinnings.get user ∧
      (vault.creditAll env.ledger.sequence credits).pendingWinningsUpdatedAt.get user =
        vault.pendingWinningsUpdatedAt.get user) ∨
    (vault.pendingOf user ≤ (vault.creditAll env.ledger.sequence credits).pendingOf user ∧
      (vault.creditAll env.ledger.sequence credits).pendingWinningsUpdatedAt.get user =
        some env.ledger.sequence) := by
  by_cases huser : user ∈ credits.map (·.1)
  · right
    rw [Vault.creditAll_pendingOf, Vault.creditAll_updatedAt, if_pos huser]
    have := creditTo_nonneg hcredits user
    exact ⟨by omega, rfl⟩
  · left
    rw [Vault.creditAll_updatedAt, if_neg huser, Vault.creditAll_get_of_not_mem _ _ _ huser]
    exact ⟨rfl, rfl⟩

/-- Every call leaves, credits or clears a user's pending winnings. -/
theorem Effect.pendingStep (hordered : s.rounds.Ordered)
    (hcap : FeeCapped s.control.settings.protocolFeeBps) (heffect : Effect env s call s')
    (user : A) : PendingStep env s call s' user := by
  cases heffect with
  | quiet _ _ hsame => exact .kept (by rw [hsame.vault]) (by rw [hsame.vault])
  | mint _ _ _ _ hvault | treasuryAddress _ _ _ _ _ _ _ hvault | payFee _ _ _ _ _ _ hvault
  | payFund _ _ _ _ _ _ hvault | topUp _ _ _ _ _ _ hvault | openRound _ _ _ _ _ _ _ _ hvault
  | stake _ _ _ _ _ _ _ _ _ _ _ hvault | reveal _ _ _ _ _ _ _ _ _ _ hvault
  | stage _ _ _ _ _ _ _ _ _ hvault =>
      exact .kept (by rw [hvault] <;> rfl) (by rw [hvault] <;> rfl)
  | reclaim other admin expiry updatedAt _ hadmin hsigner hexpiry hdate hexpired hvault =>
      by_cases huser : user = other
      · subst huser
        refine .reclaimed admin expiry updatedAt rfl hadmin hsigner hexpiry hdate hexpired ?_ ?_
        · rw [hvault]
          simp [Vault.pendingOf, Vault.deposit, Vault.clearPending, Store.getD_remove]
        · rw [hvault, balanceOf_deposit, if_pos rfl]
          rfl
      · refine .kept ?_ ?_ <;> rw [hvault]
        · exact Store.get_remove_of_ne _ huser
        · exact Store.get_remove_of_ne _ huser
  | claim _ users _ hcall hsigners hvault =>
      by_cases hkept : user ∉ users ∨ s.vault.pendingOf user = 0
      · have h := claimAll_kept s.vault hkept
        exact .kept (by rw [hvault, h.1]) (by rw [hvault, h.2])
      · rw [not_or, not_not] at hkept
        have hcleared := claimAll_cleared s.vault hkept.1
        have hsum := @claimAll_sum _ user _ s.vault users
        rw [← hvault] at hcleared hsum
        refine .claimed ?_ (hsigners user hkept.1) hcleared (by omega)
        rcases hcall with ⟨other, rfl, rfl⟩ | rfl
        · left
          rw [List.mem_singleton.mp hkept.1]
        · exact .inr ⟨users, rfl, hkept.1⟩
  | cashOut round other position penaltyBps _ hround hmode _ hposition hpenalty hstake hvault =>
      have hcredits : ∀ credit ∈ [(other, position.amount -
          forfeitOf position.amount penaltyBps)].filter fun credit => 0 < credit.2,
          0 ≤ credit.2 := fun credit hmem => (of_decide_eq_true (List.mem_filter.mp hmem).2).le
      rcases @creditAll_pendingStep _ _ env user s.vault _ hcredits with
        ⟨hentry, hdate⟩ | ⟨hraised, hdate⟩
      · refine .kept ?_ ?_ <;> rw [hvault]
        · rw [Vault.collectFee_pendingWinnings, hentry]
        · rw [Vault.collectFee_updatedAt, hdate]
      · refine .credited ?_ ?_
        · unfold Vault.pendingOf at hraised ⊢
          rw [hvault, Vault.collectFee_pendingWinnings]
          exact hraised
        · rw [hvault, Vault.collectFee_updatedAt, hdate]
  | ending _ ending _ hending hends =>
      have hlive := (Call.endsBy hending).live hordered
      have hbook := (hordered.live _ _ hlive).2
      have hsound := @Ending.plan_sound _ _ _ s.control.settings.terms _ hbook hcap
      have hraised := hends.pendingOf_le hbook hcap user
      have hcoverage := @creditAll_pendingStep _ _ env user
        (((s.vault.collectFee s.control.settings.insuranceSplitBps
          (ending.plan s.control.settings.terms s.rounds).fee).creditAll env.ledger.sequence
          (creditsOf (ending.plan s.control.settings.terms s.rounds).records)).payFromFund
          (s.coveragePaid ending)) (s.coverageCredits ending)
        fun credit hmem => (coverageCredits_pos credit hmem).le
      have hplan := @creditAll_pendingStep _ _ env user
        (s.vault.collectFee s.control.settings.insuranceSplitBps
          (ending.plan s.control.settings.terms s.rounds).fee)
        (creditsOf (ending.plan s.control.settings.terms s.rounds).records)
        (creditsOf_nonneg hsound)
      rw [← hends.vault, Vault.payFromFund_pendingWinnings, Vault.payFromFund_updatedAt] at hcoverage
      rw [Vault.collectFee_pendingWinnings, Vault.collectFee_updatedAt] at hplan
      rcases hcoverage with ⟨hentry, hdate⟩ | ⟨-, hdate⟩
      · rcases hplan with ⟨hentry', hdate'⟩ | ⟨-, hdate'⟩
        · exact .kept (hentry.trans hentry') (hdate.trans hdate')
        · exact .credited hraised (hdate.trans hdate')
      · exact .credited hraised hdate

/-! ## Over whole histories -/

variable {host : Host A} {chain chain' : Chain A}

/-- A transition raises the pending winnings of a user. -/
def RaisesPending (transition : Transition (Chain A) (Action A)) (user : A) : Prop :=
  transition.before.storage.vault.pendingOf user < transition.after.storage.vault.pendingOf user

/-- A transition lowers the pending winnings of a user. -/
def LowersPending (transition : Transition (Chain A) (Action A)) (user : A) : Prop :=
  transition.after.storage.vault.pendingOf user < transition.before.storage.vault.pendingOf user

/-- A user's pending winnings hold a credit of a ledger, and the date of the last credit is no
earlier. -/
structure HoldsCredit (ledger : ℕ) (user : A) (chain : Chain A) : Prop where
  pending : 0 < chain.storage.vault.pendingOf user
  date : ∃ date, chain.storage.vault.pendingWinningsUpdatedAt.get user = some date ∧ ledger ≤ date
  past : ledger ≤ chain.ledger.sequence

theorem Reachable.pendingStep {signers : List A} (hreachable : Reachable host chain)
    (hstep : Step host chain (.invoke signers call) chain') (user : A) :
    PendingStep ⟨host, chain.ledger, signers⟩ chain.storage call chain'.storage user :=
  (hreachable.effect hstep).pendingStep hreachable.healthy.ordered hreachable.healthy.fee_capped
    user

/-- A step that does not lower the pending winnings keeps the credits in them dated. -/
theorem HoldsCredit.step {ledger : ℕ} {action : Action A} (hholds : HoldsCredit ledger user chain)
    (hreachable : Reachable host chain) (hstep : Step host chain action chain')
    (hkept : ¬ LowersPending ⟨chain, action, chain'⟩ user) : HoldsCredit ledger user chain' := by
  have hinvoke : ∀ signers call, action = .invoke signers call →
      chain'.ledger = chain.ledger → HoldsCredit ledger user chain' := by
    rintro signers call rfl hledger
    have hpending := hholds.pending
    have hpast := hholds.past
    rw [← hledger] at hpast
    cases hreachable.pendingStep hstep user with
    | kept hentry hdate =>
        refine ⟨?_, hdate ▸ hholds.date, hpast⟩
        unfold Vault.pendingOf Store.getD at hpending ⊢
        rwa [hentry]
    | credited hraised hdate =>
        exact ⟨lt_of_lt_of_le hpending hraised, ⟨_, hdate, hholds.past⟩, hpast⟩
    | claimed _ _ hcleared | reclaimed _ _ _ _ _ _ _ _ _ hcleared =>
        exact absurd (lt_of_eq_of_lt hcleared hpending) hkept
  cases hstep with
  | closeLedger later hsequence =>
      exact ⟨hholds.pending, hholds.date, hholds.past.trans hsequence⟩
  | expire key => exact ⟨hholds.pending, hholds.date, hholds.past⟩
  | invoke signers call storage => exact hinvoke signers call rfl rfl

/-- A raise dates the pending winnings at its ledger. -/
theorem holdsCredit_of_raises {action : Action A} (hreachable : Reachable host chain)
    (hstep : Step host chain action chain') (hraises : RaisesPending ⟨chain, action, chain'⟩ user) :
    HoldsCredit chain.ledger.sequence user chain' := by
  have hnonneg := hreachable.healthy.solvent.pendingOf_nonneg user
  have hraised : chain.storage.vault.pendingOf user < chain'.storage.vault.pendingOf user := hraises
  have hsame : chain'.storage.vault = chain.storage.vault →
      HoldsCredit chain.ledger.sequence user chain' := by
    intro hvault
    rw [hvault] at hraised
    exact absurd hraised (lt_irrefl _)
  have hinvoke : ∀ signers call, action = .invoke signers call →
      chain'.ledger = chain.ledger → HoldsCredit chain.ledger.sequence user chain' := by
    rintro signers call rfl hledger
    cases hreachable.pendingStep hstep user with
    | kept hentry hdate =>
        unfold Vault.pendingOf Store.getD at hraised
        rw [hentry] at hraised
        exact absurd hraised (lt_irrefl _)
    | credited _ hdate => exact ⟨by omega, ⟨_, hdate, le_rfl⟩, by rw [hledger]⟩
    | claimed _ _ hcleared | reclaimed _ _ _ _ _ _ _ _ _ hcleared => omega
  cases hstep with
  | closeLedger | expire => exact hsame rfl
  | invoke signers call storage => exact hinvoke signers call rfl rfl

/-- A credit stays dated along a run that never lowers the pending winnings. -/
theorem HoldsCredit.run {ledger : ℕ} {trace : List (Transition (Chain A) (Action A))}
    (hholds : HoldsCredit ledger user chain) (hreachable : Reachable host chain)
    (hrun : Run (Step host) chain trace chain')
    (hkept : ∀ transition ∈ trace, ¬ LowersPending transition user) :
    HoldsCredit ledger user chain' := by
  refine (hrun.invariant (fun chain => Reachable host chain ∧ HoldsCredit ledger user chain)
    ⟨hreachable, hholds⟩ ?_).2
  rintro transition hmem hstep ⟨hbefore, hstill⟩
  exact ⟨hbefore.step hstep, hstill.step hbefore hstep (hkept transition hmem)⟩

/-- What lowers the pending winnings of a user, after the earlier transitions of a history. -/
inductive PendingLowered (earlier : List (Transition (Chain A) (Action A))) (env : Env A)
    (s : Storage A) (call : Call A) (s' : Storage A) (user : A) : Prop where
  | claimed (hcall : call = .claimWinnings user ∨ ∃ users, call = .claimMany users ∧ user ∈ users)
      (hsigner : user ∈ env.signers) (hcleared : s'.vault.pendingOf user = 0)
      (hbalance : s'.vault.balanceOf user = s.vault.balanceOf user + s.vault.pendingOf user)
  | reclaimed (admin : A) (expiry : ℕ) (hcall : call = .reclaimExpiredPendingWinnings user)
      (hadmin : s.control.governance.admin = some admin) (hsigner : admin ∈ env.signers)
      (hexpiry : s.control.settings.pendingWinningsExpiry = some expiry ∧ expiry ≠ 0)
      (hexpired : ∀ first credit rest, earlier = first ++ credit :: rest →
        RaisesPending credit user → (∀ transition ∈ rest, ¬ LowersPending transition user) →
        credit.before.ledger.sequence + expiry ≤ env.ledger.sequence)
      (hcleared : s'.vault.pendingOf user = 0)
      (hbalance : s'.vault.balanceOf admin = s.vault.balanceOf admin + s.vault.pendingOf user)

/-- In every history a balance is lowered by its owner's stake or by the admin's top-up only, and
pending winnings are lowered only to nothing, by the owner's claim or by the admin once every
credit in them has expired. -/
theorem custody {trace : List (Transition (Chain A) (Action A))}
    (hhistory : History host trace chain) :
    ∀ earlier later transition signers call user, trace = earlier ++ transition :: later →
      transition.label = .invoke signers call →
      (transition.after.storage.vault.balanceOf user <
          transition.before.storage.vault.balanceOf user →
        BalanceLowered ⟨host, transition.before.ledger, signers⟩ transition.before.storage call
          transition.after.storage user) ∧
      (LowersPending transition user →
        PendingLowered earlier ⟨host, transition.before.ledger, signers⟩
          transition.before.storage call transition.after.storage user) := by
  intro earlier later transition signers call user htrace hlabel
  subst htrace
  obtain ⟨⟨ledger, hearlier⟩, hstep, -⟩ := hhistory.cut
  rw [hlabel] at hstep
  have hreachable : Reachable host transition.before := ⟨earlier, ledger, hearlier⟩
  have hhealthy : transition.before.storage.Healthy transition.before.ledger.sequence :=
    hreachable.healthy
  refine ⟨(hreachable.effect hstep).balanceLowered hhealthy.ordered hhealthy.solvent,
    fun hlowers => ?_⟩
  have hlowered : transition.after.storage.vault.pendingOf user <
    transition.before.storage.vault.pendingOf user := hlowers
  cases hreachable.pendingStep hstep user with
  | kept hentry =>
      unfold Vault.pendingOf Store.getD at hlowered
      rw [hentry] at hlowered
      exact absurd hlowered (lt_irrefl _)
  | credited hraised => omega
  | claimed hcall hsigner hcleared hbalance => exact .claimed hcall hsigner hcleared hbalance
  | reclaimed admin expiry updatedAt hcall hadmin hsigner hexpiry hdate hexpired hcleared
      hbalance =>
      refine .reclaimed admin expiry hcall hadmin hsigner hexpiry ?_ hcleared hbalance
      rintro first credit rest rfl hraises hkept
      -- the credit is still in the pending winnings, so their date is no earlier
      obtain ⟨hfirst, hcredit, hafter⟩ := hearlier.cut
      have hmade : Reachable host credit.before := ⟨first, ledger, hfirst⟩
      obtain ⟨date, hget, hle⟩ := ((holdsCredit_of_raises hmade hcredit hraises).run
        (hmade.step hcredit) hafter hkept).date
      obtain rfl := Option.some.inj (hget.symm.trans hdate)
      exact (Nat.add_le_add_right hle expiry).trans hexpired

/-- After the void of round 1 in the trial run user 3 claims the refund. -/
theorem custody_of_claim : ∃ trace, ∃ chain chain' : Chain ℕ,
    History trialHost (trace ++ [⟨chain, .invoke [3] (.claimWinnings 3), chain'⟩]) chain' ∧
      PendingLowered trace ⟨trialHost, chain.ledger, [3]⟩ chain.storage (.claimWinnings 3)
        chain'.storage 3 := by
  obtain ⟨trace, chain, chain', hhistory, hfits⟩ := exists_trial
    (overlappingRounds ++ [.invoke [9] (.voidRound 1)]) (.invoke [3] (.claimWinnings 3))
    (fun chain chain' => decide
      (chain'.storage.vault.pendingOf 3 < chain.storage.vault.pendingOf 3)) (by decide +kernel)
  have hlowers : chain'.storage.vault.pendingOf 3 < chain.storage.vault.pendingOf 3 :=
    of_decide_eq_true hfits
  exact ⟨trace, chain, chain', hhistory, (custody hhistory trace [] _ _ _ 3 rfl rfl).2 hlowers⟩

end XelmaMarket
