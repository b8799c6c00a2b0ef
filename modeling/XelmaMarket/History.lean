import XelmaMarket.Wealth

/-!
# Histories

Every storage a history leads to is healthy: the rounds are in order, the recorded outcomes are in
step with them, no account is negative, the fee rate is capped and the stakes stay in range. So
every successful invocation of a history has its effect.
-/

namespace XelmaMarket

variable {A : Type} [LinearOrder A]

/-- What holds of the storage throughout every history. -/
structure Storage.Healthy (ledger : ℕ) (s : Storage A) : Prop where
  ordered : s.rounds.Ordered
  recorded : Recorded ledger s
  paced : Paced ledger s.rounds
  solvent : s.vault.Solvent
  fee_capped : FeeCapped s.control.settings.protocolFeeBps
  numbered : Numbered s.control.governance.govProposal s.control.governance.nextGovProposalId
  bounded : s.Bounded ledger

section Healthy

variable {env : Env A} {s s' : Storage A} {call : Call A} {ending : Ending}

omit [LinearOrder A] in
/-- The rounds of a new contract are in order. -/
theorem ordered_empty : (Storage.empty (A := A)).rounds.Ordered where
  represented roundId := ⟨⟨roundId, 0, 0, 0, 0, 0, 0, 0, .upDown⟩, rfl,
    NoBook.represents ⟨rfl, fun _ => rfl, fun _ => rfl, fun _ => rfl⟩ ⟨rfl, rfl⟩⟩
  live _ _ hlive := by
    rcases hlive with ⟨hactive, -⟩ | ⟨_, hpending, -⟩
    · cases hactive
    · cases hpending
  active_last _ hactive := by cases hactive
  active_not_staged _ hactive := by cases hactive
  staged_known _ _ hpending := by cases hpending
  listed_known _ hlisted := absurd rfl hlisted
  room _ := Nat.zero_le _

omit [LinearOrder A] in
/-- A new contract is healthy. -/
theorem healthy_empty (ledger : ℕ) : (Storage.empty (A := A)).Healthy ledger where
  ordered := ordered_empty
  recorded := by
    refine ⟨fun _ _ hget => (nomatch hget), fun _ _ _ _ hmem => (nomatch hmem),
      fun _ hactive => (nomatch hactive)⟩
  paced := ⟨Nat.zero_le _, fun _ => Nat.zero_le _⟩
  solvent := ⟨fun _ _ hget => (nomatch hget), fun _ _ hget => (nomatch hget), le_rfl, le_rfl⟩
  fee_capped _ hrate := by cases hrate
  numbered := ⟨fun _ _ hget => (nomatch hget), show 1 < 2 ^ 64 by decide⟩
  bounded members _ := by
    have hwealth : ∀ user, (Storage.empty (A := A)).vault.wealth user = initialAmount :=
      fun _ => rfl
    have hworth : (Storage.empty (A := A)).vault.worth = 0 := by
      simp [Vault.worth, Vault.pendingTotal, Storage.empty, Vault.treasury, Vault.insuranceFund]
    have hescrow : (Storage.empty (A := A)).rounds.escrow = 0 := by
      simp [Rounds.escrow, Storage.empty]
    have hplaces : (Storage.empty (A := A)).rounds.places ledger = 0 := rfl
    have hbalance : ((Storage.empty (A := A)).vault.balance.total fun _ amount => amount) = 0 :=
      Store.total_empty _
    unfold Storage.hold Vault.excess Storage.value
    rw [hworth, hescrow, hplaces, hbalance, Finset.sum_congr rfl fun user _ => hwealth user,
      Finset.sum_const, nsmul_eq_mul, mul_comm]
    have := Int.natCast_nonneg
      (executedIds (Storage.empty (A := A)).control.governance.govProposal).card
    have hcount : (members.card : ℤ) ≤ members.card + 0 +
        (executedIds (Storage.empty (A := A)).control.governance.govProposal).card := by omega
    have := mul_le_mul_of_nonneg_left hcount (by decide : 0 ≤ initialAmount)
    omega

omit [LinearOrder A] in
/-- The storage stays healthy as ledgers go by. -/
theorem Storage.Healthy.later {ledger ledger' : ℕ} (hhealthy : s.Healthy ledger)
    (hledger : ledger ≤ ledger') : s.Healthy ledger' where
  ordered := hhealthy.ordered
  recorded := ⟨hhealthy.recorded.known, hhealthy.recorded.unrecorded,
    fun round hactive user record hget =>
      (hhealthy.recorded.closed round hactive user record hget).trans hledger⟩
  paced := hhealthy.paced.later hledger
  solvent := hhealthy.solvent
  fee_capped := hhealthy.fee_capped
  numbered := hhealthy.numbered
  bounded := hhealthy.bounded.later hledger

omit [LinearOrder A] in
/-- A healthy storage is what the entrypoints rely on. -/
theorem Storage.Healthy.inOrder {ledger : ℕ} (hhealthy : s.Healthy ledger)
    (hledger : ledger < 2 ^ 32) : InOrder s where
  represents roundId round hlive := (hhealthy.ordered.live roundId round hlive).2
  pending_id _ _ hpending := (hhealthy.ordered.staged_represented hpending).1
  fee_capped := hhealthy.fee_capped
  stakes_fit _ hactive := hhealthy.bounded.totalStake_le hhealthy.ordered hhealthy.solvent
    hhealthy.paced hledger (hhealthy.ordered.active_represented hactive)

/-- A successful call on a healthy storage has its effect. -/
theorem Storage.Healthy.effect (hhealthy : s.Healthy env.ledger.sequence)
    (hrun : call.exec env s = .ok (⟨⟩, s')) : Effect env s call s' :=
  Call.effect (hhealthy.inOrder env.ledger.sequence_lt) hrun

/-- Every successful call keeps the storage healthy. -/
theorem Storage.Healthy.exec (hhealthy : s.Healthy env.ledger.sequence)
    (hrun : call.exec env s = .ok (⟨⟩, s')) : s'.Healthy env.ledger.sequence := by
  have heffect := hhealthy.effect hrun
  have hsteered := call.steered.elim hrun
  exact {
    ordered := heffect.ordered hhealthy.ordered
    recorded := heffect.recorded hhealthy.ordered hhealthy.recorded
    paced := heffect.paced hhealthy.ordered hhealthy.paced
    solvent := heffect.solvent hhealthy.ordered hhealthy.fee_capped hhealthy.solvent
    fee_capped := hsteered.fee hhealthy.fee_capped
    numbered := hsteered.numbered hhealthy.numbered
    bounded := heffect.bounded hhealthy.ordered hhealthy.fee_capped hhealthy.solvent hsteered
      hhealthy.numbered hhealthy.bounded }

/-- A successful call that ends no round leaves the statistics alone, unless it resets the season. -/
theorem Effect.stats (heffect : Effect env s call s') (hending : call.ending s = none)
    (hplain : call ≠ .resetLeaderboardSeason) : s'.stats = s.stats := by
  cases heffect with
  | quiet _ _ _ _ _ _ hstats => exact hstats hplain
  | mint _ _ _ _ _ hsame | treasuryAddress _ _ _ _ _ _ _ _ hsame | payFee _ _ _ _ _ _ _ hsame
  | payFund _ _ _ _ _ _ _ hsame | topUp _ _ _ _ _ _ _ hsame
  | reclaim _ _ _ _ _ _ _ _ _ _ _ hsame | claim _ _ _ _ _ _ hsame => exact hsame.stats
  | openRound _ _ _ _ _ _ _ _ _ _ _ _ hstats | stake _ _ _ _ _ _ _ _ _ _ _ _ _ _ hstats
  | reveal _ _ _ _ _ _ _ _ _ _ _ _ _ _ hstats | cashOut _ _ _ _ _ _ _ _ _ _ _ _ _ _ _ hstats
  | stage _ _ _ _ _ _ _ _ _ _ _ _ _ hstats => exact hstats
  | ending _ _ _ hsome =>
      rw [hending] at hsome
      cases hsome

/-- A successful call that ends a round does what the ending says, at a price only past the end
ledger. -/
theorem Effect.ends_timely (heffect : Effect env s call s')
    (hending : call.ending s = some ending) : Ends env.ledger.sequence ending s s' ∧
      (call.price ≠ none → ending.round.endLedger ≤ env.ledger.sequence) := by
  cases heffect with
  | ending _ _ _ hsame hends hended =>
      obtain rfl := Option.some.inj (hsame.symm.trans hending)
      exact ⟨hends, hended⟩
  | quiet _ _ _ _ hnone | stage _ _ _ _ _ _ _ _ hnone =>
      rw [hnone] at hending
      cases hending
  | mint | treasuryAddress | topUp | reclaim | reveal | cashOut => cases hending
  | payFee _ _ _ _ hcall | payFund _ _ _ _ hcall =>
      rcases hcall with rfl | ⟨_, _, rfl⟩ <;> cases hending
  | claim _ _ _ hcall => rcases hcall with ⟨_, rfl, -⟩ | rfl <;> cases hending
  | openRound _ _ _ hcall => rcases hcall with ⟨_, _, rfl⟩ | rfl <;> cases hending
  | stake _ _ _ _ _ _ _ _ _ _ hplaced =>
      rw [hplaced.quiet.2] at hending
      cases hending

/-- A successful call that ends a round does what the ending says. -/
theorem Effect.ends (heffect : Effect env s call s') (hending : call.ending s = some ending) :
    Ends env.ledger.sequence ending s s' :=
  (heffect.ends_timely hending).1

/-- A call that settles a round at a price computes its payouts in range. -/
theorem Call.ensures_computes (hinorder : InOrder s) {finalPrice : ℕ}
    (hending : call.ending s = some ending)
    (hprice : ending.kind.price = some finalPrice) :
    Transaction.Ensures call.exec env s fun _ _ =>
      Computes s.control.settings.terms s.rounds ending.round finalPrice := by
  have hresolution : ∀ startLedger price, call.boundTo = some startLedger →
      call.price = some price → s.resolution price = some ending →
      Transaction.Ensures call.exec env s fun _ _ =>
        Computes s.control.settings.terms s.rounds ending.round finalPrice := by
    intro startLedger price hbound hcall hresolved
    refine (Call.ensures_settled hinorder hbound).mono ?_
    rintro _ s' ⟨round, price', -, -, hcall', hsettled⟩
    obtain rfl := Option.some.inj (hcall.symm.trans hcall')
    have hcomputes := hsettled.computes
    simp only [Storage.resolution, hsettled.active] at hresolved hcomputes
    by_cases hcount : s.control.settings.belowMinimum
        (s.rounds.participants round.roundId).length = true
    · rw [if_pos hcount] at hresolved
      cases hresolved
      cases hprice
    · by_cases hwindow : s.control.settings.getDisputeLedgers > 0
      · rw [if_neg hcount, if_pos hwindow] at hresolved
        cases hresolved
      · rw [if_neg hcount, if_neg hwindow] at hresolved hcomputes
        cases hresolved
        cases hprice
        exact hcomputes rfl
  cases call with
  | resolveRound payload => exact hresolution _ _ rfl rfl hending
  | resolveRoundMulti payload =>
      obtain ⟨median, hmedian, hresolved⟩ := Option.bind_eq_some_iff.mp hending
      exact hresolution _ median rfl hmedian hresolved
  | finalizeRound roundId =>
      obtain ⟨pending, hpending, rfl⟩ := Option.map_eq_some_iff.mp hending
      cases hprice
      refine (finalizeRound_spec hpending (hinorder.pending_id roundId pending hpending)
        (hinorder.represents roundId pending.round (.inr ⟨pending, hpending, rfl⟩))
        hinorder.fee_capped).mono ?_
      intro _ s' hends
      exact hends.2.1
  | cancelRound reason =>
      obtain ⟨round, -, rfl⟩ := Option.map_eq_some_iff.mp hending
      cases hprice
  | voidRound roundId =>
      obtain ⟨pending, -, rfl⟩ := Option.map_eq_some_iff.mp hending
      cases hprice
  | _ => cases hending

end Healthy

/-! ## The chain -/

variable {host : Host A} {chain chain' : Chain A} {action : Action A}

/-- The storage of a chain is healthy at its ledger. -/
def Chain.Healthy (chain : Chain A) : Prop :=
  chain.storage.Healthy chain.ledger.sequence

/-- Every step keeps the storage healthy. -/
theorem Step.healthy (hstep : Step host chain action chain') (hhealthy : chain.Healthy) :
    chain'.Healthy := by
  cases hstep with
  | closeLedger ledger hsequence _ => exact Storage.Healthy.later hhealthy hsequence
  | expire key =>
      have h : chain.storage.Healthy chain.ledger.sequence := hhealthy
      exact ⟨h.ordered, ⟨h.recorded.known, h.recorded.unrecorded, h.recorded.closed⟩, h.paced,
        h.solvent, h.fee_capped, h.numbered, h.bounded⟩
  | invoke signers call storage hrun =>
      exact @Storage.Healthy.exec _ _ ⟨host, chain.ledger, signers⟩ _ _ _ hhealthy hrun

/-- A run from a healthy chain stays healthy. -/
theorem healthy_of_run {trace : List (Transition (Chain A) (Action A))}
    (hrun : Run (Step host) chain trace chain') (hhealthy : chain.Healthy) : chain'.Healthy :=
  hrun.invariant Chain.Healthy hhealthy fun _ _ hstep hbefore => hstep.healthy hbefore

/-- Every chain a history leads to is healthy. -/
theorem History.healthy {trace : List (Transition (Chain A) (Action A))}
    (hhistory : History host trace chain) : chain.Healthy := by
  obtain ⟨ledger, hrun⟩ := hhistory
  exact healthy_of_run hrun (healthy_empty ledger.sequence)

theorem Reachable.healthy (hreachable : Reachable host chain) : chain.Healthy := by
  obtain ⟨trace, hhistory⟩ := hreachable
  exact hhistory.healthy

/-- Every transition of a history is a step from a reachable chain. -/
theorem History.of_mem {trace : List (Transition (Chain A) (Action A))}
    (hhistory : History host trace chain) {transition : Transition (Chain A) (Action A)}
    (hmem : transition ∈ trace) :
    Reachable host transition.before ∧
      Step host transition.before transition.label transition.after := by
  obtain ⟨ledger, hrun⟩ := hhistory
  obtain ⟨earlier, later, rfl, hearlier, hstep, -⟩ := hrun.around hmem
  exact ⟨⟨earlier, ledger, hearlier⟩, hstep⟩

/-- A history is cut around a transition of its trace. -/
theorem History.cut {earlier later : List (Transition (Chain A) (Action A))}
    {transition : Transition (Chain A) (Action A)}
    (hhistory : History host (earlier ++ transition :: later) chain) :
    History host earlier transition.before ∧
      Step host transition.before transition.label transition.after ∧
      Run (Step host) transition.after later chain := by
  obtain ⟨ledger, hrun⟩ := hhistory
  obtain ⟨hearlier, hstep, hlater⟩ := hrun.cut
  exact ⟨⟨ledger, hearlier⟩, hstep, hlater⟩

/-- A run continues a history. -/
theorem History.append {earlier later : List (Transition (Chain A) (Action A))}
    (hhistory : History host earlier chain) (hrun : Run (Step host) chain later chain') :
    History host (earlier ++ later) chain' := by
  obtain ⟨ledger, hearlier⟩ := hhistory
  exact ⟨ledger, hearlier.append hrun⟩

/-- What a run leads to from a reachable chain is reachable. -/
theorem reachable_of_run {trace : List (Transition (Chain A) (Action A))}
    (hreachable : Reachable host chain) (hrun : Run (Step host) chain trace chain') :
    Reachable host chain' := by
  obtain ⟨earlier, hhistory⟩ := hreachable
  exact ⟨_, hhistory.append hrun⟩

theorem History.last {trace : List (Transition (Chain A) (Action A))}
    {transition : Transition (Chain A) (Action A)}
    (hhistory : History host (trace ++ [transition]) chain) :
    Reachable host transition.before ∧
      Step host transition.before transition.label transition.after :=
  hhistory.of_mem (by simp)

/-- What a history does next is reachable too. -/
theorem Reachable.step (hreachable : Reachable host chain) (hstep : Step host chain action chain') :
    Reachable host chain' := by
  obtain ⟨trace, ledger, hrun⟩ := hreachable
  exact ⟨_, ledger, .snoc hrun hstep⟩

/-- A successful invocation on a healthy chain has its effect. -/
theorem Chain.Healthy.effect {signers : List A} {call : Call A} (hhealthy : chain.Healthy)
    (hstep : Step host chain (.invoke signers call) chain') :
    Effect ⟨host, chain.ledger, signers⟩ chain.storage call chain'.storage := by
  cases hstep with
  | invoke _ _ storage hrun => exact Storage.Healthy.effect hhealthy hrun

theorem Reachable.effect {signers : List A} {call : Call A} (hreachable : Reachable host chain)
    (hstep : Step host chain (.invoke signers call) chain') :
    Effect ⟨host, chain.ledger, signers⟩ chain.storage call chain'.storage :=
  Chain.Healthy.effect hreachable.healthy hstep

/-- What is not an invocation leaves everything but the mint counters alone. -/
theorem Step.idle (hstep : Step host chain action chain')
    (hidle : ∀ signers call, action ≠ .invoke signers call) :
    ∃ meter, chain'.storage = { chain.storage with meter := meter } := by
  cases hstep with
  | closeLedger => exact ⟨_, rfl⟩
  | expire => exact ⟨_, rfl⟩
  | invoke signers call => exact absurd rfl (hidle signers call)

/-- A step is an invocation, or it leaves everything but the mint counters alone. -/
theorem Step.invokes_or_idles (hstep : Step host chain action chain') :
    (∃ signers call, action = .invoke signers call) ∨
      (∀ signers call, action ≠ .invoke signers call) ∧
        ∃ meter, chain'.storage = { chain.storage with meter := meter } := by
  cases action with
  | invoke signers call => exact .inl ⟨signers, call, rfl⟩
  | closeLedger | expire => exact .inr ⟨nofun, hstep.idle nofun⟩

/-- Ledgers only go forward. -/
theorem Step.ledger_le (hstep : Step host chain action chain') :
    chain.ledger.sequence ≤ chain'.ledger.sequence := by
  cases hstep with
  | closeLedger _ hsequence => exact hsequence
  | expire | invoke => exact le_rfl

theorem Step.ledger_eq {signers : List A} {call : Call A}
    (hstep : Step host chain (.invoke signers call) chain') : chain'.ledger = chain.ledger := by
  cases hstep with
  | invoke => rfl

/-- A successful invocation satisfies what its call ensures. -/
theorem Step.ensured {signers : List A} {call : Call A} {post : PUnit → Storage A → Prop}
    (hstep : Step host chain (.invoke signers call) chain')
    (hensures : Transaction.Ensures call.exec ⟨host, chain.ledger, signers⟩ chain.storage post) :
    post ⟨⟩ chain'.storage := by
  cases hstep with
  | invoke _ _ storage hrun => exact hensures.elim hrun

/-- A successful invocation changes the administration in one of the known ways. -/
theorem Step.controlChange {signers : List A} {call : Call A}
    (hstep : Step host chain (.invoke signers call) chain') :
    ControlChange ⟨host, chain.ledger, signers⟩ chain.storage call chain'.storage :=
  hstep.ensured call.ensures_controlChange

/-- A step is an invocation that changes the administration in one of the known ways, or it leaves
the administration alone. -/
theorem Step.administration (hstep : Step host chain action chain') :
    (∃ signers call, action = .invoke signers call ∧
      ControlChange ⟨host, chain.ledger, signers⟩ chain.storage call chain'.storage) ∨
    (∀ signers call, action ≠ .invoke signers call) ∧
      chain'.storage.control = chain.storage.control := by
  obtain ⟨signers, call, rfl⟩ | ⟨hidle, meter, hsame⟩ := hstep.invokes_or_idles
  · exact .inl ⟨signers, call, rfl, hstep.controlChange⟩
  · exact .inr ⟨hidle, by rw [hsame]⟩

/-- A successful invocation that ends a round on a healthy chain does what the ending says. -/
theorem Chain.Healthy.ends {signers : List A} {call : Call A} {ending : Ending}
    (hhealthy : chain.Healthy) (hstep : Step host chain (.invoke signers call) chain')
    (hending : call.ending chain.storage = some ending) :
    Ends chain.ledger.sequence ending chain.storage chain'.storage :=
  Effect.ends (Chain.Healthy.effect hhealthy hstep) hending

/-- A successful submission settles the active round at the submitted price. -/
theorem Chain.Healthy.settled {signers : List A} {call : Call A} {finalPrice : ℕ}
    (hhealthy : chain.Healthy) (hstep : Step host chain (.invoke signers call) chain')
    (hprice : call.price = some finalPrice) :
    ∃ round, round.endLedger ≤ chain.ledger.sequence ∧
      Settled ⟨host, chain.ledger, signers⟩ chain.storage round finalPrice chain'.storage := by
  have hinorder : InOrder chain.storage :=
    Storage.Healthy.inOrder hhealthy chain.ledger.sequence_lt
  have hbound : ∃ startLedger, call.boundTo = some startLedger := by
    cases call with
    | resolveRound | resolveRoundMulti => exact ⟨_, rfl⟩
    | _ => cases hprice
  obtain ⟨startLedger, hbound⟩ := hbound
  obtain ⟨round, price, -, hended, hsame, hsettled⟩ :=
    hstep.ensured (Call.ensures_settled hinorder hbound)
  obtain rfl := Option.some.inj (hprice.symm.trans hsame)
  exact ⟨round, hended, hsettled⟩

/-- A successful finalization settles a staged round from its deadline on. -/
theorem Chain.Healthy.finalized {signers : List A} {roundId : ℕ} (hhealthy : chain.Healthy)
    (hstep : Step host chain (.invoke signers (.finalizeRound roundId)) chain') :
    ∃ pending, chain.storage.rounds.pendingDisputes.get roundId = some pending ∧
      pending.deadlineLedger ≤ chain.ledger.sequence ∧
      Ends chain.ledger.sequence ⟨pending.round, .finalized pending.finalPrice⟩ chain.storage
        chain'.storage := by
  cases hpending : chain.storage.rounds.pendingDisputes.get roundId with
  | none =>
      have hnever : Transaction.Ensures (Call.finalizeRound roundId).exec
          ⟨host, chain.ledger, signers⟩ chain.storage fun _ _ => False := by
        simp [Call.exec, XelmaMarket.finalizeRound, readPendingDispute, hpending, ensureNotPaused]
      exact (hstep.ensured hnever).elim
  | some pending =>
      obtain ⟨hid, hbook⟩ := hhealthy.ordered.staged_represented hpending
      obtain ⟨hdeadline, -, hends⟩ := hstep.ensured
        (finalizeRound_spec hpending hid hbook hhealthy.fee_capped)
      exact ⟨pending, rfl, hdeadline, hends⟩

/-- A successful void refunds a staged round before its deadline. -/
theorem Chain.Healthy.voided {signers : List A} {roundId : ℕ} (hhealthy : chain.Healthy)
    (hstep : Step host chain (.invoke signers (.voidRound roundId)) chain') :
    ∃ pending, chain.storage.rounds.pendingDisputes.get roundId = some pending ∧
      chain.ledger.sequence < pending.deadlineLedger ∧
      Ends chain.ledger.sequence ⟨pending.round, .voided⟩ chain.storage chain'.storage := by
  cases hpending : chain.storage.rounds.pendingDisputes.get roundId with
  | none =>
      have hnever : Transaction.Ensures (Call.voidRound roundId).exec
          ⟨host, chain.ledger, signers⟩ chain.storage fun _ _ => False := by
        simp [Call.exec, XelmaMarket.voidRound, readPendingDispute, hpending, ensureNotPaused]
      exact (hstep.ensured hnever).elim
  | some pending =>
      obtain ⟨hid, hbook⟩ := hhealthy.ordered.staged_represented hpending
      obtain ⟨hdeadline, hends⟩ := hstep.ensured (voidRound_spec hpending hid hbook)
      exact ⟨pending, rfl, hdeadline, hends⟩

/-- A successful invocation that settles a round at a price computed its payouts in range. -/
theorem Chain.Healthy.computes {signers : List A} {call : Call A} {ending : Ending}
    {finalPrice : ℕ} (hhealthy : chain.Healthy)
    (hstep : Step host chain (.invoke signers call) chain')
    (hending : call.ending chain.storage = some ending)
    (hprice : ending.kind.price = some finalPrice) :
    Computes chain.storage.control.settings.terms chain.storage.rounds ending.round finalPrice :=
  hstep.ensured (Call.ensures_computes
    (Storage.Healthy.inOrder hhealthy chain.ledger.sequence_lt) hending hprice)

theorem Reachable.ends {signers : List A} {call : Call A} {ending : Ending}
    (hreachable : Reachable host chain) (hstep : Step host chain (.invoke signers call) chain')
    (hending : call.ending chain.storage = some ending) :
    Ends chain.ledger.sequence ending chain.storage chain'.storage :=
  Chain.Healthy.ends hreachable.healthy hstep hending

end XelmaMarket
