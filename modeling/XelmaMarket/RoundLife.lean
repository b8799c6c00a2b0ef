import XelmaMarket.Receipts

/-!
# The life of a round

While a round is live its book is in order. It ends at most once: the call that ends it pays every
participant once, and from then on the round is over. It is never live again, nothing of its book
remains, and no later call credits anyone for it.
-/

namespace XelmaMarket

variable {A : Type} [LinearOrder A] {env : Env A} {s s' : Storage A} {call : Call A}

/-! ## What a call leaves of a round -/

/-- The end of a round leaves the staged settlement of every other round. -/
theorem roundsAfter_staged (rounds : Rounds A) {ending : Ending} {roundId : ℕ}
    (hother : roundId ≠ ending.round.roundId) :
    (ending.roundsAfter rounds).pendingDisputes.get roundId =
      rounds.pendingDisputes.get roundId := by
  unfold Ending.roundsAfter
  cases ending.kind with
  | resolved _ | fallbackRefund | cancelled _ => rfl
  | finalized _ | voided => exact Store.get_remove_of_ne _ hother

/-- A call changes the book of the active round and of the round it ends, and no other. -/
theorem Effect.frame (hordered : s.rounds.Ordered) (heffect : Effect env s call s') {roundId : ℕ}
    (hknown : roundId ≤ s.rounds.lastRoundId.getD 0)
    (hinactive : ∀ round, s.rounds.activeRound = some round → round.roundId ≠ roundId)
    (hkept : ∀ ending, call.ending s = some ending → ending.round.roundId ≠ roundId) :
    SameBook s.rounds s'.rounds roundId ∧
      s'.rounds.pendingDisputes.get roundId = s.rounds.pendingDisputes.get roundId ∧
      ∀ round, s'.rounds.activeRound = some round → round.roundId ≠ roundId := by
  cases heffect with
  | quiet _ _ hsame =>
      rw [hsame.rounds]
      exact ⟨.refl _ _, rfl, hinactive⟩
  | mint _ _ _ _ _ hsame | treasuryAddress _ _ _ _ _ _ _ _ hsame | payFee _ _ _ _ _ _ _ hsame
  | payFund _ _ _ _ _ _ _ hsame | topUp _ _ _ _ _ _ _ hsame
  | reclaim _ _ _ _ _ _ _ _ _ _ _ hsame | claim _ _ _ _ _ _ hsame =>
      rw [hsame.rounds]
      exact ⟨.refl _ _, rfl, hinactive⟩
  | openRound _ round _ _ _ hid _ _ _ hrounds =>
      rw [hrounds]
      refine ⟨⟨rfl, fun _ => rfl, fun _ => rfl, fun _ => rfl⟩, rfl, fun active hactive => ?_⟩
      obtain rfl := Option.some.inj hactive
      omega
  | stake _ round user amount _ hround _ _ hamount _ hplaced =>
      have hjoined := hplaced.joined (hordered.active_represented hround) hround hamount.1
      obtain ⟨round', hround', hid, -⟩ := hjoined.active
      have hother := hinactive round hround
      refine ⟨hjoined.other roundId hother.symm, by rw [hjoined.staged], fun active hactive => ?_⟩
      obtain rfl := Option.some.inj (hactive.symm.trans hround')
      rwa [hid]
  | reveal round user price salt commitment _ hround _ _ _ _ hrounds =>
      rw [hrounds]
      exact ⟨reveal_sameBook (hinactive round hround).symm, rfl, hinactive⟩
  | cashOut round user position penaltyBps _ hround _ _ _ _ _ _ hrounds =>
      rw [hrounds]
      refine ⟨leave_sameBook (hinactive round hround).symm, rfl, fun active hactive => ?_⟩
      obtain rfl := Option.some.inj hactive
      rw [withPool_roundId]
      exact hinactive round hround
  | stage _ round pending _ _ hround hpending _ _ _ hrounds =>
      have hother := (hinactive round hround).symm
      rw [← hpending] at hother
      rw [hrounds]
      refine ⟨⟨rfl, fun _ => rfl, fun _ => rfl, fun _ => rfl⟩, Store.get_set_of_ne _ _ hother,
        fun active hactive => ?_⟩
      cases hactive
  | ending _ ending _ hending hends =>
      have hother := (hkept ending hending).symm
      rw [hends.rounds]
      exact ⟨roundsAfter_other ending hother, roundsAfter_staged s.rounds hother,
        fun active hactive => hinactive active (active_of_roundsAfter hactive)⟩

/-- What is staged was staged before, or it is the active round that a submission stages. -/
theorem Effect.staged_cases (heffect : Effect env s call s') {roundId : ℕ}
    {pending : PendingDisputeSettlement}
    (hafter : s'.rounds.pendingDisputes.get roundId = some pending) :
    s.rounds.pendingDisputes.get roundId = some pending ∨
      call.price = some pending.finalPrice ∧ call.ending s = none ∧
        s.rounds.activeRound = some pending.round ∧ pending.round.roundId = roundId := by
  cases heffect with
  | quiet _ _ hsame => exact .inl (hsame.rounds ▸ hafter)
  | mint _ _ _ _ _ hsame | treasuryAddress _ _ _ _ _ _ _ _ hsame | payFee _ _ _ _ _ _ _ hsame
  | payFund _ _ _ _ _ _ _ hsame | topUp _ _ _ _ _ _ _ hsame
  | reclaim _ _ _ _ _ _ _ _ _ _ _ hsame | claim _ _ _ _ _ _ hsame =>
      exact .inl (hsame.rounds ▸ hafter)
  | openRound _ _ _ _ _ _ _ _ _ hrounds | reveal _ _ _ _ _ _ _ _ _ _ _ hrounds
  | cashOut _ _ _ _ _ _ _ _ _ _ _ _ hrounds =>
      rw [hrounds] at hafter
      exact .inl hafter
  | stake _ round user amount _ _ _ _ _ _ hplaced =>
      generalize s'.rounds = rounds' at hplaced hafter
      cases hplaced with
      | bet | predict | commit => exact .inl hafter
  | stage _ round staged _ hprice hround hstaged _ hending _ hrounds =>
      rw [hrounds] at hafter
      by_cases hid : roundId = staged.round.roundId
      · obtain rfl : staged = pending := by
          rw [hid] at hafter
          exact Option.some.inj ((Store.get_set_self _ _ _).symm.trans hafter)
        exact .inr ⟨hprice, hending, hstaged ▸ hround, hid.symm⟩
      · exact .inl ((Store.get_set_of_ne _ _ hid).symm.trans hafter)
  | ending _ ending _ _ hends =>
      rw [hends.rounds] at hafter
      exact .inl (staged_of_roundsAfter hafter)

/-- A call numbers no round, or it opens the next one. -/
theorem Effect.last_cases (hordered : s.rounds.Ordered) (heffect : Effect env s call s') :
    s'.rounds.lastRoundId.getD 0 = s.rounds.lastRoundId.getD 0 ∨
      ∃ round, round.roundId = s.rounds.lastRoundId.getD 0 + 1 ∧
        round.startLedger = env.ledger.sequence ∧ s'.rounds = s.rounds.openRound round := by
  cases heffect with
  | quiet _ _ hsame => exact .inl (by rw [hsame.rounds])
  | mint _ _ _ _ _ hsame | treasuryAddress _ _ _ _ _ _ _ _ hsame | payFee _ _ _ _ _ _ _ hsame
  | payFund _ _ _ _ _ _ _ hsame | topUp _ _ _ _ _ _ _ hsame
  | reclaim _ _ _ _ _ _ _ _ _ _ _ hsame | claim _ _ _ _ _ _ hsame =>
      exact .inl (by rw [hsame.rounds])
  | openRound _ round _ _ _ hid _ hstart _ hrounds => exact .inr ⟨round, hid, hstart.1, hrounds⟩
  | stake _ round user amount _ hround _ _ hamount _ hplaced =>
      left
      rw [(hplaced.joined (hordered.active_represented hround) hround hamount.1).last]
  | reveal _ _ _ _ _ _ _ _ _ _ _ hrounds | cashOut _ _ _ _ _ _ _ _ _ _ _ _ hrounds
  | stage _ _ _ _ _ _ _ _ _ _ hrounds => exact .inl (by rw [hrounds]; rfl)
  | ending _ ending _ _ hends => exact .inl (by rw [hends.rounds, roundsAfter_last])

/-- The number of the last round never goes down. -/
theorem Effect.last_le (hordered : s.rounds.Ordered) (heffect : Effect env s call s') :
    s.rounds.lastRoundId.getD 0 ≤ s'.rounds.lastRoundId.getD 0 := by
  rcases heffect.last_cases hordered with hsame | ⟨round, hid, -, hrounds⟩
  · exact hsame.ge
  · rw [hrounds]
    simp only [Rounds.openRound, Option.getD_some]
    omega

/-! ## Rounds that are over -/

/-- A round that was opened is over: it is neither active nor staged, and has no book. -/
structure Rounds.Over (rounds : Rounds A) (roundId : ℕ) : Prop where
  known : roundId ≤ rounds.lastRoundId.getD 0
  not_live : ∀ round, ¬ rounds.IsLive roundId round
  no_book : NoBook rounds roundId

/-- The round a call ends is over afterwards. -/
theorem Ends.over (hordered : s.rounds.Ordered) {ending : Ending}
    (hending : call.ending s = some ending) (hends : Ends env.ledger.sequence ending s s') :
    s'.rounds.Over ending.round.roundId := by
  have hendsBy := Call.endsBy hending
  have hlive := hendsBy.live hordered
  obtain ⟨hinactive, hunstaged⟩ := hendsBy.gone hordered
  rw [hends.rounds]
  refine ⟨?_, ?_, roundsAfter_noBook (hordered.live _ _ hlive).2⟩
  · rw [roundsAfter_last]
    rcases hlive with ⟨hactive, -⟩ | ⟨pending, hpending, -⟩
    · rw [hordered.active_last _ hactive, Option.getD_some]
    · exact hordered.staged_known _ _ hpending
  · rintro round (⟨hactive, hid⟩ | ⟨pending, hpending, -⟩)
    · exact hinactive round hactive hid
    · rw [hunstaged] at hpending
      cases hpending

omit [LinearOrder A] in
/-- No call ends a round that is over. -/
theorem Rounds.Over.not_ending (hordered : s.rounds.Ordered) {roundId : ℕ}
    (hover : s.rounds.Over roundId) {ending : Ending} (hending : call.ending s = some ending) :
    ending.round.roundId ≠ roundId := by
  rintro rfl
  exact hover.not_live _ ((Call.endsBy hending).live hordered)

/-- A round that is over stays over. -/
theorem Effect.over (hordered : s.rounds.Ordered) (heffect : Effect env s call s') {roundId : ℕ}
    (hover : s.rounds.Over roundId) : s'.rounds.Over roundId := by
  obtain ⟨hbook, hstaged, hinactive⟩ := heffect.frame hordered hover.known
    (fun round hactive hid => hover.not_live round (.inl ⟨hactive, hid⟩))
    (fun ending hending => hover.not_ending hordered hending)
  have hnone := hover.no_book
  refine ⟨hover.known.trans (heffect.last_le hordered), ?_, ?_⟩
  · rintro round (⟨hactive, hid⟩ | ⟨pending, hpending, hround⟩)
    · exact hinactive round hactive hid
    · rw [hstaged] at hpending
      exact hover.not_live round (.inr ⟨pending, hpending, hround⟩)
  · exact ⟨hbook.listed.trans hnone.listed, fun user => (hbook.position user).trans
      (hnone.position user), fun user => (hbook.prediction user).trans (hnone.prediction user),
      fun user => (hbook.commitment user).trans (hnone.commitment user)⟩

/-! ## Credits -/

/-- A credit to a user on account of a round: the round ends with the user as a participant, or
the user cashes out of it early and receives at most the stake. -/
inductive CreditedFor (s : Storage A) (call : Call A) (s' : Storage A) (user : A) (roundId : ℕ) :
    Prop where
  | ended (ending : Ending) (hending : call.ending s = some ending)
      (hround : ending.round.roundId = roundId)
      (huser : user ∈ s.rounds.participants roundId)
  | cashedOut (round : Round) (position : UserPosition) (hcall : call = .cashOutEarly user)
      (hactive : s.rounds.activeRound = some round) (hround : round.roundId = roundId)
      (hposition : s.rounds.position.get (roundId, user) = some position)
      (hamount : s'.vault.pendingOf user ≤ s.vault.pendingOf user + position.amount)

omit [LinearOrder A] in
/-- Claims leave a user's pending winnings or take them all. -/
theorem claimAll_pendingOf [DecidableEq A] (vault : Vault A) (users : List A) (user : A) :
    (users.foldl Vault.claim vault).pendingOf user = vault.pendingOf user ∨
      (users.foldl Vault.claim vault).pendingOf user = 0 := by
  induction users generalizing vault with
  | nil => exact .inl rfl
  | cons other rest ih =>
      rcases ih (vault.claim other) with hsame | hzero
      · rw [List.foldl_cons, hsame]
        unfold Vault.claim
        split
        · exact .inl rfl
        · by_cases hother : user = other
          · right
            simp [Vault.pendingOf, Store.getD, hother]
          · left
            simp [Vault.pendingOf, Store.getD, Store.get_remove, hother]
      · exact .inr hzero

/-- Every credit is on account of a live round. -/
theorem Effect.creditedFor (hordered : s.rounds.Ordered)
    (hcap : FeeCapped s.control.settings.protocolFeeBps) (hsolvent : s.vault.Solvent)
    (heffect : Effect env s call s') {user : A}
    (hraised : s.vault.pendingOf user < s'.vault.pendingOf user) :
    ∃ roundId round, s.rounds.IsLive roundId round ∧ CreditedFor s call s' user roundId := by
  have hnonneg := hsolvent.pendingOf_nonneg user
  have hunchanged : s'.vault.pendingWinnings = s.vault.pendingWinnings → False := by
    intro hsame
    unfold Vault.pendingOf at hraised
    rw [hsame] at hraised
    exact lt_irrefl _ hraised
  cases heffect with
  | quiet _ _ hsame => exact (hunchanged (by rw [hsame.vault])).elim
  | mint _ _ _ _ hvault | treasuryAddress _ _ _ _ _ _ _ hvault | payFee _ _ _ _ _ _ hvault
  | payFund _ _ _ _ _ _ hvault | topUp _ _ _ _ _ _ hvault | openRound _ _ _ _ _ _ _ _ hvault
  | stake _ _ _ _ _ _ _ _ _ _ _ hvault | reveal _ _ _ _ _ _ _ _ _ _ hvault
  | stage _ _ _ _ _ _ _ _ _ hvault =>
      exact (hunchanged (by rw [hvault] <;> rfl)).elim
  | reclaim other admin _ _ _ _ _ _ _ _ hvault =>
      rw [hvault] at hraised
      by_cases hother : user = other <;>
        simp [Vault.pendingOf, Vault.deposit, Vault.clearPending, Store.getD, Store.get_remove,
          hother] at hraised hnonneg
      omega
  | claim _ users _ _ _ hvault =>
      rw [hvault] at hraised
      rcases claimAll_pendingOf s.vault users user with hsame | hzero <;> omega
  | cashOut round other position penaltyBps _ hround hmode _ hposition hpenalty hstake hvault =>
      have hforfeit := forfeitOf_bounds hstake hpenalty
      have hcredit : s'.vault.pendingOf user = s.vault.pendingOf user +
          creditTo ([(other, position.amount - forfeitOf position.amount penaltyBps)].filter
            fun credit => 0 < credit.2) user := by
        rw [hvault]
        unfold Vault.pendingOf
        rw [Vault.collectFee_pendingWinnings]
        exact Vault.creditAll_pendingOf _ _ _ user
      by_cases hother : other = user
      · subst hother
        refine ⟨round.roundId, round, .inl ⟨hround, rfl⟩,
          .cashedOut round position rfl hround rfl hposition ?_⟩
        rw [hcredit, creditTo_positive (by omega)]
        omega
      · have hzero : creditTo ([(other, position.amount - forfeitOf position.amount
            penaltyBps)].filter fun credit => 0 < credit.2) user = 0 := by
          refine creditTo_of_not_mem fun hmem => ?_
          obtain ⟨credit, hfiltered, rfl⟩ := List.mem_map.mp hmem
          obtain rfl := List.mem_singleton.mp (List.mem_filter.mp hfiltered).1
          exact hother rfl
        omega
  | ending _ ending _ hending hends =>
      have hlive := (Call.endsBy hending).live hordered
      refine ⟨_, _, hlive, .ended ending hending rfl ?_⟩
      by_contra huser
      have hsame := (hends.pending_of_not_mem (hordered.live _ _ hlive).2 hcap huser).1
      unfold Vault.pendingOf Store.getD at hraised
      rw [hsame] at hraised
      exact lt_irrefl _ hraised

/-! ## Over whole histories -/

variable {host : Host A} {chain : Chain A}

/-- Throughout every history the storage represents each live round: the active one, and the staged
ones with the record inside their staged settlement. -/
theorem live_round_represented (hreachable : Reachable host chain) :
    ∀ roundId round, chain.storage.rounds.IsLive roundId round →
      round.roundId = roundId ∧ Represents chain.storage.rounds round :=
  hreachable.healthy.ordered.live

/-- In the trial run an active round and a staged one are represented side by side. -/
theorem overlapping_rounds_represented : ∃ chain : Chain ℕ, ∃ active pending,
    Reachable trialHost chain ∧ chain.storage.rounds.activeRound = some active ∧
      chain.storage.rounds.pendingDisputes.get 1 = some pending ∧
      Represents chain.storage.rounds active ∧ Represents chain.storage.rounds pending.round := by
  obtain ⟨trace, chain, chain', hhistory, hfits⟩ := exists_trial overlappingRounds
    (.invoke [9] (.voidRound 1))
    (fun chain _ => chain.storage.rounds.activeRound.isSome &&
      (chain.storage.rounds.pendingDisputes.get 1).isSome) (by decide +kernel)
  rw [Bool.and_eq_true, Option.isSome_iff_exists, Option.isSome_iff_exists] at hfits
  obtain ⟨⟨active, hactive⟩, pending, hpending⟩ := hfits
  have hlive := live_round_represented hhistory.last.1
  exact ⟨chain, active, pending, hhistory.last.1, hactive, hpending,
    (hlive _ active (.inl ⟨hactive, rfl⟩)).2, (hlive 1 _ (.inr ⟨pending, hpending, rfl⟩)).2⟩

/-- A transition is a successful call that ends the round under an id. -/
def EndsRound (transition : Transition (Chain A) (Action A)) (roundId : ℕ) : Prop :=
  ∃ signers call ending, transition.label = .invoke signers call ∧
    call.ending transition.before.storage = some ending ∧ ending.round.roundId = roundId

/-- What an ending gives the users: every participant once the payout of the one record the plan
has for them, and a coverage if the round is cancelled; nobody else anything. -/
structure PaysOnce (s s' : Storage A) (ending : Ending) : Prop where
  records : ((ending.plan s.control.settings.terms s.rounds).records.map (·.user)).Perm
    (s.rounds.participants ending.round.roundId)
  distinct : (s.rounds.participants ending.round.roundId).Nodup
  recorded : ∀ record ∈ (ending.plan s.control.settings.terms s.rounds).records,
    s'.userRoundOutcome.get (ending.round.roundId, record.user) = some record
  credited : ∀ record ∈ (ending.plan s.control.settings.terms s.rounds).records,
    s'.vault.pendingOf record.user =
      s.vault.pendingOf record.user + record.payout + s.coverageOf ending record.user
  uncovered : (∀ reason, ending.kind ≠ .cancelled reason) →
    ∀ user, s.coverageOf ending user = 0
  others : ∀ user, user ∉ s.rounds.participants ending.round.roundId →
    s'.vault.pendingWinnings.get user = s.vault.pendingWinnings.get user

/-- The call that ends a round pays its participants once. -/
theorem Reachable.paysOnce {chain' : Chain A} {signers : List A} {ending : Ending}
    (hreachable : Reachable host chain) (hstep : Step host chain (.invoke signers call) chain')
    (hending : call.ending chain.storage = some ending) :
    PaysOnce chain.storage chain'.storage ending := by
  have hhealthy : chain.storage.Healthy chain.ledger.sequence := hreachable.healthy
  have hends := hreachable.ends hstep hending
  have hlive := (Call.endsBy hending).live hhealthy.ordered
  have hbook := (hhealthy.ordered.live _ _ hlive).2
  have hcap := hhealthy.fee_capped
  exact {
    records := (Ending.plan_sound hbook hcap).users
    distinct := hbook.nodup
    recorded := fun record hrecord => hends.outcome_of_mem hbook hcap
      (hhealthy.recorded.unrecorded _ _ hlive) hrecord
    credited := fun record hrecord => hends.pendingOf_of_mem hbook hcap hrecord
    uncovered := coverageOf_eq_zero
    others := fun user huser => (hends.pending_of_not_mem hbook hcap huser).1 }

/-- A round that is over stays over with every step. -/
theorem Chain.Healthy.over_of_step {chain' : Chain A} {action : Action A} {roundId : ℕ}
    (hhealthy : chain.Healthy) (hstep : Step host chain action chain')
    (hover : chain.storage.rounds.Over roundId) : chain'.storage.rounds.Over roundId := by
  cases hstep with
  | closeLedger | expire => exact hover
  | invoke signers call storage hrun =>
      exact (Chain.Healthy.effect hhealthy (.invoke chain signers call storage hrun)).over
        hhealthy.ordered hover

/-- A round that is over stays over along every run. -/
theorem Chain.Healthy.over_of_run {chain' : Chain A}
    {trace : List (Transition (Chain A) (Action A))} {roundId : ℕ} (hhealthy : chain.Healthy)
    (hrun : Run (Step host) chain trace chain') (hover : chain.storage.rounds.Over roundId) :
    chain'.Healthy ∧ chain'.storage.rounds.Over roundId := by
  refine hrun.invariant (fun chain => chain.Healthy ∧ chain.storage.rounds.Over roundId)
    ⟨hhealthy, hover⟩ ?_
  rintro transition _ hstep ⟨hbefore, hstill⟩
  exact ⟨hstep.healthy hbefore, Chain.Healthy.over_of_step hbefore hstep hstill⟩

/-- A round that is over is not ended again, and no later credit is on account of it. -/
theorem Chain.Healthy.over_forever {chain' : Chain A}
    {trace : List (Transition (Chain A) (Action A))} {roundId : ℕ}
    (hhealthy : chain.Healthy) (hrun : Run (Step host) chain trace chain')
    (hover : chain.storage.rounds.Over roundId) :
    ∀ transition ∈ trace, ¬ EndsRound transition roundId ∧
      transition.after.storage.rounds.Over roundId ∧
      ∀ signers call user, transition.label = .invoke signers call →
        transition.before.storage.vault.pendingOf user <
          transition.after.storage.vault.pendingOf user →
        ∃ otherId ≠ roundId, CreditedFor transition.before.storage call transition.after.storage
          user otherId := by
  intro transition hmem
  obtain ⟨earlier, later, -, hearlier, hstep, -⟩ := hrun.around hmem
  obtain ⟨hbefore, hold⟩ := Chain.Healthy.over_of_run hhealthy hearlier hover
  refine ⟨?_, Chain.Healthy.over_of_step hbefore hstep hold, ?_⟩
  · rintro ⟨signers, call, ending, -, hending, hid⟩
    exact hold.not_ending hbefore.ordered hending hid
  · intro signers call user hlabel hraised
    rw [hlabel] at hstep
    obtain ⟨otherId, round, hlive, hcredited⟩ := (Chain.Healthy.effect hbefore hstep).creditedFor
      hbefore.ordered hbefore.fee_capped hbefore.solvent hraised
    exact ⟨otherId, fun hid => hold.not_live round (hid ▸ hlive), hcredited⟩

/-- In every history a round ends at most once. The call that ends it pays every participant once;
afterwards the round is over for good, and no later call credits anyone on account of it. -/
theorem round_ends_once {trace : List (Transition (Chain A) (Action A))}
    (hhistory : History host trace chain) :
    ∀ earlier later transition signers call ending,
      trace = earlier ++ transition :: later → transition.label = .invoke signers call →
      call.ending transition.before.storage = some ending →
      (∀ other ∈ earlier ++ later, ¬ EndsRound other ending.round.roundId) ∧
      PaysOnce transition.before.storage transition.after.storage ending ∧
      transition.after.storage.rounds.Over ending.round.roundId ∧
      ∀ other ∈ later, other.after.storage.rounds.Over ending.round.roundId ∧
        ∀ signers call user, other.label = .invoke signers call →
          other.before.storage.vault.pendingOf user < other.after.storage.vault.pendingOf user →
          ∃ otherId ≠ ending.round.roundId,
            CreditedFor other.before.storage call other.after.storage user otherId := by
  intro earlier later transition signers call ending htrace hlabel hending
  subst htrace
  obtain ⟨⟨ledger, hearlier⟩, hstep, hlater⟩ := hhistory.cut
  have hbefore : Reachable host transition.before := ⟨_, ledger, hearlier⟩
  have hafter := hbefore.step hstep
  have hlive := (Call.endsBy hending).live hbefore.healthy.ordered
  have hinvoke := hstep
  rw [hlabel] at hinvoke
  have hover := @Ends.over _ _ ⟨host, transition.before.ledger, signers⟩ _ _ _
    hbefore.healthy.ordered _ hending (hbefore.ends hinvoke hending)
  have hforever := Chain.Healthy.over_forever hafter.healthy hlater hover
  refine ⟨fun other hother hends => ?_, hbefore.paysOnce hinvoke hending, hover,
    fun other hother => (hforever other hother).2⟩
  rcases List.mem_append.mp hother with hother | hother
  · -- a round that ended earlier would be over before this transition
    obtain ⟨first, rest, -, hfirst, hends', hrest⟩ := hearlier.around hother
    obtain ⟨signers', call', ending', hlabel', hending', hid⟩ := hends
    have hother : Reachable host other.before := ⟨_, ledger, hfirst⟩
    rw [hlabel'] at hends'
    have hover' := @Ends.over _ _ ⟨host, other.before.ledger, signers'⟩ _ _ _
      hother.healthy.ordered _ hending' (hother.ends hends' hending')
    have hstill := (Chain.Healthy.over_of_run (hother.step hends').healthy hrest hover').2
    rw [hid] at hstill
    exact hstill.not_live _ hlive
  · exact (hforever other hother).1 hends

/-- The void of round 1 in the trial run pays its participants once and ends it for good. -/
theorem voided_round_ends_once : ∃ chain chain' : Chain ℕ, ∃ ending,
    Step trialHost chain (.invoke [9] (.voidRound 1)) chain' ∧
      (Call.voidRound 1).ending chain.storage = some ending ∧ ending.round.roundId = 1 ∧
      PaysOnce chain.storage chain'.storage ending ∧ chain'.storage.rounds.Over 1 := by
  obtain ⟨trace, chain, chain', hhistory, hfits⟩ := exists_trial overlappingRounds
    (.invoke [9] (.voidRound 1))
    (fun chain _ => decide
      (((Call.voidRound 1).ending chain.storage).map (·.round.roundId) = some 1))
    (by decide +kernel)
  simp only [decide_eq_true_eq, Option.map_eq_some_iff] at hfits
  obtain ⟨ending, hending, hid⟩ := hfits
  obtain ⟨-, hpays, hover, -⟩ := round_ends_once hhistory trace [] _ _ _ ending rfl rfl hending
  exact ⟨chain, chain', ending, hhistory.last.2, hending, hid, hpays, hid ▸ hover⟩

/-! ## Staging -/

omit [LinearOrder A] in
/-- A submission ends the active round as its price decides. -/
theorem Call.ending_of_price {finalPrice : ℕ} (hprice : call.price = some finalPrice) :
    call.ending s = s.resolution finalPrice := by
  cases call with
  | resolveRound payload =>
      obtain rfl := Option.some.inj hprice
      rfl
  | resolveRoundMulti payload =>
      have hmedian : (medianPrice payload.prices).toOption = some finalPrice := hprice
      simp [Call.ending, hmedian]
  | _ => cases hprice

/-- A transition stages the active round: a price is submitted for it, enough users take part and
there is a dispute window. -/
def StagesRound (transition : Transition (Chain A) (Action A)) : Prop :=
  ∃ signers call finalPrice round, transition.label = .invoke signers call ∧
    call.price = some finalPrice ∧ transition.before.storage.rounds.activeRound = some round ∧
    transition.before.storage.control.settings.belowMinimum
      (transition.before.storage.rounds.participants round.roundId).length = false ∧
    0 < transition.before.storage.control.settings.getDisputeLedgers

/-- A step that stages no round leaves nothing staged where nothing was. -/
theorem Step.unstaged {transition : Transition (Chain A) (Action A)}
    (hstep : Step host transition.before transition.label transition.after)
    (hhealthy : transition.before.Healthy) (hnot : ¬ StagesRound transition)
    (hempty : ∀ roundId, transition.before.storage.rounds.pendingDisputes.get roundId = none) :
    ∀ roundId, transition.after.storage.rounds.pendingDisputes.get roundId = none := by
  intro roundId
  obtain ⟨before, action, after⟩ := transition
  simp only [] at hstep hhealthy hempty ⊢
  cases action with
  | closeLedger | expire =>
      cases hstep
      exact hempty roundId
  | invoke signers call =>
      by_contra hstaged
      obtain ⟨pending, hpending⟩ := Option.ne_none_iff_exists'.mp hstaged
      rcases (Chain.Healthy.effect hhealthy hstep).staged_cases hpending with
        hbefore | ⟨hprice, hending, hactive, -⟩
      · exact absurd (hbefore.symm.trans (hempty roundId)) (Option.some_ne_none _)
      · -- A submission that ends nothing meets both conditions of staging.
        rw [Call.ending_of_price hprice] at hending
        refine hnot ⟨signers, call, _, _, rfl, hprice, hactive, ?_, ?_⟩
        · by_contra hbelow
          simp only [Bool.not_eq_false] at hbelow
          simp [Storage.resolution, hactive, hbelow] at hending
        · by_contra hwindow
          simp only [Storage.resolution, hactive, gt_iff_lt, if_neg hwindow] at hending
          split at hending <;> cases hending

/-- The active round of a step that stages it is staged afterwards. -/
theorem Step.stages {transition : Transition (Chain A) (Action A)}
    (hstep : Step host transition.before transition.label transition.after)
    (hhealthy : transition.before.Healthy) (hstages : StagesRound transition) :
    ∃ signers call round pending, transition.label = .invoke signers call ∧
      call.ending transition.before.storage = none ∧
      transition.before.storage.rounds.activeRound = some round ∧ pending.round = round ∧
      transition.after.storage.rounds = transition.before.storage.rounds.stage pending := by
  obtain ⟨signers, call, finalPrice, round, hlabel, hprice, hactive, hminimum, hwindow⟩ := hstages
  rw [hlabel] at hstep
  obtain ⟨settled, -, hsettled⟩ := Chain.Healthy.settled hhealthy hstep hprice
  obtain rfl := Option.some.inj (hactive.symm.trans hsettled.active)
  have hnone : transition.before.storage.resolution finalPrice = none := by
    simp [Storage.resolution, hactive, hminimum, hwindow]
  obtain ⟨pending, -, hpending, -, -, hrounds, -⟩ := hsettled.staged hnone
  exact ⟨signers, call, round, pending, hlabel, (Call.ending_of_price hprice).trans hnone, hactive,
    hpending, hrounds⟩

end XelmaMarket
