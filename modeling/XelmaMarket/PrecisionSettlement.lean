import XelmaMarket.Refunds

/-!
# Precision settlements

A Precision settlement pays out every stake but the fee. The winners are the participants whose
prediction is closest to the price. Each is paid the share the policy gives, and the winner with
the lowest address is paid the whole remainder as well. When nobody revealed, everybody is
refunded.
-/

namespace XelmaMarket

variable {A : Type} [LinearOrder A] {s s' : Storage A} {round : Round} {finalPrice : ℕ}
  {terms : Terms} {rounds : Rounds A}

/-! ## The records of the winners -/

/-- The winners of a Precision round, from the lowest address up. -/
def Rounds.sortedWinners (rounds : Rounds A) (round : Round) (finalPrice : ℕ) : List A :=
  rounds.winners round.roundId finalPrice (sortAddresses (rounds.participants round.roundId))

/-- The share the policy gives a winner of what the winners are paid together. -/
def Terms.winnerShare (terms : Terms) (rounds : Rounds A) (round : Round) (winners : List A)
    (pool : ℤ) (user : A) : ℤ :=
  terms.payoutPolicy.share pool (rounds.stakesOf round.roundId winners) winners.length
    (rounds.stakeOf .precision round.roundId user)

theorem mem_sortedWinners (user : A) :
    user ∈ rounds.sortedWinners round finalPrice ↔
      user ∈ rounds.participants round.roundId ∧
        ∃ prediction, rounds.precisionPosition.get (round.roundId, user) = some prediction ∧
          ∀ other ∈ rounds.participants round.roundId, ∀ rival,
            rounds.precisionPosition.get (round.roundId, other) = some rival →
            priceDistance prediction.predictedPrice finalPrice ≤
              priceDistance rival.predictedPrice finalPrice := by
  rw [Rounds.sortedWinners, Rounds.winners, List.mem_filter, mem_sortAddresses,
    decide_eq_true_eq]
  unfold Rounds.IsWinner
  simp only [Option.mem_def, mem_sortAddresses]

/-- The first of the winners has the lowest address. -/
theorem head_sortedWinners_le {first : A} {rest : List A}
    (hwinners : rounds.sortedWinners round finalPrice = first :: rest) :
    ∀ user ∈ rest, first ≤ user := by
  have hsorted : (rounds.sortedWinners round finalPrice).Pairwise (· ≤ ·) :=
    (List.pairwise_insertionSort (· ≤ ·) (rounds.participants round.roundId)).filter _
  rw [hwinners] at hsorted
  exact (List.pairwise_cons.mp hsorted).1

theorem zipWith_map_self {α β γ : Type} (items : List α) (f : α → β → γ) (g : α → β) :
    List.zipWith f items (items.map g) = items.map fun a => f a (g a) := by
  induction items with
  | nil => rfl
  | cons a rest ih => simp [ih]

omit [LinearOrder A] in
/-- The first winner's record pays the share and the remainder, the others' records the share. -/
theorem winRecords_cons (pool : ℤ) (first : A) (rest : List A) :
    terms.winRecords rounds round.roundId pool (first :: rest) =
      rounds.outcomeRecord .precision round.roundId (revealedPrice rounds round.roundId first) first
        (terms.winnerShare rounds round (first :: rest) pool first +
          (pool - ((first :: rest).map
            (terms.winnerShare rounds round (first :: rest) pool)).sum)) .win ::
      rest.map fun user => rounds.outcomeRecord .precision round.roundId
        (revealedPrice rounds round.roundId user) user
        (terms.winnerShare rounds round (first :: rest) pool user) .win := by
  have hshares : terms.payoutPolicy.shares pool
      ((first :: rest).map (rounds.stakeOf .precision round.roundId)) =
        (first :: rest).map (terms.winnerShare rounds round (first :: rest) pool) := by
    rw [PrecisionPayoutPolicy.shares, List.map_map, List.length_map]
    rfl
  unfold Terms.winRecords PrecisionPayoutPolicy.payouts
  rw [hshares]
  simp only [List.map_cons, withRemainder, List.zipWith_cons_cons, zipWith_map_self]

/-! ## What a settlement does -/

/-- What a Precision settlement with a revealed prediction does to the accounts and the outcomes. -/
structure RevealedSettled (s s' : Storage A) (round : Round) (finalPrice : ℕ) (fee : ℤ) :
    Prop where
  shares : ∀ user ∈ s.rounds.sortedWinners round finalPrice,
    (∃ lower ∈ s.rounds.sortedWinners round finalPrice, lower < user) →
    s'.vault.pendingOf user = s.vault.pendingOf user +
      s.control.settings.terms.winnerShare s.rounds round
        (s.rounds.sortedWinners round finalPrice)
        (s.rounds.totalStake .precision round.roundId - fee) user
  remainder : ∀ user ∈ s.rounds.sortedWinners round finalPrice,
    (∀ other ∈ s.rounds.sortedWinners round finalPrice, user ≤ other) →
    s'.vault.pendingOf user = s.vault.pendingOf user +
      s.control.settings.terms.winnerShare s.rounds round
        (s.rounds.sortedWinners round finalPrice)
        (s.rounds.totalStake .precision round.roundId - fee) user +
      (s.rounds.totalStake .precision round.roundId - fee -
        ((s.rounds.sortedWinners round finalPrice).map
          (s.control.settings.terms.winnerShare s.rounds round
            (s.rounds.sortedWinners round finalPrice)
            (s.rounds.totalStake .precision round.roundId - fee))).sum)
  won : ∀ user ∈ s.rounds.sortedWinners round finalPrice, ∃ record,
    s'.userRoundOutcome.get (round.roundId, user) = some record ∧ record.outcome = .win ∧
      s'.vault.pendingOf user = s.vault.pendingOf user + record.payout
  lost : ∀ user ∈ s.rounds.participants round.roundId,
    user ∉ s.rounds.sortedWinners round finalPrice →
    s'.vault.pendingOf user = s.vault.pendingOf user ∧
      ∃ record, s'.userRoundOutcome.get (round.roundId, user) = some record ∧
        record.outcome = .loss ∧ record.payout = 0
  others : ∀ user, user ∉ s.rounds.participants round.roundId →
    s'.vault.pendingOf user = s.vault.pendingOf user
  collected : s'.vault.treasury + s'.vault.insuranceFund =
    s.vault.treasury + s.vault.insuranceFund + fee
  exact : ((s.rounds.sortedWinners round finalPrice).map fun user =>
      s'.vault.pendingOf user - s.vault.pendingOf user).sum + fee =
    s.rounds.totalStake .precision round.roundId

/-- What a Precision settlement in which nobody revealed does to the accounts. -/
structure UnrevealedSettled (s s' : Storage A) (round : Round) : Prop where
  refunded : ∀ user ∈ s.rounds.participants round.roundId,
    s'.vault.pendingOf user =
      s.vault.pendingOf user + s.rounds.stakeOf .precision round.roundId user
  others : ∀ user, user ∉ s.rounds.participants round.roundId →
    s'.vault.pendingOf user = s.vault.pendingOf user
  treasury : s'.vault.treasury = s.vault.treasury
  fund : s'.vault.insuranceFund = s.vault.insuranceFund
  stats : s'.stats = s.stats

/-- Whether a participant of a Precision round revealed a prediction. -/
def Rounds.Revealed (rounds : Rounds A) (roundId : ℕ) : Prop :=
  ∃ user ∈ rounds.participants roundId, ∃ prediction,
    rounds.precisionPosition.get (roundId, user) = some prediction

/-- What a Precision settlement does, whether or not a prediction was revealed. -/
structure PrecisionSettled (s s' : Storage A) (round : Round) (finalPrice : ℕ) (fee : ℤ) :
    Prop where
  revealed : s.rounds.Revealed round.roundId → RevealedSettled s s' round finalPrice fee
  unrevealed : ¬ s.rounds.Revealed round.roundId → UnrevealedSettled s s' round ∧ fee = 0

/-- A revealed prediction is closest for some participant. -/
theorem sortedWinners_ne_nil (hrevealed : rounds.Revealed round.roundId) :
    rounds.sortedWinners round finalPrice ≠ [] := by
  obtain ⟨user, huser, prediction, hprediction⟩ := hrevealed
  -- a prediction of the least distance exists among those revealed
  let distances : Set ℕ := {distance | ∃ user ∈ rounds.participants round.roundId, ∃ prediction,
    rounds.precisionPosition.get (round.roundId, user) = some prediction ∧
      priceDistance prediction.predictedPrice finalPrice = distance}
  have hsome : distances.Nonempty := ⟨_, user, huser, prediction, hprediction, rfl⟩
  obtain ⟨least, ⟨winner, hwinner, closest, hclosest, hleast⟩, hmin⟩ :=
    wellFounded_lt.has_min distances hsome
  refine List.ne_nil_of_mem ((mem_sortedWinners winner).mpr ⟨hwinner, closest, hclosest, ?_⟩)
  intro other hother rival hrival
  rw [hleast]
  exact not_lt.mp (hmin _ ⟨other, hother, rival, hrival, rfl⟩)

/-- The records of the losers. -/
def Rounds.lossRecords (rounds : Rounds A) (round : Round) (finalPrice : ℕ) :
    List (UserRoundOutcome A) :=
  ((sortAddresses (rounds.participants round.roundId)).filter fun user =>
    ¬ rounds.IsWinner round.roundId finalPrice
      (sortAddresses (rounds.participants round.roundId)) user).map
    (rounds.lossRecord round.roundId)

/-- Every participant who does not win has a loss record. -/
theorem mem_lossRecords {user : A} (huser : user ∈ rounds.participants round.roundId)
    (hloses : user ∉ rounds.sortedWinners round finalPrice) :
    rounds.lossRecord round.roundId user ∈ rounds.lossRecords round finalPrice := by
  refine List.mem_map_of_mem (List.mem_filter.mpr ⟨mem_sortAddresses.mpr huser, ?_⟩)
  refine decide_eq_true fun hwins => hloses ?_
  exact List.mem_filter.mpr ⟨mem_sortAddresses.mpr huser, decide_eq_true hwins⟩

/-- The plan of a Precision settlement with a revealed prediction. -/
theorem Terms.plan_of_revealed (hmode : round.mode = .precision)
    (hrevealed : rounds.Revealed round.roundId) :
    ∃ fee, terms.plan rounds round finalPrice =
      ⟨fee, terms.winRecords rounds round.roundId
          (rounds.totalStake .precision round.roundId - fee)
          (rounds.sortedWinners round finalPrice) ++ rounds.lossRecords round finalPrice⟩ := by
  have hne := @sortedWinners_ne_nil _ _ _ finalPrice _ hrevealed
  have hpot := sum_precision_stakes hmode (sortAddresses_perm (rounds.participants round.roundId))
  rw [hmode] at hpot
  rw [Rounds.sortedWinners] at hne
  rw [Terms.plan, hmode]
  simp only [Terms.precisionPlan, hpot]
  rw [if_neg hne]
  exact ⟨_, rfl⟩

section Settled

variable {ledger : ℕ} {ending : Ending} (hends : Ends ledger ending s s')
  (hbook : Represents s.rounds ending.round)
  (hcap : FeeCapped s.control.settings.protocolFeeBps)
  (hnew : ∀ user ∈ s.rounds.participants ending.round.roundId,
    s.userRoundOutcome.get (ending.round.roundId, user) = none)
  (hprice : ending.kind.price = some finalPrice) (hmode : ending.round.mode = .precision)
include hends hbook hcap hnew hprice hmode

/-- A Precision settlement with a revealed prediction pays the winners. -/
theorem Ends.revealedSettled (hrevealed : s.rounds.Revealed ending.round.roundId) :
    RevealedSettled s s' ending.round finalPrice
      (ending.plan s.control.settings.terms s.rounds).fee := by
  have hne := @sortedWinners_ne_nil _ _ _ finalPrice _ hrevealed
  have hcredited := fun record hrecord =>
    @Ends.pendingOf_of_mem _ _ _ _ _ _ hends hbook hcap record hrecord
  have hrecorded := fun record hrecord =>
    @Ends.outcome_of_mem _ _ _ _ _ _ hends hbook hcap hnew record hrecord
  have hcollected := hends.collected hbook hcap
  have hnothing : (∀ user, s.coverageOf ending user = 0) ∧ s.coveragePaid ending = 0 := by
    have hkind : ∀ reason, ending.kind ≠ .cancelled reason := fun reason hkind => by
      rw [hkind] at hprice
      cases hprice
    exact ⟨coverageOf_eq_zero hkind, coveragePaid_of_price hprice⟩
  simp only [hnothing.1, hnothing.2, add_zero, sub_zero] at hcredited hcollected
  obtain ⟨fee, hplan⟩ := @Terms.plan_of_revealed _ _ _ finalPrice s.control.settings.terms _ hmode
    hrevealed
  rw [Ending.plan_of_price hprice, hplan] at hcredited hrecorded hcollected ⊢
  show RevealedSettled s s' ending.round finalPrice fee
  have hwon : ∀ record ∈ s.control.settings.terms.winRecords s.rounds ending.round.roundId
      (s.rounds.totalStake .precision ending.round.roundId - fee)
      (s.rounds.sortedWinners ending.round finalPrice),
      s'.vault.pendingOf record.user = s.vault.pendingOf record.user + record.payout ∧
      s'.userRoundOutcome.get (ending.round.roundId, record.user) = some record :=
    fun record hrecord => ⟨hcredited record (List.mem_append_left _ hrecord),
      hrecorded record (List.mem_append_left _ hrecord)⟩
  have husers := @winRecords_users _ s.rounds ending.round s.control.settings.terms
    (s.rounds.totalStake .precision ending.round.roundId - fee)
    (s.rounds.sortedWinners ending.round finalPrice)
  constructor
  · rintro user huser ⟨lower, hlower, hlt⟩
    cases hwinners : s.rounds.sortedWinners ending.round finalPrice with
    | nil => exact absurd hwinners hne
    | cons first rest =>
        have hle := head_sortedWinners_le hwinners
        rw [hwinners] at huser hlower hwon
        rw [winRecords_cons] at hwon
        have hrest : user ∈ rest := by
          rcases List.mem_cons.mp huser with rfl | hrest
          · rcases List.mem_cons.mp hlower with rfl | hlower
            · exact absurd hlt (lt_irrefl _)
            · exact absurd hlt (not_lt.mpr (hle lower hlower))
          · exact hrest
        simpa using (hwon _ (List.mem_cons_of_mem _ (List.mem_map_of_mem hrest))).1
  · intro user huser hlowest
    cases hwinners : s.rounds.sortedWinners ending.round finalPrice with
    | nil => exact absurd hwinners hne
    | cons first rest =>
        have hle := head_sortedWinners_le hwinners
        rw [hwinners] at huser hlowest hwon
        rw [winRecords_cons] at hwon
        have hfirst : user = first := by
          rcases List.mem_cons.mp huser with rfl | hrest
          · rfl
          · exact le_antisymm (hlowest first (by simp)) (hle user hrest)
        subst hfirst
        simpa [add_assoc] using (hwon _ (List.mem_cons_self ..)).1
  · intro user huser
    rw [← husers] at huser
    obtain ⟨record, hrecord, rfl⟩ := List.mem_map.mp huser
    exact ⟨record, (hwon record hrecord).2, (mem_winRecords hrecord).1, (hwon record hrecord).1⟩
  · intro user huser hloses
    have hmem := List.mem_append_right
      (s.control.settings.terms.winRecords s.rounds ending.round.roundId
        (s.rounds.totalStake .precision ending.round.roundId - fee)
        (s.rounds.sortedWinners ending.round finalPrice)) (mem_lossRecords huser hloses)
    refine ⟨by simpa [Rounds.lossRecord] using hcredited _ hmem,
      s.rounds.lossRecord ending.round.roundId user, ?_, ?_, ?_⟩
    · simpa [Rounds.lossRecord] using hrecorded _ hmem
    · simp [Rounds.lossRecord]
    · simp [Rounds.lossRecord]
  · intro user huser
    unfold Vault.pendingOf Store.getD
    rw [(hends.pending_of_not_mem hbook hcap huser).1]
  · exact hcollected
  · have hpayouts := @winRecords_payouts _ s.rounds ending.round s.control.settings.terms
      (s.rounds.totalStake .precision ending.round.roundId - fee)
      (s.rounds.sortedWinners ending.round finalPrice)
    have hsum := @sum_payouts s.control.settings.terms.payoutPolicy
      (s.rounds.totalStake .precision ending.round.roundId - fee)
      ((s.rounds.sortedWinners ending.round finalPrice).map
        (s.rounds.stakeOf .precision ending.round.roundId)) (by simpa using hne)
    have hcredits : (s.rounds.sortedWinners ending.round finalPrice).map (fun user =>
        s'.vault.pendingOf user - s.vault.pendingOf user) =
          (s.control.settings.terms.winRecords s.rounds ending.round.roundId
            (s.rounds.totalStake .precision ending.round.roundId - fee)
            (s.rounds.sortedWinners ending.round finalPrice)).map (·.payout) := by
      conv_lhs => rw [← husers, List.map_map]
      refine List.map_congr_left fun record hrecord => ?_
      have := (hwon record hrecord).1
      simp only [Function.comp_apply]
      omega
    rw [hcredits, hpayouts, hsum]
    omega

/-- A Precision settlement pays the winners, or refunds a round nobody revealed in. -/
theorem Ends.precisionSettled :
    PrecisionSettled s s' ending.round finalPrice
      (ending.plan s.control.settings.terms s.rounds).fee := by
  refine ⟨hends.revealedSettled hbook hcap hnew hprice hmode, fun hhidden => ?_⟩
  have hrefunds : ending.Refunds s.rounds := by
    refine .unrevealed finalPrice hprice hmode fun user huser => ?_
    refine Option.eq_none_iff_forall_ne_some.mpr fun prediction hget => ?_
    exact hhidden ⟨user, huser, prediction, hget⟩
  have hexact := hends.refundsExactly hbook hcap hrefunds
  have hkind : ∀ reason, ending.kind ≠ .cancelled reason := fun reason hkind => by
    rw [hkind] at hprice
    cases hprice
  obtain ⟨_, _, _, _, _, hplan⟩ :=
    @Ending.Refunds.plan _ _ _ s.control.settings.terms _ hrefunds
  refine ⟨⟨fun user huser => ?_, fun user huser => ?_, hexact.treasury, ?_, hexact.stats⟩,
    by rw [hplan]⟩
  · have hrefunded := hexact.refunded user huser
    rwa [coverageOf_eq_zero hkind, add_zero, hmode] at hrefunded
  · unfold Vault.pendingOf Store.getD
    rw [hexact.others user huser]
  · have hnothing : s.coveragePaid ending = 0 := by
      by_contra hpaid
      obtain ⟨reason, hreason, -⟩ := hexact.paid hpaid
      exact hkind reason hreason
    have hfund := hexact.fund
    rwa [hnothing, sub_zero] at hfund

end Settled

/-- The accounts after a Precision settlement are those of an ending whose cleanup comes later. -/
theorem ends_of_resolvePrecisionMode {env : Env A} {result : ℤ × ℤ}
    (hbook : Represents s.rounds round) (hmode : round.mode = .precision)
    (hcap : FeeCapped s.control.settings.protocolFeeBps)
    (hrun : resolvePrecisionMode round.roundId finalPrice env s = .ok (result, s')) :
    Ends env.ledger.sequence ⟨round, .resolved finalPrice⟩ s
        { s' with rounds := (Ending.mk round (.resolved finalPrice)).roundsAfter s.rounds } ∧
      result.1 =
        ((Ending.mk round (.resolved finalPrice)).plan s.control.settings.terms s.rounds).fee := by
  obtain ⟨-, hfee, hexecutes⟩ := (resolvePrecisionMode_spec hbook hmode hcap finalPrice).elim hrun
  have hplan : (Ending.mk round (.resolved finalPrice)).plan s.control.settings.terms s.rounds =
      s.control.settings.terms.precisionPlan s.rounds round finalPrice
        (sortAddresses (s.rounds.participants round.roundId)) := by
    rw [Ending.plan_of_price rfl, Terms.plan, hmode]
  rw [← hplan] at hfee hexecutes
  exact ⟨.of_executes rfl hexecutes rfl ⟨rfl, rfl, rfl⟩, hfee⟩

/-- In every reachable chain the Precision settlement of a live round is exact, at every price and
in every environment; and so is every successful call that settles one. -/
theorem precision_settlement_exact {host : Host A} {chain : Chain A} {roundId : ℕ}
    (hreachable : Reachable host chain) (hlive : chain.storage.rounds.IsLive roundId round)
    (hmode : round.mode = .precision) :
    (∀ env finalPrice result s', resolvePrecisionMode roundId finalPrice env chain.storage =
      .ok (result, s') → PrecisionSettled chain.storage s' round finalPrice result.1) ∧
    ∀ signers call chain' ending finalPrice, Step host chain (.invoke signers call) chain' →
      call.ending chain.storage = some ending → ending.round = round →
      ending.kind.price = some finalPrice →
      ∃ fee, PrecisionSettled chain.storage chain'.storage round finalPrice fee := by
  have hhealthy : chain.storage.Healthy chain.ledger.sequence := hreachable.healthy
  obtain ⟨rfl, hbook⟩ := hhealthy.ordered.live _ _ hlive
  have hnew := hhealthy.recorded.unrecorded _ _ hlive
  constructor
  · intro env finalPrice result s' hrun
    obtain ⟨hends, hfee⟩ := ends_of_resolvePrecisionMode hbook hmode hhealthy.fee_capped hrun
    have hsettled := hends.precisionSettled hbook hhealthy.fee_capped hnew rfl hmode
    rw [hfee]
    exact ⟨fun h => ⟨(hsettled.revealed h).shares, (hsettled.revealed h).remainder,
      (hsettled.revealed h).won, (hsettled.revealed h).lost, (hsettled.revealed h).others,
      (hsettled.revealed h).collected, (hsettled.revealed h).exact⟩,
      fun h => ⟨⟨(hsettled.unrevealed h).1.refunded, (hsettled.unrevealed h).1.others,
        (hsettled.unrevealed h).1.treasury, (hsettled.unrevealed h).1.fund,
        (hsettled.unrevealed h).1.stats⟩, (hsettled.unrevealed h).2⟩⟩
  · rintro signers call chain' ending finalPrice hstep hending rfl hprice
    exact ⟨_, (hreachable.ends hstep hending).precisionSettled hbook hhealthy.fee_capped hnew hprice
      hmode⟩

/-- In the trial run users 3 and 5 are equally close, and user 3 is paid the odd unit as well. -/
theorem precision_settlement_exact_tie : ∃ chain chain' : Chain ℕ, ∃ round fee,
    Step trialHost chain (.invoke [2] (.resolveRound (trialPayload 1 1000 100))) chain' ∧
      chain.storage.rounds.activeRound = some round ∧
      RevealedSettled chain.storage chain'.storage round 1000 fee := by
  obtain ⟨trace, chain, chain', hhistory, hfits⟩ := exists_trial precisionRound
    (.invoke [2] (.resolveRound (trialPayload 1 1000 100)))
    (fun chain _ => decide (
      ((Call.resolveRound (trialPayload 1 1000 100)).ending chain.storage).any fun ending =>
      ending.kind = .resolved 1000 ∧ ending.round.mode = .precision ∧
      chain.storage.rounds.activeRound = some ending.round ∧
      3 ∈ chain.storage.rounds.participants ending.round.roundId ∧
      (chain.storage.rounds.precisionPosition.get (ending.round.roundId, 3)).isSome))
    (by decide +kernel)
  obtain ⟨ending, hending, hfits⟩ := (Option.any_eq_true _ _).mp (of_decide_eq_true hfits)
  obtain ⟨hkind, hmode, hactive, huser, hrevealed⟩ := of_decide_eq_true hfits
  obtain ⟨prediction, hprediction⟩ := Option.isSome_iff_exists.mp hrevealed
  obtain ⟨-, hstep⟩ := precision_settlement_exact hhistory.last.1 (.inl ⟨hactive, rfl⟩) hmode
  obtain ⟨fee, hsettled⟩ := hstep _ _ chain' ending 1000 hhistory.last.2 hending rfl
    (by rw [hkind]; rfl)
  exact ⟨chain, chain', ending.round, fee, hhistory.last.2, hactive,
    hsettled.revealed ⟨3, huser, prediction, hprediction⟩⟩

end XelmaMarket
