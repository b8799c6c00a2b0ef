import XelmaMarket.BookPlan
import XelmaMarket.Refunds
import XelmaMarket.Script

/-!
# The order of bets

Bets and direct predictions by distinct users can be placed in any order: settled at the same
price, the round leaves every account and every ranking the same. Two placements differ only in
the order in which the participants are listed, and what the end of a round does depends on who
takes part, not on who came first.
-/

namespace XelmaMarket

variable {A : Type}

/-! ## Stakes placed in the open -/

/-- A stake whose prediction is public: a bet on a side or a predicted price. -/
inductive OpenStake (A : Type) where
  | onSide (user : A) (amount : ℤ) (side : BetSide)
  | onPrice (user : A) (amount : ℤ) (predictedPrice : ℕ)

def OpenStake.user : OpenStake A → A
  | .onSide user _ _ | .onPrice user _ _ => user

def OpenStake.amount : OpenStake A → ℤ
  | .onSide _ amount _ | .onPrice _ amount _ => amount

/-- The open stake a call places. -/
def Call.openStake : Call A → Option (OpenStake A)
  | .placeBet user amount side => some (.onSide user amount side)
  | .placePrecisionPrediction user amount predictedPrice => some (.onPrice user amount predictedPrice)
  | .predictPrice user guessedPrice amount => some (.onPrice user amount guessedPrice)
  | _ => none

/-- The storage with other mint counters and another heartbeat of the oracle. -/
def Storage.pass (s : Storage A) (meter : Meter) (heartbeat : Option OracleHeartbeatRecord) :
    Storage A :=
  { s with
    meter := meter
    control := { s.control with
      settings := { s.control.settings with oracleHeartbeat := heartbeat } } }

section Pass

variable (s : Storage A) (meter : Meter) (heartbeat : Option OracleHeartbeatRecord)

@[simp] theorem pass_vault : (s.pass meter heartbeat).vault = s.vault := rfl

@[simp] theorem pass_rounds : (s.pass meter heartbeat).rounds = s.rounds := rfl

@[simp] theorem pass_stats : (s.pass meter heartbeat).stats = s.stats := rfl

@[simp] theorem pass_terms :
    (s.pass meter heartbeat).control.settings.terms = s.control.settings.terms := rfl

@[simp] theorem pass_belowMinimum : (s.pass meter heartbeat).control.settings.belowMinimum =
    s.control.settings.belowMinimum := rfl

end Pass

/-- Two storages that differ at most in what time and the oracle's heartbeat change. -/
def Storage.Passes (s s' : Storage A) : Prop :=
  ∃ meter heartbeat, s' = s.pass meter heartbeat

/-- The storage without the lists of participants and without what time changes. -/
def Storage.unlisted (s : Storage A) : Storage A :=
  { s.pass (@Storage.empty A).meter none with
    rounds := { s.rounds with roundParticipants := .empty } }

section DecidableAddress

variable [DecidableEq A]

/-- The rounds after an open stake in a round, apart from the list of participants. -/
def Rounds.seat (rounds : Rounds A) (roundId : ℕ) : OpenStake A → Rounds A
  | .onSide user amount side =>
      { rounds with
        activeRound := rounds.activeRound.map fun round => round.withPool side amount
        position := rounds.position.set (roundId, user) { amount := amount, side := side } }
  | .onPrice user amount predictedPrice =>
      { rounds with
        precisionPosition := rounds.precisionPosition.set (roundId, user)
          { user := user, predictedPrice := predictedPrice, amount := amount } }

/-- The storage after an open stake in a round, apart from the list of participants. -/
def Storage.seat (s : Storage A) (roundId : ℕ) (stake : OpenStake A) : Storage A :=
  { s with
    vault := { s.vault with balance := s.vault.balance.raise stake.user (-stake.amount) }
    rounds := s.rounds.seat roundId stake }

omit [DecidableEq A] in
theorem withPool_right_comm (round : Round) (side side' : BetSide) (amount amount' : ℤ) :
    (round.withPool side amount).withPool side' amount' =
      (round.withPool side' amount').withPool side amount := by
  cases side <;> cases side' <;> simp [Round.withPool, add_right_comm]

/-- Stakes of different users commute. -/
theorem Rounds.seat_right_comm (rounds : Rounds A) (roundId : ℕ) {stake stake' : OpenStake A}
    (hapart : stake.user ≠ stake'.user) :
    (rounds.seat roundId stake).seat roundId stake' =
      (rounds.seat roundId stake').seat roundId stake := by
  cases stake with
  | onSide user amount side =>
      cases stake' with
      | onSide user' amount' side' =>
          have hkey : (roundId, user) ≠ (roundId, user') := fun h => hapart (Prod.mk.inj h).2
          have hpools : ((fun round : Round => round.withPool side' amount') ∘
              fun round : Round => round.withPool side amount) =
              (fun round : Round => round.withPool side amount) ∘
                fun round : Round => round.withPool side' amount' :=
            funext fun round => withPool_right_comm round side side' amount amount'
          simp only [Rounds.seat, Option.map_map, hpools]
          rw [Store.set_comm _ _ _ hkey]
      | onPrice user' amount' price' => rfl
  | onPrice user amount price =>
      cases stake' with
      | onSide user' amount' side' => rfl
      | onPrice user' amount' price' =>
          have hkey : (roundId, user) ≠ (roundId, user') := fun h => hapart (Prod.mk.inj h).2
          simp only [Rounds.seat]
          rw [Store.set_comm _ _ _ hkey]

theorem Storage.seat_right_comm (s : Storage A) (roundId : ℕ) {stake stake' : OpenStake A}
    (hapart : stake.user ≠ stake'.user) :
    (s.seat roundId stake).seat roundId stake' = (s.seat roundId stake').seat roundId stake := by
  unfold Storage.seat
  rw [Rounds.seat_right_comm _ _ hapart, Store.raise_right_comm]

/-- Stakes of distinct users lead to the same storage in every order. -/
theorem foldl_seat_perm (s : Storage A) (roundId : ℕ) {stakes stakes' : List (OpenStake A)}
    (hperm : stakes'.Perm stakes) (hdistinct : (stakes.map (·.user)).Nodup) :
    stakes'.foldl (Storage.seat · roundId) s = stakes.foldl (Storage.seat · roundId) s := by
  refine hperm.foldl_eq' ?_ s
  intro stake hstake stake' hstake' s
  by_cases huser : stake.user = stake'.user
  · -- one user, one stake
    obtain rfl := List.inj_on_of_nodup_map hdistinct (hperm.mem_iff.mp hstake)
      (hperm.mem_iff.mp hstake') huser
    rfl
  · exact s.seat_right_comm roundId huser

end DecidableAddress

variable [LinearOrder A] {host : Host A} {chain chain' : Chain A}

/-! ## Placing the stakes -/

/-- What passes between the calls: ledgers close, temporary entries expire, the oracle reports its
heartbeat. -/
inductive Action.Idle : Action A → Prop where
  | closeLedger (ledger : Ledger) : Action.Idle (.closeLedger ledger)
  | expire (key : TemporaryKey) : Action.Idle (.expire key)
  | heartbeat (signers : List A) (status : ℕ) :
      Action.Idle (.invoke signers (.control (.updateOracleHeartbeat status)))

/-- `Invokes host chain calls chain'`: from `chain` the calls succeed in this order, with any time
passing in between. -/
inductive Invokes (host : Host A) : Chain A → List (Call A) → Chain A → Prop where
  | done (chain : Chain A) : Invokes host chain [] chain
  | idle {chain next last : Chain A} {calls : List (Call A)} (action : Action A)
      (hidle : action.Idle) (hstep : Step host chain action next)
      (hrest : Invokes host next calls last) : Invokes host chain calls last
  | invoke {chain next last : Chain A} {calls : List (Call A)} (signers : List A) (call : Call A)
      (hstep : Step host chain (.invoke signers call) next)
      (hrest : Invokes host next calls last) : Invokes host chain (call :: calls) last

theorem Step.passes {action : Action A} (hstep : Step host chain action chain')
    (hidle : action.Idle) : chain.storage.Passes chain'.storage := by
  cases hidle with
  | closeLedger ledger =>
      cases hstep
      exact ⟨_, _, rfl⟩
  | expire key =>
      cases hstep
      exact ⟨_, _, rfl⟩
  | heartbeat signers status =>
      have hbeat : Transaction.Ensures (Call.control (.updateOracleHeartbeat status)).exec
          ⟨host, chain.ledger, signers⟩ chain.storage fun _ s' => chain.storage.Passes s' := by
        simp only [Call.exec, ControlCall.exec, XelmaMarket.updateOracleHeartbeat, updateSettings,
          ensures_onControl, Transaction.ensures_bind, ensures_requireSupportedSchema,
          ensures_reject, Transaction.ensures_gets, ensures_orError, ensures_requireAuth,
          ensures_ledgerTimestamp, Transaction.ensures_update]
        exact fun _ _ _ _ _ => ⟨_, _, rfl⟩
      exact hstep.ensured hbeat

omit [LinearOrder A] in
theorem Storage.Passes.trans {s s' s'' : Storage A} (hfirst : s.Passes s')
    (hsecond : s'.Passes s'') : s.Passes s'' := by
  obtain ⟨meter, heartbeat, rfl⟩ := hfirst
  obtain ⟨meter', heartbeat', rfl⟩ := hsecond
  exact ⟨meter', heartbeat', rfl⟩

omit [LinearOrder A] in
theorem Storage.Passes.refl (s : Storage A) : s.Passes s :=
  ⟨s.meter, s.control.settings.oracleHeartbeat, rfl⟩

/-- `s'` is `s` after open stakes were placed in the active round, one after the other. -/
structure Seats (s s' : Storage A) (roundId : ℕ) (stakes : List (OpenStake A)) : Prop where
  rest : s'.unlisted = stakes.foldl (Storage.seat · roundId) s.unlisted
  participants : s'.rounds.participants roundId =
    s.rounds.participants roundId ++ stakes.map (·.user)
  active : ∃ round, s'.rounds.activeRound = some round ∧ round.roundId = roundId

theorem Seats.nil {s : Storage A} {roundId : ℕ}
    (hactive : ∃ round, s.rounds.activeRound = some round ∧ round.roundId = roundId) :
    Seats s s roundId [] :=
  ⟨rfl, by simp, hactive⟩

/-- A call that places an open stake places it in the active round. -/
theorem Step.seats {signers : List A} {call : Call A} {stake : OpenStake A} {roundId : ℕ}
    (hstep : Step host chain (.invoke signers call) chain') (hstake : call.openStake = some stake)
    (hactive : ∃ round, chain.storage.rounds.activeRound = some round ∧ round.roundId = roundId) :
    Seats chain.storage chain'.storage roundId [stake] := by
  obtain ⟨round, hround, rfl⟩ := hactive
  have hpredict : ∀ user amount predictedPrice, stake = .onPrice user amount predictedPrice →
      Transaction.Ensures (placePrecisionPrediction user amount predictedPrice)
        ⟨host, chain.ledger, signers⟩ chain.storage
        fun _ s' => Seats chain.storage s' round.roundId [stake] := by
    rintro user amount predictedPrice rfl
    refine (placePrecisionPrediction_spec user amount predictedPrice).mono ?_
    rintro _ _ ⟨round', hallowed, -, -, -, rfl⟩
    obtain rfl := Option.some.inj (hround.symm.trans hallowed.active)
    constructor
    · simp [Storage.unlisted, Storage.pass, Storage.seat, Rounds.seat, Rounds.predict, Rounds.join,
        Vault.debit, Vault.balanceOf, Store.raise, OpenStake.user, OpenStake.amount,
        sub_eq_add_neg]
    · simp [Rounds.predict, Rounds.join, Rounds.participants, Store.getD_set, OpenStake.user]
    · exact ⟨round, hround, rfl⟩
  cases call with
  | placeBet user amount side =>
      obtain rfl := Option.some.inj hstake
      obtain ⟨round', hallowed, -, -, hs'⟩ := hstep.ensured (placeBet_spec user amount side)
      obtain rfl := Option.some.inj (hround.symm.trans hallowed.active)
      rw [hs']
      constructor
      · simp [Storage.unlisted, Storage.pass, Storage.seat, Rounds.seat, Rounds.bet, Rounds.join,
          Vault.debit, Vault.balanceOf, Store.raise, OpenStake.user, OpenStake.amount,
          sub_eq_add_neg, hround]
      · simp [Rounds.bet, Rounds.join, Rounds.participants, Store.getD_set, OpenStake.user]
      · exact ⟨_, rfl, withPool_roundId side amount⟩
  | placePrecisionPrediction user amount predictedPrice | predictPrice user predictedPrice amount =>
      exact hstep.ensured (hpredict user amount predictedPrice (Option.some.inj hstake).symm)
  | _ => cases hstake

theorem Seats.trans {s s' s'' : Storage A} {roundId : ℕ} {stakes stakes' : List (OpenStake A)}
    (hfirst : Seats s s' roundId stakes) (hsecond : Seats s' s'' roundId stakes') :
    Seats s s'' roundId (stakes ++ stakes') where
  rest := by rw [hsecond.rest, hfirst.rest, List.foldl_append]
  participants := by
    rw [hsecond.participants, hfirst.participants, List.map_append, List.append_assoc]
  active := hsecond.active

/-- Calls that place open stakes, with any time in between, place them in their order. -/
theorem Invokes.seats {calls : List (Call A)} {stakes : List (OpenStake A)} {roundId : ℕ}
    (hinvokes : Invokes host chain calls chain')
    (hstakes : calls.map Call.openStake = stakes.map some)
    (hactive : ∃ round, chain.storage.rounds.activeRound = some round ∧ round.roundId = roundId) :
    Seats chain.storage chain'.storage roundId stakes := by
  induction hinvokes generalizing stakes with
  | done chain =>
      obtain rfl : stakes = [] := by simpa using hstakes.symm
      exact .nil hactive
  | idle action hidle hstep hrest ih =>
      obtain ⟨meter, heartbeat, hsame⟩ := hstep.passes hidle
      have hseats := ih hstakes (by simpa only [hsame, pass_rounds] using hactive)
      exact ⟨by rw [hseats.rest, hsame]; rfl, by rw [hseats.participants, hsame]; rfl, hseats.active⟩
  | invoke signers call hstep hrest ih =>
      cases stakes with
      | nil => simp at hstakes
      | cons stake stakes =>
          obtain ⟨hstake, hrestStakes⟩ := List.cons.inj hstakes
          have hfirst := hstep.seats hstake hactive
          exact hfirst.trans (ih hrestStakes hfirst.active)

/-! ## Ends of two alike rounds -/

/-- Two storages that agree on the accounts, the statistics, the terms and the stakes of a round,
and on who takes part in it. -/
structure Alike (s s' : Storage A) (roundId : ℕ) : Prop where
  vault : s'.vault = s.vault
  stats : s'.stats = s.stats
  terms : s'.control.settings.terms = s.control.settings.terms
  stakes : SameStakes s.rounds s'.rounds roundId
  participants : (s'.rounds.participants roundId).Perm (s.rounds.participants roundId)

omit [LinearOrder A] in
theorem Alike.symm {s s' : Storage A} {roundId : ℕ} (halike : Alike s s' roundId) :
    Alike s' s roundId :=
  ⟨halike.vault.symm, halike.stats.symm, halike.terms.symm, halike.stakes.symm,
    halike.participants.symm⟩

omit [LinearOrder A] in
theorem Alike.trans {s s' s'' : Storage A} {roundId : ℕ} (hfirst : Alike s s' roundId)
    (hsecond : Alike s' s'' roundId) : Alike s s'' roundId :=
  ⟨hsecond.vault.trans hfirst.vault, hsecond.stats.trans hfirst.stats,
    hsecond.terms.trans hfirst.terms, hfirst.stakes.trans hsecond.stakes,
    hsecond.participants.trans hfirst.participants⟩

/-- The accounts and the rankings are the same: balances, pending winnings, treasury and insurance
fund, and the statistics of every user with the lifetime and season leaderboards. -/
structure SameResults (s s' : Storage A) : Prop where
  balance : s'.vault.balance = s.vault.balance
  pendingWinnings : s'.vault.pendingWinnings = s.vault.pendingWinnings
  treasury : s'.vault.protocolFeeTreasury = s.vault.protocolFeeTreasury
  insuranceFund : s'.vault.insFundBal = s.vault.insFundBal
  stats : s'.stats = s.stats

theorem Vault.creditAll_pendingWinnings (vault : Vault A) (ledger : ℕ) (credits : List (A × ℤ)) :
    (vault.creditAll ledger credits).pendingWinnings =
      credits.foldl (fun pending credit => pending.raise credit.1 credit.2)
        vault.pendingWinnings := by
  induction credits generalizing vault with
  | nil => rfl
  | cons credit rest ih =>
      rw [Vault.creditAll_cons, ih]
      rfl

/-- Credits in another order raise the pending winnings the same. -/
theorem Vault.creditAll_perm (vault : Vault A) (ledger ledger' : ℕ) {credits credits' : List (A × ℤ)}
    (hperm : credits'.Perm credits) :
    (vault.creditAll ledger' credits').pendingWinnings =
      (vault.creditAll ledger credits).pendingWinnings := by
  rw [Vault.creditAll_pendingWinnings, Vault.creditAll_pendingWinnings]
  exact hperm.foldl_eq' (fun _ _ _ _ pending => pending.raise_right_comm _ _ _ _) _

/-- How a round is settled at a price: below the minimum of participants it is refunded. -/
structure Ending.Settles (ending : Ending) (round : Round) (finalPrice : ℕ) (below : Bool) : Prop where
  round : ending.round = round
  kind : if below then ending.kind = .fallbackRefund else ending.kind.price = some finalPrice

section Ends

variable {s s' t t' : Storage A} {ledger ledger' : ℕ} {ending ending' : Ending} {round : Round}
  {finalPrice : ℕ} {below : Bool}

/-- A settlement pays its plan and no coverage. -/
theorem Ends.vault_of_settles (hends : Ends ledger ending s t)
    (hsettles : ending.Settles round finalPrice below) :
    t.vault = (s.vault.collectFee s.control.settings.insuranceSplitBps
      (ending.plan s.control.settings.terms s.rounds).fee).creditAll ledger
        (creditsOf (ending.plan s.control.settings.terms s.rounds).records) := by
  have hzero : s.coveragePaid ending = 0 := by
    have hkind := hsettles.kind
    cases below with
    | true => simp [Storage.coveragePaid, Ending.isCovered, show ending.kind = _ from hkind]
    | false => exact coveragePaid_of_price hkind
  rw [hends.vault, coverageCredits_eq_nil hzero, hzero]
  rfl

/-- Alike rounds settled at one price give the same results. -/
theorem Ends.sameResults (hends : Ends ledger ending s t) (hends' : Ends ledger' ending' s' t')
    (halike : Alike s s' round.roundId) (hsettles : ending.Settles round finalPrice below)
    (hsettles' : ending'.Settles round finalPrice below) : SameResults t t' := by
  have hsplit : s'.control.settings.insuranceSplitBps = s.control.settings.insuranceSplitBps :=
    congrArg Terms.insuranceSplitBps halike.terms
  -- the plans have one fee, and the records of one are those of the other in some order
  suffices hplan : (ending'.plan s'.control.settings.terms s'.rounds).fee =
        (ending.plan s.control.settings.terms s.rounds).fee ∧
      (ending'.plan s'.control.settings.terms s'.rounds).records.Perm
        (ending.plan s.control.settings.terms s.rounds).records ∧
      s.stats.countAll (ending'.plan s'.control.settings.terms s'.rounds).records =
        s.stats.countAll (ending.plan s.control.settings.terms s.rounds).records by
    obtain ⟨hfee, hrecords, hstats⟩ := hplan
    have hvault := hends.vault_of_settles hsettles
    have hvault' := hends'.vault_of_settles hsettles'
    rw [halike.vault, hsplit, hfee] at hvault'
    refine ⟨?_, ?_, ?_, ?_, ?_⟩
    · simp [hvault, hvault']
    · rw [hvault, hvault']
      exact Vault.creditAll_perm _ _ _ ((hrecords.filter _).map _)
    · simp [hvault, hvault']
    · simp [hvault, hvault']
    · rw [hends.stats, hends'.stats, halike.stats, hstats]
  obtain ⟨rfl, hkind⟩ := hsettles
  obtain ⟨hround, hkind'⟩ := hsettles'
  rw [halike.terms]
  cases below with
  | false =>
      have hplan : ending'.plan s.control.settings.terms s'.rounds =
          ending.plan s.control.settings.terms s.rounds := by
        rw [Ending.plan_of_price (show ending'.kind.price = _ from hkind'),
          Ending.plan_of_price (show ending.kind.price = _ from hkind), hround]
        exact halike.stakes.plan halike.participants _ _
      rw [hplan]
      exact ⟨rfl, .refl _, rfl⟩
  | true =>
      have hrefund : ∀ (refund : Ending) (rounds : Rounds A), refund.kind = .fallbackRefund →
          refund.plan s.control.settings.terms rounds = ⟨0, rounds.refundRecords refund.round
            (fun _ => 0) .refund (rounds.participants refund.round.roundId)⟩ :=
        fun refund rounds h => by simp only [Ending.plan, h]
      have hcounts : ∀ (rounds : Rounds A) (participants : List A), s.stats.countAll
          (rounds.refundRecords ending.round (fun _ => 0) .refund participants) = s.stats := by
        refine fun rounds participants => Stats.countAll_eq_self fun record hrecord => ?_
        obtain ⟨user, -, rfl⟩ := List.mem_map.mp hrecord
        simp [UserRoundOutcome.counts]
      rw [hrefund ending' s'.rounds hkind', hrefund ending s.rounds hkind, hround]
      refine ⟨rfl, ?_, by rw [hcounts, hcounts]⟩
      rw [halike.stakes.refundRecords]
      exact halike.participants.map _

end Ends

/-! ## Settling -/

/-- The active round is settled at a price: a resolving call succeeds, and the round is finalized
when that only staged it, so it is not left in its dispute window. -/
def SettlesAt (host : Host A) (finalPrice roundId : ℕ) (chain chain' : Chain A) : Prop :=
  ∃ call later, call.price = some finalPrice ∧
    (later = [] ∨ later = [Call.finalizeRound roundId]) ∧
    Invokes host chain (call :: later) chain' ∧
    chain'.storage.rounds.pendingDisputes.get roundId = none

theorem Invokes.healthy {calls : List (Call A)} (hinvokes : Invokes host chain calls chain')
    (hhealthy : chain.Healthy) : chain'.Healthy := by
  induction hinvokes with
  | done chain => exact hhealthy
  | idle action hidle hstep hrest ih => exact ih (hstep.healthy hhealthy)
  | invoke signers call hstep hrest ih => exact ih (hstep.healthy hhealthy)

theorem Invokes.nil_inv (hinvokes : Invokes host chain [] chain') :
    chain.storage.Passes chain'.storage := by
  generalize hcalls : ([] : List (Call A)) = calls at hinvokes
  induction hinvokes with
  | done chain => exact .refl _
  | idle action hidle hstep hrest ih => exact (hstep.passes hidle).trans (ih hcalls)
  | invoke => cases hcalls

/-- The first of several calls runs after some idle time. -/
theorem Invokes.cons_inv {call : Call A} {calls : List (Call A)}
    (hinvokes : Invokes host chain (call :: calls) chain') (hhealthy : chain.Healthy) :
    ∃ before next signers, chain.storage.Passes before.storage ∧ before.Healthy ∧
      Step host before (.invoke signers call) next ∧ Invokes host next calls chain' := by
  generalize hcalls : call :: calls = all at hinvokes
  induction hinvokes with
  | done chain => cases hcalls
  | idle action hidle hstep hrest ih =>
      obtain ⟨before, next, signers, hpasses, hothers⟩ := ih (hstep.healthy hhealthy) hcalls
      exact ⟨before, next, signers, (hstep.passes hidle).trans hpasses, hothers⟩
  | @invoke chain next last _ signers _ hstep hrest =>
      obtain ⟨rfl, rfl⟩ := List.cons.inj hcalls
      exact ⟨chain, next, signers, .refl _, hhealthy, hstep, hrest⟩

omit [LinearOrder A] in
/-- How the active round ends when it is settled at a price. -/
theorem settles_of_resolution {s : Storage A} {round : Round} {finalPrice : ℕ} {ending : Ending}
    (hactive : s.rounds.activeRound = some round)
    (hending : s.resolution finalPrice = some ending) : ending.Settles round finalPrice
      (s.control.settings.belowMinimum (s.rounds.participants round.roundId).length) := by
  simp only [Storage.resolution, hactive] at hending
  split at hending
  · next hbelow =>
      obtain rfl := Option.some.inj hending
      exact ⟨rfl, by rw [if_pos hbelow]⟩
  · next habove =>
      split at hending
      · cases hending
      · obtain rfl := Option.some.inj hending
        exact ⟨rfl, by rw [if_neg habove]; rfl⟩

omit [LinearOrder A] in
/-- A round below the minimum of participants is not staged. -/
theorem not_below_of_staged {s : Storage A} {round : Round} {finalPrice : ℕ}
    (hactive : s.rounds.activeRound = some round) (hstaged : s.resolution finalPrice = none) :
    s.control.settings.belowMinimum (s.rounds.participants round.roundId).length = false := by
  simp only [Storage.resolution, hactive] at hstaged
  split at hstaged
  · cases hstaged
  · next habove => simpa using habove

/-- A call that settles a round keeps the terms. -/
theorem Step.terms_of_price {signers : List A} {call : Call A} {finalPrice : ℕ}
    (hstep : Step host chain (.invoke signers call) chain')
    (hprice : call.price = some finalPrice) :
    chain'.storage.control.settings.terms = chain.storage.control.settings.terms := by
  have hplain : call.governs = false := by
    cases call with
    | resolveRound | resolveRoundMulti => rfl
    | _ => cases hprice
  obtain ⟨schemaVersion, migratedToV3, config, armed, -, hcontrol⟩ :=
    hstep.ensured (Call.ensures_market hplain)
  rw [hcontrol]
  rfl

/-- A settlement ends the round from a storage like the one it started from, at once or after the
dispute window. -/
theorem SettlesAt.ends {finalPrice : ℕ} {round : Round} (hhealthy : chain.Healthy)
    (hactive : chain.storage.rounds.activeRound = some round)
    (hsettles : SettlesAt host finalPrice round.roundId chain chain') :
    ∃ ledger ending s s', Alike chain.storage s round.roundId ∧
      ending.Settles round finalPrice (chain.storage.control.settings.belowMinimum
        (chain.storage.rounds.participants round.roundId).length) ∧
      Ends ledger ending s s' ∧ s'.Passes chain'.storage := by
  obtain ⟨call, later, hprice, hlater, hinvokes, hgone⟩ := hsettles
  obtain ⟨before, next, signers, ⟨meter, heartbeat, hbefore⟩, hhealthyBefore, hstep, hrest⟩ :=
    hinvokes.cons_inv hhealthy
  obtain ⟨round', -, hsettled⟩ := Chain.Healthy.settled hhealthyBefore hstep hprice
  have hactiveBefore : before.storage.rounds.activeRound = some round := by
    rw [hbefore]
    exact hactive
  obtain rfl := Option.some.inj (hactiveBefore.symm.trans hsettled.active)
  have hhealthyNext := hstep.healthy hhealthyBefore
  have hbelow : chain.storage.control.settings.belowMinimum
      (chain.storage.rounds.participants round.roundId).length =
      before.storage.control.settings.belowMinimum
        (before.storage.rounds.participants round.roundId).length := by
    rw [hbefore, pass_belowMinimum, pass_rounds]
  have halike : Alike chain.storage before.storage round.roundId := by
    rw [hbefore]
    exact ⟨rfl, rfl, rfl, ⟨fun _ => rfl, fun _ => rfl, fun _ => rfl⟩, .refl _⟩
  cases hresolution : before.storage.resolution finalPrice with
  | some ending =>
      have hends := hsettled.ends ending hresolution
      have hkind := settles_of_resolution hactiveBefore hresolution
      rcases hlater with rfl | rfl
      · exact ⟨_, ending, _, _, halike, hbelow ▸ hkind, hends, hrest.nil_inv⟩
      · -- the round ended at once, so there is nothing to finalize
        obtain ⟨later, last, signers', ⟨meter', heartbeat', hlater⟩, hhealthyLater, hstep', -⟩ :=
          hrest.cons_inv hhealthyNext
        obtain ⟨pending, hpending, -⟩ := Chain.Healthy.finalized hhealthyLater hstep'
        obtain ⟨-, -, hstaged⟩ := resolution_active hresolution
        rw [hlater, pass_rounds, hends.rounds, hstaged,
          hhealthyBefore.ordered.active_not_staged round hactiveBefore] at hpending
        cases hpending
  | none =>
      obtain ⟨pending, hfinal, hround, -, hvault, hrounds, -, hstats⟩ := hsettled.staged hresolution
      have hpending : next.storage.rounds.pendingDisputes.get round.roundId = some pending := by
        rw [hrounds, ← hround]
        exact Store.get_set_self _ _ _
      rcases hlater with rfl | rfl
      · -- the round would be left staged
        obtain ⟨meter', heartbeat', hlast⟩ := hrest.nil_inv
        rw [hlast, pass_rounds, hpending] at hgone
        cases hgone
      · obtain ⟨later, last, signers', ⟨meter', heartbeat', hlater⟩, hhealthyLater, hstep', hrest'⟩ :=
          hrest.cons_inv hhealthyNext
        obtain ⟨pending', hpending', -, hends⟩ := Chain.Healthy.finalized hhealthyLater hstep'
        have hsame : later.storage.rounds.pendingDisputes.get round.roundId = some pending := by
          rw [hlater]
          exact hpending
        obtain rfl := Option.some.inj (hpending'.symm.trans hsame)
        refine ⟨_, _, _, _, halike.trans ?_, ⟨hround, ?_⟩, hends, hrest'.nil_inv⟩
        · rw [hlater]
          refine ⟨hvault, hstats, hstep.terms_of_price hprice, ?_, ?_⟩
          · rw [pass_rounds, hrounds]
            exact ⟨fun _ => rfl, fun _ => rfl, fun _ => rfl⟩
          · rw [pass_rounds, hrounds]
            exact .refl _
        · rw [hbelow, not_below_of_staged hactiveBefore hresolution, hfinal]
          rfl

omit [LinearOrder A] in
/-- Two storages that agree but for the lists of participants and what time changes are alike. -/
theorem alike_of_unlisted {s s' : Storage A} {roundId : ℕ} (hsame : s'.unlisted = s.unlisted)
    (hperm : (s'.rounds.participants roundId).Perm (s.rounds.participants roundId)) :
    Alike s s' roundId ∧
      s'.control.settings.belowMinimum = s.control.settings.belowMinimum ∧
      s'.rounds.activeRound = s.rounds.activeRound := by
  have hterms : s'.control.settings.terms = s.control.settings.terms := by
    show s'.unlisted.control.settings.terms = s.unlisted.control.settings.terms
    rw [hsame]
  have hminimum : s'.control.settings.belowMinimum = s.control.settings.belowMinimum := by
    show s'.unlisted.control.settings.belowMinimum = s.unlisted.control.settings.belowMinimum
    rw [hsame]
  simp only [Storage.unlisted, Storage.pass, Storage.mk.injEq, Rounds.mk.injEq] at hsame
  obtain ⟨-, hvault, ⟨hactive, -, -, -, hposition, hprediction, hcommitment, -⟩, -, -, hstats,
    -⟩ := hsame
  refine ⟨⟨hvault, hstats, hterms, ?_, hperm⟩, hminimum, hactive⟩
  exact ⟨fun user => by rw [hposition], fun user => by rw [hprediction],
    fun user => by rw [hcommitment]⟩

/-- The order of betting does not matter. From any reachable chain with an active round, let bets or
direct predictions by distinct users succeed in two orders, and let the round be settled at the same
price after either: then all accounts and all rankings are the same. -/
theorem bet_order_irrelevant {opened placed placed' settled settled' : Chain A} {round : Round}
    {stakes stakes' : List (OpenStake A)} {calls calls' : List (Call A)} {finalPrice : ℕ}
    (hreachable : Reachable host opened)
    (hactive : opened.storage.rounds.activeRound = some round)
    (hdistinct : (stakes.map (·.user)).Nodup) (hperm : stakes'.Perm stakes)
    (hcalls : calls.map Call.openStake = stakes.map some)
    (hcalls' : calls'.map Call.openStake = stakes'.map some)
    (hplaced : Invokes host opened calls placed) (hplaced' : Invokes host opened calls' placed')
    (hsettled : SettlesAt host finalPrice round.roundId placed settled)
    (hsettled' : SettlesAt host finalPrice round.roundId placed' settled') :
    SameResults settled.storage settled'.storage := by
  have hseats := hplaced.seats hcalls ⟨round, hactive, rfl⟩
  have hseats' := hplaced'.seats hcalls' ⟨round, hactive, rfl⟩
  have hsame : placed'.storage.unlisted = placed.storage.unlisted := by
    rw [hseats.rest, hseats'.rest, foldl_seat_perm _ _ hperm hdistinct]
  have hlisted : (placed'.storage.rounds.participants round.roundId).Perm
      (placed.storage.rounds.participants round.roundId) := by
    rw [hseats.participants, hseats'.participants]
    exact (hperm.map _).append_left _
  obtain ⟨halike, hminimum, hround⟩ := alike_of_unlisted hsame hlisted
  -- both settlements end the round they find active, which has one record in the two runs
  obtain ⟨filled, hfilled, hid⟩ := hseats.active
  rw [← hid] at hsettled hsettled' halike hlisted
  obtain ⟨ledger, ending, s, t, hbefore, hsettles, hends, meter,
    heartbeat, hlast⟩ :=
    hsettled.ends (hplaced.healthy hreachable.healthy) hfilled
  obtain ⟨ledger', ending', s', t', hbefore', hsettles', hends', meter',
    heartbeat', hlast'⟩ :=
    hsettled'.ends (hplaced'.healthy hreachable.healthy) (hround.trans hfilled)
  rw [hminimum, hlisted.length_eq] at hsettles'
  have hresults := hends.sameResults hends' (hbefore.symm.trans (halike.trans hbefore')) hsettles
    hsettles'
  rw [hlast, hlast']
  exact ⟨hresults.balance, hresults.pendingWinnings, hresults.treasury, hresults.insuranceFund,
    hresults.stats⟩

/-- The calls an action makes, but what passes between the calls. -/
def Action.calls : Action A → List (Call A)
  | .invoke _ (.control (.updateOracleHeartbeat _)) | .closeLedger _ | .expire _ => []
  | .invoke _ call => [call]

/-- Actions that all happen make their calls. -/
theorem invokes_of_performAll {actions : List (Action A)}
    (hperform : chain.performAll host actions = some chain') :
    Invokes host chain (actions.flatMap Action.calls) chain' := by
  induction actions generalizing chain with
  | nil =>
      obtain rfl := Option.some.inj hperform
      exact .done chain
  | cons action rest ih =>
      obtain ⟨next, hnext, hrest⟩ := Option.bind_eq_some_iff.mp hperform
      have hstep := perform_eq_some_iff.mp hnext
      rw [List.flatMap_cons]
      unfold Action.calls
      split
      · exact .idle _ (.heartbeat _ _) hstep (ih hrest)
      · exact .idle _ (.closeLedger _) hstep (ih hrest)
      · exact .idle _ (.expire _) hstep (ih hrest)
      · exact .invoke _ _ hstep (ih hrest)

/-- Users 3 and 4 bet in either order, and the round is settled at 101. -/
theorem bet_order_irrelevant_swapped : ∃ opened placed placed' settled settled' : Chain ℕ,
    ∃ round, Reachable trialHost opened ∧ opened.storage.rounds.activeRound = some round ∧
      Invokes trialHost opened [.placeBet 3 70 .up, .placeBet 4 30 .down] placed ∧
      Invokes trialHost opened [.placeBet 4 30 .down, .placeBet 3 70 .up] placed' ∧
      SettlesAt trialHost 101 round.roundId placed settled ∧
      SettlesAt trialHost 101 round.roundId placed' settled' ∧
      SameResults settled.storage settled'.storage := by
  have htrial : (((Chain.genesis (ledgerAt 1)).performAll trialHost
      (trialSetup ++ [.invoke [1] (.createRound 100 (some 0))])).any fun opened =>
        [[Action.invoke [3] (.placeBet 3 70 .up), .invoke [4] (.placeBet 4 30 .down)],
          [Action.invoke [4] (.placeBet 4 30 .down), .invoke [3] (.placeBet 3 70 .up)]].all
          fun bets => (opened.performAll trialHost bets).any fun placed =>
            (placed.performAll trialHost [.closeLedger (ledgerAt 20),
              .invoke [2] (.control (.updateOracleHeartbeat 0)),
              .invoke [2] (.resolveRound (trialPayload 1 101 100))]).any fun settled =>
              decide (opened.storage.rounds.activeRound.map (·.roundId) = some 1 ∧
                settled.storage.rounds.pendingDisputes.get 1 = none)) = true := by
    decide +kernel
  simp only [Option.any_eq_true, List.all_cons, List.all_nil, Bool.and_true, Bool.and_eq_true,
    decide_eq_true_eq, Option.map_eq_some_iff] at htrial
  obtain ⟨opened, hopened, ⟨placed, hplaced, settled, hsettled, ⟨round, hactive, hid⟩, hgone⟩,
    placed', hplaced', settled', hsettled', -, hgone'⟩ := htrial
  have hreachable := reachable_of_performAll hopened
  have hbets := invokes_of_performAll hplaced
  have hbets' := invokes_of_performAll hplaced'
  have hends : SettlesAt trialHost 101 round.roundId placed settled :=
    ⟨_, [], rfl, .inl rfl, invokes_of_performAll hsettled, hid ▸ hgone⟩
  have hends' : SettlesAt trialHost 101 round.roundId placed' settled' :=
    ⟨_, [], rfl, .inl rfl, invokes_of_performAll hsettled', hid ▸ hgone'⟩
  have hresults := @bet_order_irrelevant _ _ _ _ _ _ _ _ _
    [.onSide 3 70 .up, .onSide 4 30 .down] [.onSide 4 30 .down, .onSide 3 70 .up] _ _ _ hreachable
    hactive (by decide) (.swap _ _ _) rfl rfl hbets hbets' hends hends'
  exact ⟨opened, placed, placed', settled, settled', round, hreachable, hactive, hbets, hbets',
    hends, hends', hresults⟩

end XelmaMarket
