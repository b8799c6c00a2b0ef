import XelmaMarket.RoundLife
import XelmaMarket.Script
import XelmaMarket.Timelock

/-!
# The limits of a Precision round

A direct prediction is checked against the cap on participants and against the range of prices. A
commitment joins the same list of participants without the first check, and its reveal stores a
price without the second. So the cap binds every round nobody commits into once it is full, and the
range binds every prediction that was not revealed beyond it.
-/

namespace XelmaMarket

open Transaction

variable {A : Type} [LinearOrder A]

/-! ## The list of participants -/

/-- What a successful call does to the participants of a round: those who stay keep their
positions, or a user is appended to the list of the active round. -/
inductive ListChange (s : Storage A) (call : Call A) (s' : Storage A) (roundId : ℕ) : Prop where
  | shrunk
      (hlist : (s'.rounds.participants roundId).Sublist (s.rounds.participants roundId))
      (hkept : ∀ user ∈ s'.rounds.participants roundId,
        s'.rounds.position.get (roundId, user) = s.rounds.position.get (roundId, user))
  | joined (round : Round) (user : A) (amount : ℤ)
      (hround : s.rounds.activeRound = some round) (hid : round.roundId = roundId)
      (hplaced : Placement s.rounds round user amount call s'.rounds)
      (hlist : s'.rounds.participants roundId = s.rounds.participants roundId ++ [user])

section ListChange

variable {env : Env A} {s s' : Storage A} {call : Call A} {roundId : ℕ}

theorem SameBook.listChange (hsame : SameBook s.rounds s'.rounds roundId) :
    ListChange s call s' roundId :=
  .shrunk (by rw [hsame.participants]) fun user _ => hsame.position user

/-- A successful call changes the list of a round in one of the two ways. -/
theorem Effect.listChange (hordered : s.rounds.Ordered) (heffect : Effect env s call s')
    (roundId : ℕ) : ListChange s call s' roundId := by
  cases heffect with
  | quiet _ _ hsame =>
      exact SameBook.listChange (hsame.rounds ▸ .refl _ _)
  | mint _ _ _ _ _ hsame | treasuryAddress _ _ _ _ _ _ _ _ hsame | payFee _ _ _ _ _ _ _ hsame
  | payFund _ _ _ _ _ _ _ hsame | topUp _ _ _ _ _ _ _ hsame
  | reclaim _ _ _ _ _ _ _ _ _ _ _ hsame | claim _ _ _ _ _ _ hsame =>
      exact SameBook.listChange (hsame.rounds ▸ .refl _ _)
  | openRound _ _ _ _ _ _ _ _ _ hrounds | stage _ _ _ _ _ _ _ _ _ _ hrounds =>
      refine SameBook.listChange ?_
      rw [hrounds]
      exact ⟨rfl, fun _ => rfl, fun _ => rfl, fun _ => rfl⟩
  | stake _ round user amount _ hround _ _ hamount _ hplaced =>
      have hjoined := hplaced.joined (hordered.active_represented hround) hround hamount.1
      by_cases hid : round.roundId = roundId
      · exact .joined round user amount hround hid hplaced (hid ▸ hjoined.participants)
      · exact SameBook.listChange (hjoined.other roundId (Ne.symm hid))
  | reveal round user price salt commitment _ hround _ _ _ _ hrounds =>
      refine .shrunk ?_ fun other _ => ?_
      · rw [hrounds]
        exact .refl _
      · rw [hrounds]
        rfl
  | cashOut round user position _ _ hround _ _ _ _ _ _ hrounds =>
      by_cases hid : roundId = round.roundId
      · subst hid
        refine .shrunk ?_ fun other hother => ?_
        · rw [hrounds, leave_participants]
          exact List.filter_sublist
        · rw [hrounds, leave_participants] at hother
          have hne : other ≠ user := by simpa using (List.mem_filter.mp hother).2
          rw [hrounds, leave_position_of_ne hne]
      · exact SameBook.listChange (hrounds ▸ leave_sameBook hid)
  | ending _ ending _ hending hends =>
      by_cases hid : roundId = ending.round.roundId
      · subst hid
        have hnone := (hends.over hordered hending).no_book.participants
        exact .shrunk (by simp [hnone]) (by simp [hnone])
      · exact SameBook.listChange (hends.rounds ▸ roundsAfter_other ending hid)

end ListChange

/-! ## The cap on participants -/

/-- A Precision round: its live record says so, or somebody holds a prediction or a commitment in
it. -/
def Rounds.IsPrecision (rounds : Rounds A) (roundId : ℕ) : Prop :=
  (∃ round, rounds.IsLive roundId round ∧ round.mode = .precision) ∨
    ∃ user, (rounds.precisionPosition.get (roundId, user)).isSome = true ∨
      (rounds.precisionCommitment.get (roundId, user)).isSome = true

/-- No Precision round has more participants than the cap. -/
def Rounds.Capped (cap : ℕ) (rounds : Rounds A) : Prop :=
  ∀ roundId, rounds.IsPrecision roundId → (rounds.participants roundId).length ≤ cap

/-- A transition adds a participant to a Precision round that has the maximum in force already. -/
def Overfills (transition : Transition (Chain A) (Action A)) : Prop :=
  ∃ roundId, transition.before.storage.rounds.IsPrecision roundId ∧
    transition.before.settings.getMaxPrecisionParticipants ≤
      (transition.before.storage.rounds.participants roundId).length ∧
    (transition.before.storage.rounds.participants roundId).length <
      (transition.after.storage.rounds.participants roundId).length

/-- A transition commits a prediction to an active round that has the maximum in force already. -/
def CommitsIntoFull (transition : Transition (Chain A) (Action A)) : Prop :=
  ∃ signers user hash amount round,
    transition.label = .invoke signers (.commitPrediction user hash amount) ∧
    transition.before.storage.rounds.activeRound = some round ∧
    transition.before.settings.getMaxPrecisionParticipants ≤
      (transition.before.storage.rounds.participants round.roundId).length

section Cap

variable {rounds : Rounds A} {roundId : ℕ} {round : Round} {user : A} {amount : ℤ}

omit [LinearOrder A] in
/-- Nobody holds a prediction or a commitment in an UpDown round. -/
theorem Represents.not_precision (hbook : Represents rounds round) (hmode : round.mode = .upDown)
    (user : A) : ¬ ((rounds.precisionPosition.get (round.roundId, user)).isSome = true ∨
      (rounds.precisionCommitment.get (round.roundId, user)).isSome = true) := by
  simp [(hbook.upDown hmode).no_prediction, (hbook.upDown hmode).no_commitment]

omit [LinearOrder A] in
/-- A live round is a Precision round when its record says so. -/
theorem Rounds.Ordered.isPrecision_iff (hordered : rounds.Ordered)
    (hlive : rounds.IsLive roundId round) :
    rounds.IsPrecision roundId ↔ round.mode = .precision := by
  constructor
  · rintro (⟨live, hlive', hmode⟩ | ⟨user, hheld⟩)
    · rwa [hordered.live_unique hlive hlive']
    · obtain ⟨rfl, hbook⟩ := hordered.live roundId round hlive
      cases hmode : round.mode with
      | precision => rfl
      | upDown => exact absurd hheld (hbook.not_precision hmode user)
  · exact fun hmode => .inl ⟨round, hlive, hmode⟩

omit [LinearOrder A] in
/-- A participant of a Precision round is known by holding no position. -/
theorem Rounds.Ordered.isPrecision_iff_of_mem (hordered : rounds.Ordered)
    (hmem : user ∈ rounds.participants roundId) :
    rounds.IsPrecision roundId ↔ rounds.position.get (roundId, user) = none := by
  obtain ⟨round, rfl, hbook⟩ := hordered.represented roundId
  constructor
  · rintro (⟨live, hlive, hmode⟩ | ⟨other, hheld⟩)
    · obtain ⟨hid, hlivebook⟩ := hordered.live round.roundId live hlive
      rw [← hid]
      exact (hlivebook.precision hmode).no_position user
    · cases hmode : round.mode with
      | precision => exact (hbook.precision hmode).no_position user
      | upDown => exact absurd hheld (hbook.not_precision hmode other)
  · intro hnone
    cases hmode : round.mode with
    | upDown =>
        obtain ⟨position, hposition⟩ := (hbook.upDown hmode).position hmem
        rw [hnone] at hposition
        cases hposition
    | precision =>
        have hstaked := ((hbook.precision hmode).staked_iff user).mpr hmem
        exact .inr ⟨user, by simpa [Option.isSome_iff_exists] using hstaked⟩

variable {host : Host A} {chain chain' : Chain A} {signers : List A} {call : Call A}

/-- A prediction joins a round below the maximum in force. -/
theorem Step.room_of_predict {price : ℕ}
    (hstep : Step host chain (.invoke signers call) chain')
    (hcall : call = .placePrecisionPrediction user amount price ∨
      call = .predictPrice user price amount)
    (hround : chain.storage.rounds.activeRound = some round) :
    (chain.storage.rounds.participants round.roundId).length <
      chain.settings.getMaxPrecisionParticipants := by
  have hlimits : Ensures (placePrecisionPrediction user amount price)
      ⟨host, chain.ledger, signers⟩ chain.storage fun _ _ =>
        (chain.storage.rounds.participants round.roundId).length <
          chain.settings.getMaxPrecisionParticipants := by
    refine (placePrecisionPrediction_spec user amount price).mono ?_
    rintro _ _ ⟨active, hallowed, -, -, ⟨-, hroom⟩, -⟩
    obtain rfl := Option.some.inj (hround.symm.trans hallowed.active)
    exact hroom
  rcases hcall with rfl | rfl
  · exact hstep.ensured hlimits
  · exact hstep.ensured hlimits

/-- A step adds a participant to a full Precision round exactly when it commits into it. -/
theorem Step.overfills_iff {action : Action A} (hhealthy : chain.Healthy)
    (hstep : Step host chain action chain') :
    Overfills ⟨chain, action, chain'⟩ ↔ CommitsIntoFull ⟨chain, action, chain'⟩ := by
  have hordered := Storage.Healthy.ordered hhealthy
  constructor
  · rintro ⟨roundId, hprecision, hfull, hgrows⟩
    obtain ⟨signers, call, rfl⟩ | ⟨-, meter, hsame⟩ := hstep.invokes_or_idles
    · cases (hhealthy.effect hstep).listChange hordered roundId with
      | shrunk hlist => exact absurd hgrows (not_lt.mpr hlist.length_le)
      | joined round user amount hround hid hplaced =>
          obtain rfl := hid
          have hmode := (hordered.isPrecision_iff (.inl ⟨hround, rfl⟩)).mp hprecision
          generalize hrounds : chain'.storage.rounds = rounds' at hplaced
          cases hplaced with
          | bet side hupDown =>
              rw [hupDown] at hmode
              cases hmode
          | predict _ price hcall =>
              exact absurd hfull (not_le.mpr (hstep.room_of_predict hcall hround))
          | commit hash => exact ⟨signers, user, hash, amount, round, rfl, hround, hfull⟩
    · simp [hsame] at hgrows
  · rintro ⟨signers, user, hash, amount, round, rfl, hround, hfull⟩
    obtain ⟨round', hallowed, hmode, -, hafter⟩ :=
      hstep.ensured (commitPrediction_spec user hash amount)
    obtain rfl := Option.some.inj (hround.symm.trans hallowed.active)
    refine ⟨round.roundId, .inl ⟨round, .inl ⟨hround, rfl⟩, hmode⟩, hfull, ?_⟩
    have hlist : chain'.storage.rounds.participants round.roundId =
        chain.storage.rounds.participants round.roundId ++ [user] := by
      rw [hafter]
      exact participants_of_join rfl
    simp [hlist]

/-- A step keeps the Precision rounds capped unless it commits into a full round, as long as the
maximum in force is at most the cap. -/
theorem Step.capped {action : Action A} {cap : ℕ} (hhealthy : chain.Healthy)
    (hstep : Step host chain action chain')
    (hforce : chain.settings.getMaxPrecisionParticipants ≤ cap)
    (hcommits : ¬ CommitsIntoFull ⟨chain, action, chain'⟩)
    (hcapped : chain.storage.rounds.Capped cap) : chain'.storage.rounds.Capped cap := by
  have hordered := Storage.Healthy.ordered hhealthy
  have hordered' := Storage.Healthy.ordered (hstep.healthy hhealthy)
  intro roundId hprecision
  obtain ⟨signers, call, rfl⟩ | ⟨-, meter, hsame⟩ := hstep.invokes_or_idles
  · cases (hhealthy.effect hstep).listChange hordered roundId with
    | shrunk hlist hkept =>
        cases hnonempty : chain'.storage.rounds.participants roundId with
        | nil => exact Nat.zero_le _
        | cons user rest =>
            have hmem : user ∈ chain'.storage.rounds.participants roundId := by simp [hnonempty]
            have hnone := (hordered'.isPrecision_iff_of_mem hmem).mp hprecision
            rw [hkept user hmem] at hnone
            have hbefore := (hordered.isPrecision_iff_of_mem (hlist.subset hmem)).mpr hnone
            rw [← hnonempty]
            exact hlist.length_le.trans (hcapped roundId hbefore)
    | joined round user amount hround hid hplaced hlist =>
        obtain rfl := hid
        have hroom : (chain.storage.rounds.participants round.roundId).length <
            chain.settings.getMaxPrecisionParticipants := by
          generalize hrounds : chain'.storage.rounds = rounds' at hplaced
          cases hplaced with
          | bet side hupDown =>
              have hlive : chain'.storage.rounds.IsLive round.roundId
                  (round.withPool side amount) := by
                rw [hrounds]
                exact .inl ⟨rfl, withPool_roundId side amount⟩
              have hmode := (hordered'.isPrecision_iff hlive).mp hprecision
              rw [withPool_mode, hupDown] at hmode
              cases hmode
          | predict _ price hcall => exact hstep.room_of_predict hcall hround
          | commit hash =>
              exact not_le.mp fun hfull =>
                hcommits ⟨signers, user, hash, amount, round, rfl, hround, hfull⟩
        rw [hlist, List.length_append, List.length_singleton]
        omega
  · rw [hsame] at hprecision ⊢
    exact hcapped roundId hprecision

end Cap

section PrecisionCap

variable {host : Host A} {chain chain' : Chain A} {trace : List (Transition (Chain A) (Action A))}

/-- In every run from a reachable chain, a participant is added to a full Precision round exactly
by a commitment; and while nobody commits into a full round, a cap at or above the maximum in force
that held of the Precision rounds at the start holds of them at the end. -/
theorem precision_cap_iff (hreachable : Reachable host chain)
    (hrun : Run (Step host) chain trace chain') :
    ((∀ transition ∈ trace, ¬ Overfills transition) ↔
      ∀ transition ∈ trace, ¬ CommitsIntoFull transition) ∧
    ((∀ transition ∈ trace, ¬ CommitsIntoFull transition) → ∀ cap,
      (∀ transition ∈ trace, transition.before.settings.getMaxPrecisionParticipants ≤ cap) →
      chain.storage.rounds.Capped cap → chain'.storage.rounds.Capped cap) := by
  have hhealthy : ∀ transition ∈ trace, transition.before.Healthy ∧
      Step host transition.before transition.label transition.after := by
    intro transition hmem
    obtain ⟨earlier, later, rfl, hearlier, hstep, -⟩ := hrun.around hmem
    exact ⟨healthy_of_run hearlier hreachable.healthy, hstep⟩
  constructor
  · refine forall₂_congr fun transition hmem => not_congr ?_
    obtain ⟨hbefore, hstep⟩ := hhealthy transition hmem
    exact hstep.overfills_iff hbefore
  · intro hcommits cap hforce hstart
    refine hrun.invariant (fun chain => chain.storage.rounds.Capped cap) hstart ?_
    intro transition hmem hstep hcapped
    exact hstep.capped (hhealthy transition hmem).1 (hforce transition hmem)
      (hcommits transition hmem) hcapped

end PrecisionCap

/-- A Precision round capped at a number of participants, joined by user 3. -/
def cappedRound (cap : ℕ) : List (Action ℕ) := trialSetup ++ [
  .invoke [1] (.control (.setMaxPrecisionParticipants cap)),
  .invoke [1] (.createRound 100 (some 1)),
  .invoke [3] (.placePrecisionPrediction 3 41 1010)]

/-- User 4 predicts in the round capped at 2 and fills it. -/
theorem capped_round_filled : ∃ trace, ∃ chain chain' : Chain ℕ, Reachable trialHost chain ∧
    Run (Step trialHost) chain trace chain' ∧
    (∀ transition ∈ trace, ¬ CommitsIntoFull transition) ∧
    (∀ transition ∈ trace, transition.before.settings.getMaxPrecisionParticipants = 2) ∧
    (chain'.storage.rounds.participants 1).length = 2 ∧ chain'.storage.rounds.Capped 2 := by
  obtain ⟨trace, chain, chain', hhistory, hfits⟩ := exists_trial (cappedRound 2)
    (.invoke [4] (.placePrecisionPrediction 4 31 1200))
    (fun chain chain' => chain.settings.getMaxPrecisionParticipants == 2 &&
      (chain.storage.rounds.lastRoundId == some 1 &&
      ((chain.storage.rounds.participants 0).length ≤ 2 &&
      ((chain.storage.rounds.participants 1).length ≤ 2 &&
        (chain'.storage.rounds.participants 1).length == 2)))) (by decide +kernel)
  simp only [Bool.and_eq_true, beq_iff_eq, decide_eq_true_eq] at hfits
  obtain ⟨hforce, hlast, hzero, hone, hlength⟩ := hfits
  obtain ⟨hreachable, hstep⟩ := hhistory.last
  have hrun : Run (Step trialHost) chain
      [⟨chain, .invoke [4] (.placePrecisionPrediction 4 31 1200), chain'⟩] chain' :=
    .snoc (.nil chain) hstep
  have hstart : chain.storage.rounds.Capped 2 := by
    intro roundId _
    by_cases hlisted : chain.storage.rounds.roundParticipants.get roundId = none
    · simp [Rounds.participants, Store.getD, hlisted]
    · have hknown := (Storage.Healthy.ordered hreachable.healthy).listed_known roundId hlisted
      rw [hlast, Option.getD_some] at hknown
      rcases Nat.le_one_iff_eq_zero_or_eq_one.mp hknown with rfl | rfl
      · exact hzero
      · exact hone
  obtain ⟨-, hkept⟩ := precision_cap_iff hreachable hrun
  have hcommits : ∀ transition ∈ [(⟨chain, .invoke [4] (.placePrecisionPrediction 4 31 1200),
      chain'⟩ : Transition (Chain ℕ) (Action ℕ))], ¬ CommitsIntoFull transition := by
    rintro transition hmem ⟨signers, user, hash, amount, round, hlabel, -⟩
    obtain rfl := List.mem_singleton.mp hmem
    cases hlabel
  have hconstant : ∀ transition ∈ [(⟨chain, .invoke [4] (.placePrecisionPrediction 4 31 1200),
      chain'⟩ : Transition (Chain ℕ) (Action ℕ))],
      transition.before.settings.getMaxPrecisionParticipants = 2 := by
    intro transition hmem
    obtain rfl := List.mem_singleton.mp hmem
    exact hforce
  exact ⟨_, chain, chain', hreachable, hrun, hcommits, hconstant, hlength,
    hkept hcommits 2 (fun transition hmem => (hconstant transition hmem).le) hstart⟩

/-- User 4 commits into the round capped at 1, which user 3 filled. -/
theorem committed_into_full : ¬ ∀ (trace : List (Transition (Chain ℕ) (Action ℕ))) chain,
    History trialHost trace chain → ∀ transition ∈ trace, ¬ Overfills transition := by
  intro hall
  obtain ⟨trace, chain, chain', hhistory, hfits⟩ := exists_trial (cappedRound 1)
    (.invoke [4] (.commitPrediction 4 (Vector.replicate 32 1) 31))
    (fun chain chain' => chain.settings.getMaxPrecisionParticipants == 1 &&
      ((chain.storage.rounds.activeRound.map fun round => (round.roundId, round.mode)) ==
        some (1, .precision) &&
      ((chain.storage.rounds.participants 1).length == 1 &&
        (chain'.storage.rounds.participants 1).length == 2))) (by decide +kernel)
  simp only [Bool.and_eq_true, beq_iff_eq, Option.map_eq_some_iff, Prod.mk.injEq] at hfits
  obtain ⟨hforce, ⟨round, hround, hid, hmode⟩, hbefore, hafter⟩ := hfits
  refine hall _ _ hhistory _ (List.mem_append_right trace (List.mem_singleton.mpr rfl)) ?_
  refine ⟨1, .inl ⟨round, .inl ⟨hround, hid⟩, hmode⟩, ?_, ?_⟩
  · show chain.settings.getMaxPrecisionParticipants ≤ (chain.storage.rounds.participants 1).length
    omega
  · show (chain.storage.rounds.participants 1).length <
      (chain'.storage.rounds.participants 1).length
    omega

/-! ## The range of predicted prices -/

/-- Every stored prediction is one that a direct placement accepts. -/
def Rounds.InRange (rounds : Rounds A) : Prop :=
  ∀ key prediction, rounds.precisionPosition.get key = some prediction →
    prediction.predictedPrice ≤ 99999999

/-- A transition reveals a price that a direct placement rejects. -/
def RevealsBeyond (transition : Transition (Chain A) (Action A)) : Prop :=
  ∃ signers user price salt,
    transition.label = .invoke signers (.revealPrediction user price salt) ∧ 99999999 < price

/-- A transition settles a Precision round at a price, and computes the distance from a prediction
that a direct placement rejects. -/
def ScansBeyond (transition : Transition (Chain A) (Action A)) : Prop :=
  ∃ signers call ending finalPrice user prediction, transition.label = .invoke signers call ∧
    call.ending transition.before.storage = some ending ∧
    ending.kind.price = some finalPrice ∧ ending.round.mode = .precision ∧
    transition.before.storage.rounds.precisionPosition.get (ending.round.roundId, user) =
      some prediction ∧ 99999999 < prediction.predictedPrice

/-- Where a stored prediction comes from: it was stored before, or it was placed or revealed. -/
inductive PredictionStored (s : Storage A) (call : Call A) (key : ℕ × A)
    (prediction : PrecisionPrediction A) : Prop where
  | kept (hget : s.rounds.precisionPosition.get key = some prediction)
  | placed (user : A) (amount : ℤ)
      (hcall : call = .placePrecisionPrediction user amount prediction.predictedPrice ∨
        call = .predictPrice user prediction.predictedPrice amount)
  | revealed (user : A) (salt : BytesN 32)
      (hcall : call = .revealPrediction user prediction.predictedPrice salt)

section Range

variable {env : Env A} {s s' : Storage A} {call : Call A} {host : Host A} {chain chain' : Chain A}

/-- The predictions that remain when a round closes were stored before. -/
theorem roundsAfter_prediction {rounds : Rounds A} {ending : Ending} {key : ℕ × A}
    {prediction : PrecisionPrediction A}
    (hget : (ending.roundsAfter rounds).precisionPosition.get key = some prediction) :
    rounds.precisionPosition.get key = some prediction := by
  obtain ⟨id, user⟩ := key
  rw [(roundsAfter_sameBook ending id).prediction user] at hget
  simp only [Rounds.close, Store.get_removeAll] at hget
  split at hget
  · cases hget
  · exact hget

/-- Every prediction stored after a successful call has one of the three sources. -/
theorem Effect.predictionStored (heffect : Effect env s call s') {key : ℕ × A}
    {prediction : PrecisionPrediction A}
    (hget : s'.rounds.precisionPosition.get key = some prediction) :
    PredictionStored s call key prediction := by
  cases heffect with
  | quiet _ _ hsame => exact .kept (hsame.rounds ▸ hget)
  | mint _ _ _ _ _ hsame | treasuryAddress _ _ _ _ _ _ _ _ hsame | payFee _ _ _ _ _ _ _ hsame
  | payFund _ _ _ _ _ _ _ hsame | topUp _ _ _ _ _ _ _ hsame
  | reclaim _ _ _ _ _ _ _ _ _ _ _ hsame | claim _ _ _ _ _ _ hsame =>
      exact .kept (hsame.rounds ▸ hget)
  | openRound _ _ _ _ _ _ _ _ _ hrounds | stage _ _ _ _ _ _ _ _ _ _ hrounds
  | cashOut _ _ _ _ _ _ _ _ _ _ _ _ hrounds =>
      rw [hrounds] at hget
      exact .kept hget
  | stake _ round user amount _ _ _ _ _ _ hplaced =>
      generalize s'.rounds = rounds' at hplaced hget
      cases hplaced with
      | bet | commit => exact .kept hget
      | predict _ price hcall =>
          simp only [Rounds.predict, Store.get_set] at hget
          split at hget
          · obtain rfl := Option.some.inj hget
            exact .placed user amount hcall
          · exact .kept hget
  | reveal _ user price salt _ _ _ _ _ _ _ hrounds =>
      simp only [hrounds, Rounds.reveal, Store.get_set] at hget
      split at hget
      · obtain rfl := Option.some.inj hget
        exact .revealed user salt rfl
      · exact .kept hget
  | ending _ ending _ _ hends => exact .kept (roundsAfter_prediction (hends.rounds ▸ hget))

/-- A placed prediction is in range. -/
theorem Step.price_of_predict {signers : List A} {user : A} {amount : ℤ} {price : ℕ}
    (hstep : Step host chain (.invoke signers call) chain')
    (hcall : call = .placePrecisionPrediction user amount price ∨
      call = .predictPrice user price amount) : price ≤ 99999999 := by
  have hlimits : Ensures (placePrecisionPrediction user amount price)
      ⟨host, chain.ledger, signers⟩ chain.storage fun _ _ => price ≤ 99999999 := by
    refine (placePrecisionPrediction_spec user amount price).mono ?_
    rintro _ _ ⟨_, -, -, -, ⟨hprice, -⟩, -⟩
    exact hprice
  rcases hcall with rfl | rfl
  · exact hstep.ensured hlimits
  · exact hstep.ensured hlimits

/-- A step keeps the predictions in range unless it reveals beyond it. -/
theorem Step.inRange {action : Action A} (hhealthy : chain.Healthy)
    (hstep : Step host chain action chain') (hreveals : ¬ RevealsBeyond ⟨chain, action, chain'⟩)
    (hrange : chain.storage.rounds.InRange) : chain'.storage.rounds.InRange := by
  intro key prediction hget
  obtain ⟨signers, call, rfl⟩ | ⟨-, meter, hsame⟩ := hstep.invokes_or_idles
  · cases (hhealthy.effect hstep).predictionStored hget with
    | kept hbefore => exact hrange key prediction hbefore
    | placed user amount hcall => exact hstep.price_of_predict hcall
    | revealed user salt hcall =>
        subst hcall
        exact not_lt.mp fun hbeyond => hreveals ⟨signers, user, _, salt, rfl, hbeyond⟩
  · rw [hsame] at hget
    exact hrange key prediction hget

/-- A reveal beyond the range stores a prediction beyond it. -/
theorem Step.not_inRange {action : Action A} (hstep : Step host chain action chain')
    (hreveals : RevealsBeyond ⟨chain, action, chain'⟩) : ¬ chain'.storage.rounds.InRange := by
  obtain ⟨signers, user, price, salt, rfl, hbeyond⟩ := hreveals
  obtain ⟨round, commitment, -, hafter⟩ := hstep.ensured (revealPrediction_spec user price salt)
  intro hrange
  have hstored : chain'.storage.rounds.precisionPosition.get (round.roundId, user) =
      some ⟨user, price, commitment.amount⟩ := by
    rw [hafter]
    exact Store.get_set_self _ _ _
  exact absurd (hrange _ _ hstored) (not_le.mpr hbeyond)

/-- In every history the predictions of all states are in range exactly when no reveal was beyond
it, and then no settlement computes the distance from a prediction beyond it. -/
theorem predictions_in_range_iff {trace : List (Transition (Chain A) (Action A))}
    (hhistory : History host trace chain) :
    ((∀ transition ∈ trace, transition.after.storage.rounds.InRange) ↔
      ∀ transition ∈ trace, ¬ RevealsBeyond transition) ∧
    ((∀ transition ∈ trace, ¬ RevealsBeyond transition) →
      chain.storage.rounds.InRange ∧ ∀ transition ∈ trace, ¬ ScansBeyond transition) := by
  have hreached : ∀ {trace chain}, History host trace chain →
      (∀ transition ∈ trace, ¬ RevealsBeyond transition) → chain.storage.rounds.InRange := by
    rintro trace chain hhistory hreveals
    obtain ⟨ledger, hrun⟩ := hhistory
    refine hrun.invariant (fun chain => chain.storage.rounds.InRange) ?_ ?_
    · intro key prediction hget
      cases hget
    · intro transition hmem hstep hrange
      have hhealthy := (History.of_mem ⟨ledger, hrun⟩ hmem).1.healthy
      exact hstep.inRange hhealthy (hreveals transition hmem) hrange
  refine ⟨⟨fun hrange transition hmem hreveals => ?_, fun hreveals transition hmem => ?_⟩,
    fun hreveals => ⟨hreached hhistory hreveals, ?_⟩⟩
  · exact (hhistory.of_mem hmem).2.not_inRange hreveals (hrange transition hmem)
  · obtain ⟨earlier, later, rfl⟩ := List.append_of_mem hmem
    obtain ⟨hearlier, hstep, -⟩ := hhistory.cut
    refine hstep.inRange hearlier.healthy (hreveals transition hmem) ?_
    exact hreached hearlier fun other hother => hreveals other (List.mem_append_left _ hother)
  · rintro transition hmem ⟨signers, call, ending, finalPrice, user, prediction, -, -, -, -, hget,
      hbeyond⟩
    obtain ⟨earlier, later, rfl⟩ := List.append_of_mem hmem
    have hrange := hreached hhistory.cut.1 fun other hother =>
      hreveals other (List.mem_append_left _ hother)
    exact absurd (hrange _ _ hget) (not_le.mpr hbeyond)

end Range

/-- The XDR of a `u128` and of a 32-byte string. -/
def xdrOfU128 (value : ℕ) : Bytes :=
  [0, 0, 0, 9] ++ (List.range 16).map fun i => UInt8.ofNat (value / 256 ^ (15 - i))

def xdrOfBytes32 (bytes : BytesN 32) : Bytes :=
  [0, 0, 0, 13, 0, 0, 0, 32] ++ bytes.toList

/-- The salt of the trial reveals. -/
def trialSalt : BytesN 32 :=
  Vector.ofFn fun i => UInt8.ofNat i

/-- The hash of the price 1010 under the trial salt. -/
def hashInRange : BytesN 32 := #v[157, 231, 196, 116, 42, 26, 84, 200, 202, 233, 108, 176, 118, 170,
  6, 133, 77, 154, 100, 204, 226, 108, 202, 128, 197, 77, 125, 127, 118, 189, 51, 32]

/-- The hash of the price 100000000 under the trial salt. -/
def hashBeyondRange : BytesN 32 := #v[7, 36, 201, 235, 89, 241, 172, 169, 194, 51, 77, 231, 4, 221,
  0, 216, 41, 134, 95, 103, 201, 66, 101, 250, 118, 208, 64, 92, 72, 157, 195, 8]

/-- The trial host with the encodings and the hashes of the two revealed prices. -/
def hashingHost : Host ℕ where
  networkId := trialHost.networkId
  currentContractAddress := trialHost.currentContractAddress
  sha256 preimage :=
    if preimage = xdrOfU128 1010 ++ xdrOfBytes32 trialSalt then
      hashInRange
    else if preimage = xdrOfU128 100000000 ++ xdrOfBytes32 trialSalt then
      hashBeyondRange
    else
      Vector.replicate 32 0
  ed25519Verify := trialHost.ed25519Verify
  addressXdr := trialHost.addressXdr
  u32Xdr := trialHost.u32Xdr
  u64Xdr := trialHost.u64Xdr
  u128Xdr := xdrOfU128
  bytes32Xdr := xdrOfBytes32
  encodeConfigKey := trialHost.encodeConfigKey

/-- User 3 commits to a price and reveals it in the run of the round. -/
def revealedRound (price : ℕ) : List (Action ℕ) := trialSetup ++ [
  .invoke [1] (.createRound 100 (some 1)),
  .invoke [3] (.commitPrediction 3
    (hashingHost.sha256 (xdrOfU128 price ++ xdrOfBytes32 trialSalt)) 41),
  .closeLedger (ledgerAt 8),
  .invoke [3] (.revealPrediction 3 price trialSalt)]

/-- User 3 reveals 1010. -/
theorem revealed_in_range : ∃ trace, ∃ chain : Chain ℕ, History hashingHost trace chain ∧
    chain.storage.rounds.precisionPosition.get (1, 3) = some ⟨3, 1010, 41⟩ ∧
    chain.storage.rounds.InRange := by
  obtain ⟨trace, chain, hhistory, hlabels, hfits⟩ := exists_history hashingHost
    (revealedRound 1010)
    (fun chain => chain.storage.rounds.precisionPosition.get (1, 3) == some ⟨3, 1010, 41⟩)
    (by decide +kernel)
  have hreveals : ∀ transition ∈ trace, ¬ RevealsBeyond transition := by
    rintro transition hmem ⟨signers, user, price, salt, hreveals, hbeyond⟩
    have hlabel : transition.label ∈ revealedRound 1010 := hlabels ▸ List.mem_map_of_mem hmem
    simp only [hreveals, revealedRound, trialSetup] at hlabel
    simp at hlabel
    omega
  exact ⟨trace, chain, hhistory, by simpa using hfits,
    ((predictions_in_range_iff hhistory).2 hreveals).1⟩

/-- User 3 reveals 100000000, which a direct placement rejects. -/
theorem revealed_beyond_range : ¬ ∀ (trace : List (Transition (Chain ℕ) (Action ℕ))) chain,
    History hashingHost trace chain → chain.storage.rounds.InRange := by
  intro hall
  obtain ⟨trace, chain, hhistory, -, hfits⟩ := exists_history hashingHost
    (revealedRound 100000000)
    (fun chain => chain.storage.rounds.precisionPosition.get (1, 3) == some ⟨3, 100000000, 41⟩)
    (by decide +kernel)
  have hprice := hall trace chain hhistory (1, 3) ⟨3, 100000000, 41⟩ (by simpa using hfits)
  exact absurd hprice (by decide)

end XelmaMarket
