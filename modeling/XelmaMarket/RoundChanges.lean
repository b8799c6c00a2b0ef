import XelmaMarket.RoundOrder

/-!
# The changes of the rounds

Each change of the round storage: what it does to the book of its round, what it adds to the
stakes there, and that the rounds stay in order.
-/

namespace XelmaMarket

variable {A : Type} {rounds : Rounds A} {round : Round} {user : A} {amount : ℤ}

theorem key_ne {id id' : ℕ} (hid : id ≠ id') (user user' : A) : (id, user) ≠ (id', user') := by
  simp [hid]

@[simp] theorem withPool_roundId (side : BetSide) (amount : ℤ) :
    (round.withPool side amount).roundId = round.roundId := by
  cases side <;> rfl

@[simp] theorem withPool_mode (side : BetSide) (amount : ℤ) :
    (round.withPool side amount).mode = round.mode := by
  cases side <;> rfl

/-! ## Joining a round -/

section Join

variable {rounds' : Rounds A}

/-- Who joins a round is appended to its participants. -/
theorem participants_of_join
    (hlisted : rounds'.roundParticipants = (rounds.join round.roundId user).roundParticipants) :
    rounds'.participants round.roundId = rounds.participants round.roundId ++ [user] := by
  simp [Rounds.participants, Rounds.join, hlisted, Store.getD_set]

/-- A new stake adds its amount to the stakes of the round. -/
theorem totalStake_of_join {mode : RoundMode}
    (hlisted : rounds'.roundParticipants = (rounds.join round.roundId user).roundParticipants)
    (hother : ∀ other ∈ rounds.participants round.roundId,
      rounds'.stakeOf mode round.roundId other = rounds.stakeOf mode round.roundId other)
    (huser : rounds'.stakeOf mode round.roundId user = amount) :
    rounds'.totalStake mode round.roundId = rounds.totalStake mode round.roundId + amount := by
  unfold Rounds.totalStake
  rw [participants_of_join hlisted, List.map_append, List.sum_append,
    List.map_congr_left hother]
  simp [huser]

/-- Joining with stakes under the keys of one user leaves the other rounds alone. -/
theorem sameBook_of_join {id : ℕ} (hid : id ≠ round.roundId)
    (hlisted : rounds'.roundParticipants = (rounds.join round.roundId user).roundParticipants)
    (hposition : ∀ key, key ≠ (round.roundId, user) →
      rounds'.position.get key = rounds.position.get key)
    (hprediction : ∀ key, key ≠ (round.roundId, user) →
      rounds'.precisionPosition.get key = rounds.precisionPosition.get key)
    (hcommitment : ∀ key, key ≠ (round.roundId, user) →
      rounds'.precisionCommitment.get key = rounds.precisionCommitment.get key) :
    SameBook rounds rounds' id where
  listed := by
    rw [hlisted]
    exact Store.get_set_of_ne _ _ hid
  position other := hposition _ (key_ne hid other user)
  prediction other := hprediction _ (key_ne hid other user)
  commitment other := hcommitment _ (key_ne hid other user)

theorem nodup_of_join (hnodup : (rounds.participants round.roundId).Nodup)
    (huser : user ∉ rounds.participants round.roundId) :
    (rounds.participants round.roundId ++ [user]).Nodup := by
  rw [List.nodup_append]
  refine ⟨hnodup, by simp, ?_⟩
  rintro other hother other' hother' rfl
  exact huser (List.mem_singleton.mp hother' ▸ hother)

end Join

/-! ## Bets -/

section DecidableAddress

variable [DecidableEq A]

section Bet

variable {side : BetSide}

omit [DecidableEq A] in
/-- Who holds no position does not take part in an UpDown round. -/
theorem UpDownBook.not_mem (hbook : UpDownBook rounds round)
    (hnew : rounds.position.get (round.roundId, user) = none) :
    user ∉ rounds.participants round.roundId := by
  intro hmem
  obtain ⟨position, hposition⟩ := hbook.position hmem
  simp [hnew] at hposition

theorem bet_sameBook {id : ℕ} (hid : id ≠ round.roundId) :
    SameBook rounds (rounds.bet round user amount side) id :=
  @sameBook_of_join _ _ _ user _ _ hid rfl (fun _ hkey => Store.get_set_of_ne _ _ hkey)
    (fun _ _ => rfl) (fun _ _ => rfl)

theorem bet_position_self : (rounds.bet round user amount side).position.get
    (round.roundId, user) = some { amount := amount, side := side } :=
  Store.get_set_self _ _ _

theorem bet_position_of_ne {other : A} (hother : other ≠ user) :
    (rounds.bet round user amount side).position.get (round.roundId, other) =
      rounds.position.get (round.roundId, other) :=
  Store.get_set_of_ne _ _ (by simp [hother])

theorem bet_participants : (rounds.bet round user amount side).participants round.roundId =
    rounds.participants round.roundId ++ [user] :=
  participants_of_join rfl

theorem bet_totalStake (hbook : UpDownBook rounds round)
    (hnew : rounds.position.get (round.roundId, user) = none) :
    (rounds.bet round user amount side).totalStake .upDown round.roundId =
      rounds.totalStake .upDown round.roundId + amount := by
  refine @totalStake_of_join _ _ _ user _ _ _ rfl (fun other hother => ?_) ?_
  · have hne : other ≠ user := fun h => hbook.not_mem hnew (h ▸ hother)
    simp [Rounds.stakeOf, bet_position_of_ne hne]
  · simp [Rounds.stakeOf, bet_position_self]

/-- A bet adds its amount to the total of its side. -/
theorem bet_sideTotal (hbook : UpDownBook rounds round)
    (hnew : rounds.position.get (round.roundId, user) = none) (side' : BetSide) :
    (rounds.bet round user amount side).sideTotal round.roundId side' =
      rounds.sideTotal round.roundId side' + if side = side' then amount else 0 := by
  have hold : ∀ other ∈ rounds.participants round.roundId,
      (rounds.bet round user amount side).sideStake round.roundId side' other =
        rounds.sideStake round.roundId side' other := by
    intro other hother
    have hne : other ≠ user := fun h => hbook.not_mem hnew (h ▸ hother)
    simp [Rounds.sideStake, bet_position_of_ne hne]
  unfold Rounds.sideTotal
  rw [bet_participants, List.map_append, List.sum_append, List.map_congr_left hold]
  simp [Rounds.sideStake, bet_position_self]

/-- A bet keeps the book of its round. -/
theorem bet_represents (hbook : Represents rounds round) (hmode : round.mode = .upDown)
    (hnew : rounds.position.get (round.roundId, user) = none) (hamount : 0 < amount) :
    Represents (rounds.bet round user amount side) (round.withPool side amount) := by
  have h := hbook.upDown hmode
  refine ⟨?_, fun _ => ⟨?_, ?_, ?_, ?_, ?_, ?_⟩, fun hprecision => ?_⟩
  · rw [withPool_roundId, bet_participants]
    exact nodup_of_join hbook.nodup (h.not_mem hnew)
  · intro other
    rw [withPool_roundId, bet_participants, List.mem_append, List.mem_singleton]
    by_cases hother : other = user
    · subst hother
      simp [bet_position_self]
    · rw [bet_position_of_ne hother, h.position_iff]
      simp [hother]
  · intro other position
    rw [withPool_roundId]
    by_cases hother : other = user
    · subst hother
      rw [bet_position_self]
      rintro ⟨⟩
      exact hamount
    · rw [bet_position_of_ne hother]
      exact h.amount_pos other position
  · rw [withPool_roundId, bet_sideTotal h hnew, ← h.pool_up]
    cases side <;> simp [Round.withPool]
  · rw [withPool_roundId, bet_sideTotal h hnew, ← h.pool_down]
    cases side <;> simp [Round.withPool]
  · rw [withPool_roundId]
    exact h.no_prediction
  · rw [withPool_roundId]
    exact h.no_commitment
  · rw [withPool_mode, hmode] at hprecision
    cases hprecision

end Bet

/-! ## Predictions and commitments -/

section Predict

variable {price : ℕ} {hash : BytesN 32}

omit [DecidableEq A] in
/-- Who holds neither a prediction nor a commitment does not take part in a Precision round. -/
theorem PrecisionBook.not_mem (hbook : PrecisionBook rounds round)
    (hnew : rounds.precisionPosition.get (round.roundId, user) = none ∧
      rounds.precisionCommitment.get (round.roundId, user) = none) :
    user ∉ rounds.participants round.roundId := by
  intro hmem
  rcases (hbook.staked_iff user).mpr hmem with ⟨prediction, h⟩ | ⟨commitment, h⟩
  · simp [hnew.1] at h
  · simp [hnew.2] at h

theorem predict_sameBook {id : ℕ} (hid : id ≠ round.roundId) :
    SameBook rounds (rounds.predict round user amount price) id :=
  @sameBook_of_join _ _ _ user _ _ hid rfl (fun _ _ => rfl)
    (fun _ hkey => Store.get_set_of_ne _ _ hkey) (fun _ _ => rfl)

theorem commit_sameBook {id : ℕ} (hid : id ≠ round.roundId) :
    SameBook rounds (rounds.commit round user amount hash) id :=
  @sameBook_of_join _ _ _ user _ _ hid rfl (fun _ _ => rfl) (fun _ _ => rfl)
    (fun _ hkey => Store.get_set_of_ne _ _ hkey)

theorem predict_prediction_self : (rounds.predict round user amount price).precisionPosition.get
    (round.roundId, user) = some { user := user, predictedPrice := price, amount := amount } :=
  Store.get_set_self _ _ _

theorem predict_prediction_of_ne {other : A} (hother : other ≠ user) :
    (rounds.predict round user amount price).precisionPosition.get (round.roundId, other) =
      rounds.precisionPosition.get (round.roundId, other) :=
  Store.get_set_of_ne _ _ (by simp [hother])

theorem commit_commitment_self : (rounds.commit round user amount hash).precisionCommitment.get
    (round.roundId, user) = some { hash := hash, amount := amount, revealed := false } :=
  Store.get_set_self _ _ _

theorem commit_commitment_of_ne {other : A} (hother : other ≠ user) :
    (rounds.commit round user amount hash).precisionCommitment.get (round.roundId, other) =
      rounds.precisionCommitment.get (round.roundId, other) :=
  Store.get_set_of_ne _ _ (by simp [hother])

theorem predict_totalStake (hbook : PrecisionBook rounds round)
    (hnew : rounds.precisionPosition.get (round.roundId, user) = none ∧
      rounds.precisionCommitment.get (round.roundId, user) = none) :
    (rounds.predict round user amount price).totalStake .precision round.roundId =
      rounds.totalStake .precision round.roundId + amount := by
  refine @totalStake_of_join _ _ _ user _ _ _ rfl (fun other hother => ?_) ?_
  · have hne : other ≠ user := fun h => hbook.not_mem hnew (h ▸ hother)
    simp only [Rounds.stakeOf, precisionStake, predict_prediction_of_ne hne]
    rfl
  · simp [Rounds.stakeOf, precisionStake, predict_prediction_self]

theorem commit_totalStake (hbook : PrecisionBook rounds round)
    (hnew : rounds.precisionPosition.get (round.roundId, user) = none ∧
      rounds.precisionCommitment.get (round.roundId, user) = none) :
    (rounds.commit round user amount hash).totalStake .precision round.roundId =
      rounds.totalStake .precision round.roundId + amount := by
  refine @totalStake_of_join _ _ _ user _ _ _ rfl (fun other hother => ?_) ?_
  · have hne : other ≠ user := fun h => hbook.not_mem hnew (h ▸ hother)
    simp only [Rounds.stakeOf, precisionStake, commit_commitment_of_ne hne]
    rfl
  · have hnone : (rounds.commit round user amount hash).precisionPosition.get
        (round.roundId, user) = none := hnew.1
    simp [Rounds.stakeOf, precisionStake, commit_commitment_self, hnone]

/-- A prediction keeps the book of its round. -/
theorem predict_represents (hbook : Represents rounds round) (hmode : round.mode = .precision)
    (hnew : rounds.precisionPosition.get (round.roundId, user) = none ∧
      rounds.precisionCommitment.get (round.roundId, user) = none) (hamount : 0 < amount) :
    Represents (rounds.predict round user amount price) round := by
  have h := hbook.precision hmode
  have hparticipants : (rounds.predict round user amount price).participants round.roundId =
      rounds.participants round.roundId ++ [user] := participants_of_join rfl
  have hcommitment : ∀ other, (rounds.predict round user amount price).precisionCommitment.get
      (round.roundId, other) = rounds.precisionCommitment.get (round.roundId, other) :=
    fun _ => rfl
  have hcommitted : ∀ other commitment,
      rounds.precisionCommitment.get (round.roundId, other) = some commitment →
      other ≠ user := by
    rintro other commitment hget rfl
    simp [hnew.2] at hget
  refine ⟨?_, fun hupDown => ?_, fun _ =>
    ⟨h.pool_up, h.pool_down, h.no_position, ?_, ?_, h.commitment_pos, ?_, ?_⟩⟩
  · rw [hparticipants]
    exact nodup_of_join hbook.nodup (h.not_mem hnew)
  · rw [hmode] at hupDown
    cases hupDown
  · intro other
    rw [hparticipants, List.mem_append, List.mem_singleton, hcommitment]
    by_cases hother : other = user
    · subst hother
      simp [predict_prediction_self]
    · rw [predict_prediction_of_ne hother, h.staked_iff]
      simp [hother]
  · intro other prediction
    by_cases hother : other = user
    · subst hother
      rw [predict_prediction_self]
      rintro ⟨⟩
      exact ⟨rfl, hamount⟩
    · rw [predict_prediction_of_ne hother]
      exact h.prediction_pos other prediction
  · intro other commitment hget
    rw [predict_prediction_of_ne (hcommitted other commitment hget)]
    exact h.revealed other commitment hget
  · intro other commitment hget
    rw [predict_prediction_of_ne (hcommitted other commitment hget)]
    exact h.unrevealed other commitment hget

/-- A commitment keeps the book of its round. -/
theorem commit_represents (hbook : Represents rounds round) (hmode : round.mode = .precision)
    (hnew : rounds.precisionPosition.get (round.roundId, user) = none ∧
      rounds.precisionCommitment.get (round.roundId, user) = none) (hamount : 0 < amount) :
    Represents (rounds.commit round user amount hash) round := by
  have h := hbook.precision hmode
  have hparticipants : (rounds.commit round user amount hash).participants round.roundId =
      rounds.participants round.roundId ++ [user] := participants_of_join rfl
  have hprediction : ∀ other, (rounds.commit round user amount hash).precisionPosition.get
      (round.roundId, other) = rounds.precisionPosition.get (round.roundId, other) :=
    fun _ => rfl
  refine ⟨?_, fun hupDown => ?_, fun _ =>
    ⟨h.pool_up, h.pool_down, h.no_position, ?_, h.prediction_pos, ?_, ?_, ?_⟩⟩
  · rw [hparticipants]
    exact nodup_of_join hbook.nodup (h.not_mem hnew)
  · rw [hmode] at hupDown
    cases hupDown
  · intro other
    rw [hparticipants, List.mem_append, List.mem_singleton, hprediction]
    by_cases hother : other = user
    · subst hother
      simp [commit_commitment_self]
    · rw [commit_commitment_of_ne hother, h.staked_iff]
      simp [hother]
  · intro other commitment
    by_cases hother : other = user
    · subst hother
      rw [commit_commitment_self]
      rintro ⟨⟩
      exact hamount
    · rw [commit_commitment_of_ne hother]
      exact h.commitment_pos other commitment
  · intro other commitment
    by_cases hother : other = user
    · subst hother
      rw [commit_commitment_self]
      rintro ⟨⟩ hrevealed
      simp at hrevealed
    · rw [commit_commitment_of_ne hother]
      exact h.revealed other commitment
  · intro other commitment
    rw [hprediction]
    by_cases hother : other = user
    · subst hother
      exact fun _ _ => hnew.1
    · rw [commit_commitment_of_ne hother]
      exact h.unrevealed other commitment

end Predict

/-! ## Reveals -/

section Reveal

variable {price : ℕ} {commitment : PrecisionCommitment}

theorem reveal_sameBook {id : ℕ} (hid : id ≠ round.roundId) :
    SameBook rounds (rounds.reveal round user commitment price) id where
  listed := rfl
  position _ := rfl
  prediction other := Store.get_set_of_ne _ _ (key_ne hid other user)
  commitment other := Store.get_set_of_ne _ _ (key_ne hid other user)

theorem reveal_prediction_self :
    (rounds.reveal round user commitment price).precisionPosition.get (round.roundId, user) =
      some { user := user, predictedPrice := price, amount := commitment.amount } :=
  Store.get_set_self _ _ _

theorem reveal_prediction_of_ne {other : A} (hother : other ≠ user) :
    (rounds.reveal round user commitment price).precisionPosition.get (round.roundId, other) =
      rounds.precisionPosition.get (round.roundId, other) :=
  Store.get_set_of_ne _ _ (by simp [hother])

theorem reveal_commitment_self :
    (rounds.reveal round user commitment price).precisionCommitment.get (round.roundId, user) =
      some { commitment with revealed := true } :=
  Store.get_set_self _ _ _

theorem reveal_commitment_of_ne {other : A} (hother : other ≠ user) :
    (rounds.reveal round user commitment price).precisionCommitment.get (round.roundId, other) =
      rounds.precisionCommitment.get (round.roundId, other) :=
  Store.get_set_of_ne _ _ (by simp [hother])

/-- A reveal moves no stake: the prediction takes the place of the commitment. -/
theorem reveal_stakeOf (hbook : PrecisionBook rounds round)
    (hcommitment : rounds.precisionCommitment.get (round.roundId, user) = some commitment)
    (hhidden : commitment.revealed = false) (other : A) :
    (rounds.reveal round user commitment price).stakeOf .precision round.roundId other =
      rounds.stakeOf .precision round.roundId other := by
  by_cases hother : other = user
  · subst hother
    have hnone := hbook.unrevealed other commitment hcommitment hhidden
    simp [Rounds.stakeOf, precisionStake, reveal_prediction_self, hnone, hcommitment]
  · simp [Rounds.stakeOf, precisionStake, reveal_prediction_of_ne hother,
      reveal_commitment_of_ne hother]

theorem reveal_totalStake (hbook : PrecisionBook rounds round)
    (hcommitment : rounds.precisionCommitment.get (round.roundId, user) = some commitment)
    (hhidden : commitment.revealed = false) :
    (rounds.reveal round user commitment price).totalStake .precision round.roundId =
      rounds.totalStake .precision round.roundId :=
  congrArg List.sum
    (List.map_congr_left fun other _ => reveal_stakeOf hbook hcommitment hhidden other)

/-- A reveal keeps the book of its round. -/
theorem reveal_represents (hbook : Represents rounds round) (hmode : round.mode = .precision)
    (hcommitment : rounds.precisionCommitment.get (round.roundId, user) = some commitment) :
    Represents (rounds.reveal round user commitment price) round := by
  have h := hbook.precision hmode
  have hparticipants : (rounds.reveal round user commitment price).participants round.roundId =
      rounds.participants round.roundId := rfl
  have hamount := h.commitment_pos user commitment hcommitment
  refine ⟨hbook.nodup, fun hupDown => ?_, fun _ =>
    ⟨h.pool_up, h.pool_down, h.no_position, ?_, ?_, ?_, ?_, ?_⟩⟩
  · rw [hmode] at hupDown
    cases hupDown
  · intro other
    rw [hparticipants]
    by_cases hother : other = user
    · subst hother
      have hmem := (h.staked_iff other).mp (.inr ⟨commitment, hcommitment⟩)
      simp [reveal_prediction_self, hmem]
    · rw [reveal_prediction_of_ne hother, reveal_commitment_of_ne hother]
      exact h.staked_iff other
  · intro other prediction
    by_cases hother : other = user
    · subst hother
      rw [reveal_prediction_self]
      rintro ⟨⟩
      exact ⟨rfl, hamount⟩
    · rw [reveal_prediction_of_ne hother]
      exact h.prediction_pos other prediction
  · intro other stored
    by_cases hother : other = user
    · subst hother
      rw [reveal_commitment_self]
      rintro ⟨⟩
      exact hamount
    · rw [reveal_commitment_of_ne hother]
      exact h.commitment_pos other stored
  · intro other stored
    by_cases hother : other = user
    · subst hother
      rw [reveal_commitment_self, reveal_prediction_self]
      rintro ⟨⟩ _
      exact ⟨_, rfl, rfl, rfl⟩
    · rw [reveal_commitment_of_ne hother, reveal_prediction_of_ne hother]
      exact h.revealed other stored
  · intro other stored
    by_cases hother : other = user
    · subst hother
      rw [reveal_commitment_self]
      rintro ⟨⟩ hrevealed
      simp at hrevealed
    · rw [reveal_commitment_of_ne hother, reveal_prediction_of_ne hother]
      exact h.unrevealed other stored

end Reveal

/-! ## Leaving a round -/

section Leave

variable {position : UserPosition}

theorem leave_sameBook {id : ℕ} (hid : id ≠ round.roundId) :
    SameBook rounds (rounds.leave round user position) id where
  listed := Store.get_set_of_ne _ _ hid
  position other := Store.get_remove_of_ne _ (key_ne hid other user)
  prediction _ := rfl
  commitment _ := rfl

theorem leave_participants : (rounds.leave round user position).participants round.roundId =
    (rounds.participants round.roundId).filter (· ≠ user) := by
  simp [Rounds.participants, Rounds.leave, Store.getD_set]

theorem leave_position_of_ne {other : A} (hother : other ≠ user) :
    (rounds.leave round user position).position.get (round.roundId, other) =
      rounds.position.get (round.roundId, other) :=
  Store.get_remove_of_ne _ (by simp [hother])

theorem leave_position_self :
    (rounds.leave round user position).position.get (round.roundId, user) = none :=
  Store.get_remove_self _ _

omit [DecidableEq A] in
/-- A sum over distinct items without one of them. -/
theorem sum_map_filter_ne [DecidableEq A] {users : List A} (hnodup : users.Nodup)
    (huser : user ∈ users) (f : A → ℤ) :
    ((users.filter (· ≠ user)).map f).sum = (users.map f).sum - f user := by
  have herase : users.filter (· ≠ user) = users.erase user := by
    rw [hnodup.erase_eq_filter]
    exact List.filter_congr fun other _ => by simp [bne, Bool.beq_eq_decide_eq]
  rw [herase, ← List.sum_map_erase f huser]
  omega

variable (hbook : Represents rounds round) (hmode : round.mode = .upDown)
  (hposition : rounds.position.get (round.roundId, user) = some position)
include hbook hmode hposition

/-- Leaving takes the stake out of the stakes of the round. -/
theorem leave_totalStake :
    (rounds.leave round user position).totalStake .upDown round.roundId =
      rounds.totalStake .upDown round.roundId - position.amount := by
  have hmem := ((hbook.upDown hmode).position_iff user).mp ⟨position, hposition⟩
  unfold Rounds.totalStake
  rw [leave_participants]
  have hold : ∀ other ∈ (rounds.participants round.roundId).filter (· ≠ user),
      (rounds.leave round user position).stakeOf .upDown round.roundId other =
        rounds.stakeOf .upDown round.roundId other := by
    intro other hother
    have hne : other ≠ user := by simpa using (List.mem_filter.mp hother).2
    simp [Rounds.stakeOf, leave_position_of_ne hne]
  rw [List.map_congr_left hold, sum_map_filter_ne hbook.nodup hmem]
  simp [Rounds.stakeOf, hposition]

theorem leave_sideTotal (side : BetSide) :
    (rounds.leave round user position).sideTotal round.roundId side =
      rounds.sideTotal round.roundId side -
        if position.side = side then position.amount else 0 := by
  have hmem := ((hbook.upDown hmode).position_iff user).mp ⟨position, hposition⟩
  unfold Rounds.sideTotal
  rw [leave_participants]
  have hold : ∀ other ∈ (rounds.participants round.roundId).filter (· ≠ user),
      (rounds.leave round user position).sideStake round.roundId side other =
        rounds.sideStake round.roundId side other := by
    intro other hother
    have hne : other ≠ user := by simpa using (List.mem_filter.mp hother).2
    simp [Rounds.sideStake, leave_position_of_ne hne]
  rw [List.map_congr_left hold, sum_map_filter_ne hbook.nodup hmem]
  simp [Rounds.sideStake, hposition]

/-- Leaving keeps the book of the round. -/
theorem leave_represents : Represents (rounds.leave round user position)
    (round.withPool position.side (-position.amount)) := by
  have h := hbook.upDown hmode
  refine ⟨?_, fun _ => ⟨?_, ?_, ?_, ?_, ?_, ?_⟩, fun hprecision => ?_⟩
  · rw [withPool_roundId, leave_participants]
    exact hbook.nodup.filter _
  · intro other
    rw [withPool_roundId, leave_participants]
    by_cases hother : other = user
    · subst hother
      simp [leave_position_self]
    · rw [leave_position_of_ne hother, h.position_iff]
      simp [hother]
  · intro other held
    rw [withPool_roundId]
    by_cases hother : other = user
    · subst hother
      rw [leave_position_self]
      rintro ⟨⟩
    · rw [leave_position_of_ne hother]
      exact h.amount_pos other held
  · rw [withPool_roundId, leave_sideTotal hbook hmode hposition, ← h.pool_up]
    cases hside : position.side <;> simp [Round.withPool, sub_eq_add_neg]
  · rw [withPool_roundId, leave_sideTotal hbook hmode hposition, ← h.pool_down]
    cases hside : position.side <;> simp [Round.withPool, sub_eq_add_neg]
  · rw [withPool_roundId]
    exact h.no_prediction
  · rw [withPool_roundId]
    exact h.no_commitment
  · rw [withPool_mode, hmode] at hprecision
    cases hprecision

end Leave

end DecidableAddress

/-! ## Closing a round -/

section Close

variable [LinearOrder A] {id roundId : ℕ}

omit [LinearOrder A] in
theorem mem_stakeKeys {key : ℕ × A} :
    key ∈ rounds.stakeKeys roundId ↔ key.1 = roundId ∧ key.2 ∈ rounds.participants roundId := by
  obtain ⟨id, user⟩ := key
  simp only [Rounds.stakeKeys, List.mem_map, Prod.mk.injEq]
  constructor
  · rintro ⟨other, hmem, rfl, rfl⟩
    exact ⟨rfl, hmem⟩
  · rintro ⟨rfl, hmem⟩
    exact ⟨user, hmem, rfl, rfl⟩

theorem close_sameBook (hid : id ≠ roundId) : SameBook rounds (rounds.close roundId) id := by
  have hkey : ∀ user, (id, user) ∉ rounds.stakeKeys roundId := fun user hmem =>
    hid (mem_stakeKeys.mp hmem).1
  constructor
  · exact Store.get_remove_of_ne _ hid
  · intro user
    simp [Rounds.close, Store.get_removeAll, hkey]
  · intro user
    simp [Rounds.close, Store.get_removeAll, hkey]
  · intro user
    simp [Rounds.close, Store.get_removeAll, hkey]

/-- Nothing of a closed round remains. -/
theorem close_noBook (hbook : Represents rounds round) :
    NoBook (rounds.close round.roundId) round.roundId := by
  have hclosed : ∀ {V : Type} (entries : Store (ℕ × A) V),
      (∀ user, user ∉ rounds.participants round.roundId →
        entries.get (round.roundId, user) = none) →
      ∀ user, (entries.removeAll (rounds.stakeKeys round.roundId)).get
        (round.roundId, user) = none := by
    intro V entries hnone user
    rw [Store.get_removeAll]
    split
    · rfl
    · next hmem => exact hnone user fun h => hmem (mem_stakeKeys.mpr ⟨rfl, h⟩)
  refine ⟨Store.get_remove_self _ _, hclosed _ fun user hmem => ?_,
    hclosed _ fun user hmem => ?_, hclosed _ fun user hmem => ?_⟩
  all_goals
    refine Option.eq_none_iff_forall_ne_some.mpr fun entry hentry => hmem ?_
    cases hmode : round.mode with
    | upDown =>
        have h := hbook.upDown hmode
        first
        | exact (h.position_iff user).mp ⟨entry, hentry⟩
        | simp [h.no_prediction, h.no_commitment] at hentry
    | precision =>
        have h := hbook.precision hmode
        first
        | exact (h.staked_iff user).mp (.inl ⟨entry, hentry⟩)
        | exact (h.staked_iff user).mp (.inr ⟨entry, hentry⟩)
        | simp [h.no_position] at hentry

/-- The rounds after an ending keep the books the closing keeps. -/
theorem roundsAfter_sameBook (ending : Ending) (id : ℕ) :
    SameBook (rounds.close ending.round.roundId) (ending.roundsAfter rounds) id := by
  unfold Ending.roundsAfter
  cases ending.kind <;> exact ⟨rfl, fun _ => rfl, fun _ => rfl, fun _ => rfl⟩

theorem roundsAfter_other (ending : Ending) (hid : id ≠ ending.round.roundId) :
    SameBook rounds (ending.roundsAfter rounds) id :=
  (close_sameBook hid).trans (roundsAfter_sameBook ending id)

@[simp] theorem roundsAfter_last (ending : Ending) :
    (ending.roundsAfter rounds).lastRoundId = rounds.lastRoundId := by
  unfold Ending.roundsAfter
  cases ending.kind <;> rfl

@[simp] theorem roundsAfter_started (ending : Ending) :
    (ending.roundsAfter rounds).roundStartLedger = rounds.roundStartLedger := by
  unfold Ending.roundsAfter
  cases ending.kind <;> rfl

/-- No round becomes active at an ending. -/
theorem active_of_roundsAfter {ending : Ending} {active : Round}
    (hactive : (ending.roundsAfter rounds).activeRound = some active) :
    rounds.activeRound = some active := by
  unfold Ending.roundsAfter at hactive
  cases hkind : ending.kind <;> simp_all [Rounds.close]

/-- No round becomes staged at an ending. -/
theorem staged_of_roundsAfter {ending : Ending} {pending : PendingDisputeSettlement}
    (hget : (ending.roundsAfter rounds).pendingDisputes.get id = some pending) :
    rounds.pendingDisputes.get id = some pending := by
  unfold Ending.roundsAfter at hget
  cases hkind : ending.kind with
  | resolved _ | fallbackRefund | cancelled _ => simpa [hkind, Rounds.close] using hget
  | finalized _ | voided =>
      simp only [hkind, Store.get_remove, Rounds.close] at hget
      split at hget
      · cases hget
      · exact hget

/-- Nothing of an ended round remains. -/
theorem roundsAfter_noBook {ending : Ending} (hbook : Represents rounds ending.round) :
    NoBook (ending.roundsAfter rounds) ending.round.roundId := by
  have hsame := @roundsAfter_sameBook _ rounds _ ending ending.round.roundId
  have hnone := close_noBook hbook
  exact ⟨hsame.listed.trans hnone.listed,
    fun user => (hsame.position user).trans (hnone.position user),
    fun user => (hsame.prediction user).trans (hnone.prediction user),
    fun user => (hsame.commitment user).trans (hnone.commitment user)⟩

end Close

/-! ## The rounds stay in order -/

section Ordered

variable {rounds' : Rounds A}

/-- What a stake placed in the active round did to the rounds, whichever way it was placed. -/
structure Joined (rounds : Rounds A) (round : Round) (user : A) (amount : ℤ)
    (rounds' : Rounds A) : Prop where
  fresh : user ∉ rounds.participants round.roundId
  participants : rounds'.participants round.roundId =
    rounds.participants round.roundId ++ [user]
  active : ∃ round', rounds'.activeRound = some round' ∧ round'.roundId = round.roundId ∧
    round'.mode = round.mode ∧ round'.betEndLedger = round.betEndLedger ∧
    Represents rounds' round'
  other : ∀ id, id ≠ round.roundId → SameBook rounds rounds' id
  staked : rounds'.stakeOf round.mode round.roundId user = amount
  total : rounds'.totalStake round.mode round.roundId =
    rounds.totalStake round.mode round.roundId + amount
  last : rounds'.lastRoundId = rounds.lastRoundId
  started : rounds'.roundStartLedger = rounds.roundStartLedger
  staged : rounds'.pendingDisputes = rounds.pendingDisputes

theorem Placement.joined [DecidableEq A] {call : Call A} (hbook : Represents rounds round)
    (hactive : rounds.activeRound = some round) (hamount : 0 < amount)
    (hplaced : Placement rounds round user amount call rounds') :
    Joined rounds round user amount rounds' := by
  cases hplaced with
  | bet side hmode hnew =>
      have h := hbook.upDown hmode
      refine ⟨h.not_mem hnew, bet_participants, ⟨round.withPool side amount, rfl, by simp, by simp,
        ?_, bet_represents hbook hmode hnew hamount⟩, fun id hid => bet_sameBook hid, ?_, ?_, rfl,
        rfl, rfl⟩
      · cases side <;> rfl
      · rw [hmode]
        simp [Rounds.stakeOf, bet_position_self]
      · rw [hmode]
        exact bet_totalStake h hnew
  | predict call price hcall hmode hnew =>
      have h := hbook.precision hmode
      refine ⟨h.not_mem hnew, participants_of_join rfl, ⟨round, hactive, rfl, rfl, rfl,
        predict_represents hbook hmode hnew hamount⟩, fun id hid => predict_sameBook hid, ?_, ?_,
        rfl, rfl, rfl⟩
      · rw [hmode]
        simp [Rounds.stakeOf, precisionStake, predict_prediction_self]
      · rw [hmode]
        exact predict_totalStake h hnew
  | commit hash hmode hnew =>
      have h := hbook.precision hmode
      have hnone : (rounds.commit round user amount hash).precisionPosition.get
          (round.roundId, user) = none := hnew.1
      refine ⟨h.not_mem hnew, participants_of_join rfl, ⟨round, hactive, rfl, rfl, rfl,
        commit_represents hbook hmode hnew hamount⟩, fun id hid => commit_sameBook hid, ?_, ?_,
        rfl, rfl, rfl⟩
      · rw [hmode]
        simp [Rounds.stakeOf, precisionStake, commit_commitment_self, hnone]
      · rw [hmode]
        exact commit_totalStake h hnew

theorem Joined.ordered (hordered : rounds.Ordered) (hactive : rounds.activeRound = some round)
    (hroom : (rounds.participants round.roundId).length < maxVecLength)
    (hjoined : Joined rounds round user amount rounds') : rounds'.Ordered := by
  obtain ⟨round', hround', hid, -, -, hbook⟩ := hjoined.active
  refine hordered.touch_active hactive hround' hid hbook hjoined.other hjoined.last hjoined.staged
    ?_
  rw [hjoined.participants, List.length_append]
  exact hroom

theorem reveal_ordered [DecidableEq A] {commitment : PrecisionCommitment} {price : ℕ}
    (hordered : rounds.Ordered) (hactive : rounds.activeRound = some round)
    (hmode : round.mode = .precision)
    (hcommitment : rounds.precisionCommitment.get (round.roundId, user) = some commitment) :
    (rounds.reveal round user commitment price).Ordered := by
  have hbook := @reveal_represents _ _ _ _ _ price _ (hordered.active_represented hactive) hmode
    hcommitment
  exact hordered.touch_active hactive hactive rfl hbook (fun id hid => reveal_sameBook hid) rfl rfl
    (hordered.room round.roundId)

theorem leave_ordered [DecidableEq A] {position : UserPosition} (hordered : rounds.Ordered)
    (hactive : rounds.activeRound = some round) (hmode : round.mode = .upDown)
    (hposition : rounds.position.get (round.roundId, user) = some position) :
    (rounds.leave round user position).Ordered := by
  have hbook := leave_represents (hordered.active_represented hactive) hmode hposition
  refine hordered.touch_active hactive rfl (by simp) hbook (fun id hid => leave_sameBook hid) rfl
    rfl ?_
  rw [leave_participants]
  exact (List.length_filter_le _ _).trans (hordered.room round.roundId)

/-- Opening the next round keeps the rounds in order: its id has no book yet. -/
theorem openRound_ordered (hordered : rounds.Ordered)
    (hid : round.roundId = rounds.lastRoundId.getD 0 + 1)
    (hpools : round.poolUp = 0 ∧ round.poolDown = 0) : (rounds.openRound round).Ordered := by
  have hnone : NoBook rounds round.roundId := hordered.noBook_of_later (by omega)
  have hbook : Represents (rounds.openRound round) round := by
    refine NoBook.represents ?_ hpools
    exact ⟨hnone.listed, hnone.position, hnone.prediction, hnone.commitment⟩
  have hlast : (rounds.openRound round).lastRoundId = some round.roundId := rfl
  refine hordered.touch round.roundId (fun id _ => ⟨rfl, fun _ => rfl, fun _ => rfl, fun _ => rfl⟩)
    ⟨round, rfl, hbook⟩ (by simp [hlast]; omega) (by simp [hlast])
    (hordered.room round.roundId) ?_ ?_
  · intro active h
    obtain rfl := Option.some.inj h
    refine ⟨rfl, ?_, .inl ⟨rfl, hbook⟩⟩
    refine Option.eq_none_iff_forall_ne_some.mpr fun pending hpending => ?_
    have := hordered.staged_known _ pending hpending
    omega
  · intro id pending hpending
    have := hordered.staged_known id pending hpending
    exact .inr ⟨by omega, hpending⟩

/-- Staging the active round keeps the rounds in order. -/
theorem stage_ordered (hordered : rounds.Ordered) {pending : PendingDisputeSettlement}
    (hactive : rounds.activeRound = some pending.round) : (rounds.stage pending).Ordered := by
  have hsame : ∀ id, SameBook rounds (rounds.stage pending) id := fun id =>
    ⟨rfl, fun _ => rfl, fun _ => rfl, fun _ => rfl⟩
  have hbook := (hsame _).represents (hordered.active_represented hactive)
  have hlast := hordered.active_last _ hactive
  refine hordered.touch pending.round.roundId (fun id _ => hsame id) ⟨_, rfl, hbook⟩ le_rfl
    (by simp [Rounds.stage, hlast]) (hordered.room _) (fun round h => by cases h) ?_
  intro id other hother
  simp only [Rounds.stage, Store.get_set] at hother
  split at hother
  · next hid =>
      obtain rfl := Option.some.inj hother
      exact .inl ⟨hid, rfl, hbook⟩
  · next hid => exact .inr ⟨hid, hother⟩

/-- Ending a live round keeps the rounds in order. -/
theorem roundsAfter_ordered [LinearOrder A] (hordered : rounds.Ordered) {ending : Ending}
    (hlive : rounds.IsLive ending.round.roundId ending.round)
    (hactive : ∀ round, (ending.roundsAfter rounds).activeRound = some round →
      round.roundId ≠ ending.round.roundId)
    (hstaged : (ending.roundsAfter rounds).pendingDisputes.get ending.round.roundId = none) :
    (ending.roundsAfter rounds).Ordered := by
  have hbook := (hordered.live _ _ hlive).2
  have hnone := roundsAfter_noBook hbook
  have hknown : ending.round.roundId ≤ rounds.lastRoundId.getD 0 := by
    rcases hlive with ⟨hround, -⟩ | ⟨pending, hget, -⟩
    · simp [hordered.active_last _ hround]
    · exact hordered.staged_known _ pending hget
  have hempty : Represents (ending.roundsAfter rounds)
      { ending.round with poolUp := 0, poolDown := 0 } :=
    NoBook.represents hnone ⟨rfl, rfl⟩
  refine hordered.touch ending.round.roundId (fun id hid => roundsAfter_other ending hid)
    ⟨{ ending.round with poolUp := 0, poolDown := 0 }, rfl, hempty⟩
    (by rw [roundsAfter_last]) (by rwa [roundsAfter_last]) (by simp [hnone.participants]) ?_ ?_
  · intro round hround
    refine ⟨?_, ?_, .inr ⟨hactive round hround, active_of_roundsAfter hround⟩⟩
    · rw [roundsAfter_last]
      exact hordered.active_last round (active_of_roundsAfter hround)
    · refine Option.eq_none_iff_forall_ne_some.mpr fun pending hget => ?_
      have hnot := hordered.active_not_staged round (active_of_roundsAfter hround)
      simp [staged_of_roundsAfter hget] at hnot
  · intro id pending hget
    refine .inr ⟨?_, staged_of_roundsAfter hget⟩
    rintro rfl
    simp [hstaged] at hget

end Ordered

end XelmaMarket
