import XelmaMarket.RoundLife

/-!
# A plan reads the book of its round

The plan of a settlement depends on the stakes under the id of its round and on who takes part,
not on the order in which they came and not on any other round.
-/

namespace XelmaMarket

variable {A : Type}

/-- The stakes under a round id are as they were; the list of participants may differ. -/
structure SameStakes (rounds rounds' : Rounds A) (roundId : ℕ) : Prop where
  position : ∀ user, rounds'.position.get (roundId, user) = rounds.position.get (roundId, user)
  prediction : ∀ user, rounds'.precisionPosition.get (roundId, user) =
    rounds.precisionPosition.get (roundId, user)
  commitment : ∀ user, rounds'.precisionCommitment.get (roundId, user) =
    rounds.precisionCommitment.get (roundId, user)

namespace SameStakes

variable {rounds rounds' : Rounds A} {roundId : ℕ}

theorem of_sameBook (hsame : SameBook rounds rounds' roundId) : SameStakes rounds rounds' roundId :=
  ⟨hsame.position, hsame.prediction, hsame.commitment⟩

theorem symm (hsame : SameStakes rounds rounds' roundId) : SameStakes rounds' rounds roundId :=
  ⟨fun user => (hsame.position user).symm, fun user => (hsame.prediction user).symm,
    fun user => (hsame.commitment user).symm⟩

theorem trans {rounds'' : Rounds A} (hfirst : SameStakes rounds rounds' roundId)
    (hsecond : SameStakes rounds' rounds'' roundId) : SameStakes rounds rounds'' roundId where
  position user := (hsecond.position user).trans (hfirst.position user)
  prediction user := (hsecond.prediction user).trans (hfirst.prediction user)
  commitment user := (hsecond.commitment user).trans (hfirst.commitment user)

theorem precisionStake (hsame : SameStakes rounds rounds' roundId) (user : A) :
    XelmaMarket.precisionStake rounds' roundId user =
      XelmaMarket.precisionStake rounds roundId user := by
  simp only [XelmaMarket.precisionStake, hsame.prediction, hsame.commitment]

theorem stakeOf (hsame : SameStakes rounds rounds' roundId) (mode : RoundMode) :
    rounds'.stakeOf mode roundId = rounds.stakeOf mode roundId := by
  funext user
  cases mode with
  | upDown => simp only [Rounds.stakeOf, hsame.position]
  | precision => exact hsame.precisionStake user

theorem outcomeRecord (hsame : SameStakes rounds rounds' roundId) (mode : RoundMode) :
    rounds'.outcomeRecord mode roundId = rounds.outcomeRecord mode roundId := by
  funext price user payout outcome
  cases mode with
  | upDown => simp only [Rounds.outcomeRecord, hsame.stakeOf, hsame.position]
  | precision => simp only [Rounds.outcomeRecord, hsame.stakeOf]

theorem revealedPrice (hsame : SameStakes rounds rounds' roundId) :
    XelmaMarket.revealedPrice rounds' roundId = XelmaMarket.revealedPrice rounds roundId := by
  funext user
  simp only [XelmaMarket.revealedPrice, hsame.prediction]

theorem betOn (hsame : SameStakes rounds rounds' roundId) (side : BetSide) :
    rounds'.betOn roundId side = rounds.betOn roundId side := by
  funext user
  simp only [Rounds.betOn, hsame.position]

theorem isWinner_iff (hsame : SameStakes rounds rounds' roundId) (finalPrice : ℕ)
    (participants : List A) (user : A) :
    rounds'.IsWinner roundId finalPrice participants user ↔
      rounds.IsWinner roundId finalPrice participants user := by
  simp only [Rounds.IsWinner, hsame.prediction]

theorem winners (hsame : SameStakes rounds rounds' roundId) (finalPrice : ℕ)
    (participants : List A) :
    rounds'.winners roundId finalPrice participants =
      rounds.winners roundId finalPrice participants := by
  simp only [Rounds.winners, hsame.isWinner_iff]

variable {round : Round}

theorem refundRecords (hsame : SameStakes rounds rounds' round.roundId) :
    rounds'.refundRecords round = rounds.refundRecords round := by
  funext price outcome participants
  simp only [Rounds.refundRecords, hsame.outcomeRecord, hsame.stakeOf]

theorem upDownPlan (hsame : SameStakes rounds rounds' round.roundId) (terms : Terms)
    (finalPrice : ℕ) (participants : List A) :
    terms.upDownPlan rounds' round finalPrice participants =
      terms.upDownPlan rounds round finalPrice participants := by
  have hrecord : terms.upDownRecord rounds' round = terms.upDownRecord rounds round := by
    funext side user
    simp only [Terms.upDownRecord, hsame.betOn, hsame.outcomeRecord, hsame.stakeOf]
  simp only [Terms.upDownPlan, hsame.refundRecords, hrecord]

theorem precisionPlan (hsame : SameStakes rounds rounds' round.roundId) (terms : Terms)
    (finalPrice : ℕ) (participants : List A) :
    terms.precisionPlan rounds' round finalPrice participants =
      terms.precisionPlan rounds round finalPrice participants := by
  have hloss : rounds'.lossRecord round.roundId = rounds.lossRecord round.roundId := by
    funext user
    simp only [Rounds.lossRecord, hsame.outcomeRecord, hsame.revealedPrice]
  have hwin : terms.winRecords rounds' round.roundId = terms.winRecords rounds round.roundId := by
    funext pool winners
    simp only [Terms.winRecords, hsame.outcomeRecord, hsame.revealedPrice, hsame.stakeOf]
  simp only [Terms.precisionPlan, Rounds.stakesOf, hsame.winners, hsame.refundRecords, hloss,
    hwin, hsame.isWinner_iff, hsame.stakeOf]

end SameStakes

variable [LinearOrder A]

/-- The sorted list does not depend on the order of arrival. -/
theorem sortAddresses_congr {addresses addresses' : List A} (hperm : addresses'.Perm addresses) :
    sortAddresses addresses' = sortAddresses addresses := by
  have hsorted := List.pairwise_insertionSort (· ≤ ·) addresses
  have hsorted' := List.pairwise_insertionSort (· ≤ ·) addresses'
  have hsame : (sortAddresses addresses').Perm (sortAddresses addresses) :=
    (sortAddresses_perm _).trans (hperm.trans (sortAddresses_perm _).symm)
  exact List.Perm.eq_of_pairwise (fun _ _ _ _ => le_antisymm) hsorted' hsorted hsame

/-- A settlement at a price is planned from the stakes and the participants in any order. -/
theorem SameStakes.plan {rounds rounds' : Rounds A} {round : Round}
    (hsame : SameStakes rounds rounds' round.roundId)
    (hperm : (rounds'.participants round.roundId).Perm (rounds.participants round.roundId))
    (terms : Terms) (finalPrice : ℕ) :
    terms.plan rounds' round finalPrice = terms.plan rounds round finalPrice := by
  simp only [Terms.plan, sortAddresses_congr hperm, hsame.upDownPlan, hsame.precisionPlan]

end XelmaMarket
