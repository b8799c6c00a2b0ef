import XelmaMarket.PrecisionLimits

/-!
# Commitments and reveals

A reveal is accepted for a user whose own commitment holds the hash of the revealed price and salt.
The hash binds the price and the salt, but not the user, so a pair is revealed by one user only as
long as no user commits to a hash of another.
-/

namespace XelmaMarket

open Transaction

variable {A : Type} [LinearOrder A] {env : Env A} {s s' : Storage A} {call : Call A}
  {host : Host A} {chain chain' : Chain A} {action : Action A}
  {trace : List (Transition (Chain A) (Action A))}

/-- A transition commits a user to a hash. -/
def CommitsTo (transition : Transition (Chain A) (Action A)) (user : A) (hash : BytesN 32) : Prop :=
  ∃ signers amount, transition.label = .invoke signers (.commitPrediction user hash amount)

/-- A transition reveals a price and a salt of a user. -/
def RevealsPair (transition : Transition (Chain A) (Action A)) (user : A) (price : ℕ)
    (salt : BytesN 32) : Prop :=
  ∃ signers, transition.label = .invoke signers (.revealPrediction user price salt)

/-- No two users commit to the same hash. -/
def CommitsApart (trace : List (Transition (Chain A) (Action A))) : Prop :=
  ∀ first ∈ trace, ∀ second ∈ trace, ∀ user other hash,
    CommitsTo first user hash → CommitsTo second other hash → user = other

/-- No two users reveal the same price and salt. -/
def RevealsApart (trace : List (Transition (Chain A) (Action A))) : Prop :=
  ∀ first ∈ trace, ∀ second ∈ trace, ∀ user other price salt,
    RevealsPair first user price salt → RevealsPair second other price salt → user = other

/-- Every stored commitment was made by its user. -/
def Committed (trace : List (Transition (Chain A) (Action A))) (chain : Chain A) : Prop :=
  ∀ roundId user commitment,
    chain.storage.rounds.precisionCommitment.get (roundId, user) = some commitment →
    ∃ transition ∈ trace, CommitsTo transition user commitment.hash

/-! ## Where a commitment comes from -/

/-- A hash is stored for a user of a round. -/
def Rounds.Stores (rounds : Rounds A) (key : ℕ × A) (hash : BytesN 32) : Prop :=
  ∃ commitment, rounds.precisionCommitment.get key = some commitment ∧ commitment.hash = hash

/-- The hash of a commitment stored after a successful call was stored before, or the call commits
to it. -/
theorem Effect.commitmentStored (heffect : Effect env s call s') {key : ℕ × A}
    {commitment : PrecisionCommitment}
    (hget : s'.rounds.precisionCommitment.get key = some commitment) :
    s.rounds.Stores key commitment.hash ∨
      ∃ amount, call = .commitPrediction key.2 commitment.hash amount := by
  have hkept : s.rounds.precisionCommitment.get key = some commitment →
      s.rounds.Stores key commitment.hash := fun hbefore => ⟨commitment, hbefore, rfl⟩
  cases heffect with
  | quiet _ _ hsame => exact .inl (hkept (hsame.rounds ▸ hget))
  | mint _ _ _ _ _ hsame | treasuryAddress _ _ _ _ _ _ _ _ hsame | payFee _ _ _ _ _ _ _ hsame
  | payFund _ _ _ _ _ _ _ hsame | topUp _ _ _ _ _ _ _ hsame
  | reclaim _ _ _ _ _ _ _ _ _ _ _ hsame | claim _ _ _ _ _ _ hsame =>
      exact .inl (hkept (hsame.rounds ▸ hget))
  | openRound _ _ _ _ _ _ _ _ _ hrounds | stage _ _ _ _ _ _ _ _ _ _ hrounds
  | cashOut _ _ _ _ _ _ _ _ _ _ _ _ hrounds =>
      rw [hrounds] at hget
      exact .inl (hkept hget)
  | stake _ round user amount _ _ _ _ _ _ hplaced =>
      generalize s'.rounds = rounds' at hplaced hget
      cases hplaced with
      | bet | predict => exact .inl (hkept hget)
      | commit hash =>
          simp only [Rounds.commit, Store.get_set] at hget
          split at hget
          · next hkey =>
              obtain rfl := Option.some.inj hget
              exact .inr ⟨amount, by rw [hkey]⟩
          · exact .inl (hkept hget)
  | reveal round user _ _ before _ _ _ hbefore _ _ hrounds =>
      simp only [hrounds, Rounds.reveal, Store.get_set] at hget
      split at hget
      · next hkey =>
          obtain rfl := Option.some.inj hget
          exact .inl ⟨before, by rw [hkey, hbefore], rfl⟩
      · exact .inl (hkept hget)
  | ending _ ending _ _ hends =>
      obtain ⟨id, user⟩ := key
      rw [hends.rounds, (roundsAfter_sameBook ending id).commitment user] at hget
      simp only [Rounds.close, Store.get_removeAll] at hget
      split at hget
      · cases hget
      · exact .inl (hkept hget)

/-- Every step keeps the commitments made by their users. -/
theorem Step.committed (hstep : Step host chain action chain') (hhealthy : chain.Healthy)
    (hcommitted : Committed trace chain) :
    Committed (trace ++ [⟨chain, action, chain'⟩]) chain' := by
  intro roundId user commitment hget
  have hearlier : chain.storage.rounds.Stores (roundId, user) commitment.hash →
      ∃ transition ∈ trace ++ [⟨chain, action, chain'⟩],
        CommitsTo transition user commitment.hash := by
    rintro ⟨before, hbefore, hhash⟩
    obtain ⟨transition, hmem, hcommits⟩ := hcommitted roundId user before hbefore
    exact ⟨transition, List.mem_append_left _ hmem, hhash ▸ hcommits⟩
  obtain ⟨signers, call, rfl⟩ | ⟨-, meter, hsame⟩ := hstep.invokes_or_idles
  · rcases (hhealthy.effect hstep).commitmentStored hget with hstored | ⟨amount, hcall⟩
    · exact hearlier hstored
    · exact ⟨_, List.mem_append_right _ (List.mem_singleton_self _), signers, amount,
        congrArg _ hcall⟩
  · rw [hsame] at hget
    exact hearlier ⟨commitment, hget, rfl⟩

/-- In every history each stored commitment was made by its user. -/
theorem History.committed (hhistory : History host trace chain) : Committed trace chain := by
  obtain ⟨ledger, hrun⟩ := hhistory
  refine hrun.invariant_of_trace Committed (fun _ _ _ hget => (nomatch hget))
    fun earlier transition hearlier hstep hbefore => ?_
  exact hbefore |> hstep.committed (History.healthy ⟨ledger, hearlier⟩)

/-! ## What a reveal opens -/

/-- A reveal opens the user's own commitment. -/
theorem revealPrediction_opens (user : A) (price : ℕ) (salt : BytesN 32) :
    Ensures (revealPrediction user price salt) env s fun _ _ => ∃ roundId,
      s.rounds.Stores (roundId, user)
        (env.host.sha256 (env.host.u128Xdr price ++ env.host.bytes32Xdr salt)) := by
  simp only [revealPrediction, readActiveRound, ensures_bind, ensures_onControl,
    ensures_requireAuth, ensureNormalMode, ensures_policyGate, ensures_enforceAccessControl,
    ensures_reject, ensures_gets, ensures_orError, ensures_ledgerSequence, ensures_asks,
    ensures_updateRounds]
  intro _ _ _ _ _ round _ _ _ commitment hcommitment _ hhash
  exact ⟨round.roundId, commitment, hcommitment, (not_not.mp hhash).symm⟩

/-- Whoever reveals a price and a salt committed to their hash before. -/
theorem History.committed_of_reveal (hhistory : History host trace chain)
    {transition : Transition (Chain A) (Action A)} (hmem : transition ∈ trace) {user : A}
    {price : ℕ} {salt : BytesN 32} (hreveals : RevealsPair transition user price salt) :
    ∃ commit ∈ trace, CommitsTo commit user
      (host.sha256 (host.u128Xdr price ++ host.bytes32Xdr salt)) := by
  obtain ⟨signers, hlabel⟩ := hreveals
  obtain ⟨earlier, later, rfl⟩ := List.append_of_mem hmem
  obtain ⟨hearlier, hstep, -⟩ := hhistory.cut
  rw [hlabel] at hstep
  obtain ⟨roundId, commitment, hget, hhash⟩ :=
    hstep.ensured (revealPrediction_opens user price salt)
  obtain ⟨commit, hcommit, hcommits⟩ := hearlier.committed roundId user commitment hget
  exact ⟨commit, List.mem_append_left _ hcommit, hhash ▸ hcommits⟩

/-- In every history in which no two users commit to the same hash, no pair of price and salt is
accepted as the reveal of two users, in whatever rounds. -/
theorem reveals_apart (hhistory : History host trace chain) (hapart : CommitsApart trace) :
    RevealsApart trace := by
  intro first hfirst second hsecond user other price salt huser hother
  obtain ⟨commit, hcommit, hcommits⟩ := hhistory.committed_of_reveal hfirst huser
  obtain ⟨commit', hcommit', hcommits'⟩ := hhistory.committed_of_reveal hsecond hother
  exact hapart commit hcommit commit' hcommit' user other _ hcommits hcommits'

/-- The hash of a price under the trial salt. -/
def trialHash (price : ℕ) : BytesN 32 :=
  hashingHost.sha256 (xdrOfU128 price ++ xdrOfBytes32 trialSalt)

/-- Users 3 and 4 commit to a price each, under the same salt, and reveal it. -/
def twoReveals (first second : ℕ) : List (Action ℕ) := trialSetup ++ [
  .invoke [1] (.createRound 100 (some 1)),
  .invoke [3] (.commitPrediction 3 (trialHash first) 41),
  .invoke [4] (.commitPrediction 4 (trialHash second) 31),
  .closeLedger (ledgerAt 8),
  .invoke [3] (.revealPrediction 3 first trialSalt),
  .invoke [4] (.revealPrediction 4 second trialSalt)]

/-- Users 3 and 4 reveal the different prices they committed to. -/
theorem different_prices_revealed : ∃ trace, ∃ chain : Chain ℕ,
    History hashingHost trace chain ∧
      chain.storage.rounds.precisionPosition.get (1, 4) = some ⟨4, 100000000, 31⟩ ∧
      RevealsApart trace := by
  obtain ⟨trace, chain, hhistory, hlabels, hfits⟩ := exists_history hashingHost
    (twoReveals 1010 100000000)
    (fun chain => chain.storage.rounds.precisionPosition.get (1, 4) ==
      some ⟨4, 100000000, 31⟩) (by decide +kernel)
  have hcommits : ∀ transition ∈ trace, ∀ user hash, CommitsTo transition user hash →
      (user, hash) ∈ [(3, trialHash 1010), (4, trialHash 100000000)] := by
    rintro transition hmem user hash ⟨signers, amount, hlabel⟩
    have hmem' : transition.label ∈ twoReveals 1010 100000000 := hlabels ▸ List.mem_map_of_mem hmem
    simp only [hlabel, twoReveals, trialSetup] at hmem'
    simp at hmem'
    rcases hmem' with ⟨-, rfl, rfl, -⟩ | ⟨-, rfl, rfl, -⟩
    · exact List.mem_cons_self
    · exact List.mem_cons_of_mem _ (List.mem_singleton_self _)
  have hdiffer : trialHash 1010 ≠ trialHash 100000000 := by decide +kernel
  refine ⟨trace, chain, hhistory, by simpa using hfits, reveals_apart hhistory ?_⟩
  intro first hfirst second hsecond user other hash huser hother
  have hfirst' := hcommits first hfirst user hash huser
  have hsecond' := hcommits second hsecond other hash hother
  simp only [List.mem_cons, Prod.mk.injEq, List.not_mem_nil, or_false] at hfirst' hsecond'
  rcases hfirst' with ⟨rfl, rfl⟩ | ⟨rfl, rfl⟩ <;> rcases hsecond' with ⟨rfl, h⟩ | ⟨rfl, h⟩
  · rfl
  · exact absurd h hdiffer
  · exact absurd h.symm hdiffer
  · rfl

/-- User 4 commits to the hash of user 3, and repeats the reveal of user 3. -/
theorem copied_commitment_revealed : ¬ ∀ (trace : List (Transition (Chain ℕ) (Action ℕ))) chain,
    History hashingHost trace chain → RevealsApart trace := by
  intro hclaim
  obtain ⟨trace, chain, hhistory, hlabels, -⟩ := exists_history hashingHost (twoReveals 1010 1010)
    (fun _ => true) (by decide +kernel)
  have hreveals : ∀ action ∈ twoReveals 1010 1010, ∃ transition ∈ trace,
      transition.label = action := by
    rw [← hlabels]
    exact fun action hmem => List.mem_map.mp hmem
  obtain ⟨first, hfirst, hlabel⟩ := hreveals (.invoke [3] (.revealPrediction 3 1010 trialSalt))
    (by simp [twoReveals])
  obtain ⟨second, hsecond, hlabel'⟩ := hreveals (.invoke [4] (.revealPrediction 4 1010 trialSalt))
    (by simp [twoReveals])
  have hsame := hclaim trace chain hhistory first hfirst second hsecond 3 4 1010 trialSalt
    ⟨[3], hlabel⟩ ⟨[4], hlabel'⟩
  cases hsame

end XelmaMarket
