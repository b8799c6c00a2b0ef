import XelmaMarket.History

/-!
# Running the contract

The chain as a function: an action either happens, in one way, or does not. A list of actions that
all happen is a run, so concrete histories are found by evaluation.
-/

namespace XelmaMarket

variable {A : Type} [LinearOrder A]

/-- The chain after an action, when it can happen. -/
def Chain.perform (host : Host A) (chain : Chain A) : Action A → Option (Chain A)
  | .closeLedger ledger =>
      if chain.ledger.sequence ≤ ledger.sequence ∧ chain.ledger.timestamp ≤ ledger.timestamp then
        some { chain with ledger }
      else
        none
  | .expire key =>
      some { chain with
        storage := { chain.storage with meter := chain.storage.meter.expire key } }
  | .invoke signers call =>
      match call.exec ⟨host, chain.ledger, signers⟩ chain.storage with
      | .ok (_, storage) => some { chain with storage }
      | .error _ => none

/-- The chain after an action was submitted: what a failed one wrote is rolled back. -/
def Chain.submit (host : Host A) (chain : Chain A) (action : Action A) : Chain A :=
  (chain.perform host action).getD chain

/-- The chain after several actions, when they all happen. -/
def Chain.performAll (host : Host A) (chain : Chain A) (actions : List (Action A)) :
    Option (Chain A) :=
  actions.foldlM (Chain.perform host) chain

variable {host : Host A} {chain chain' : Chain A} {actions : List (Action A)}

/-- An action happens exactly when it is a step. -/
theorem perform_eq_some_iff {action : Action A} :
    chain.perform host action = some chain' ↔ Step host chain action chain' := by
  constructor
  · intro hperform
    cases action with
    | closeLedger ledger =>
        simp only [Chain.perform] at hperform
        split at hperform
        · next hlater =>
            obtain rfl := Option.some.inj hperform
            exact .closeLedger chain ledger hlater.1 hlater.2
        · cases hperform
    | expire key =>
        obtain rfl := Option.some.inj hperform
        exact .expire chain key
    | invoke signers call =>
        simp only [Chain.perform] at hperform
        split at hperform
        · next storage hrun =>
            obtain rfl := Option.some.inj hperform
            exact .invoke chain signers call storage hrun
        · cases hperform
  · intro hstep
    cases hstep with
    | closeLedger ledger hsequence htimestamp => simp [Chain.perform, hsequence, htimestamp]
    | expire key => rfl
    | invoke signers call storage hrun => simp [Chain.perform, hrun]

/-- An action that cannot happen leaves the chain as it was. -/
theorem submit_eq_of_failed {action : Action A}
    (hfailed : ∀ chain', ¬ Step host chain action chain') : chain.submit host action = chain := by
  unfold Chain.submit
  cases hperform : chain.perform host action with
  | none => rfl
  | some chain' => exact absurd (perform_eq_some_iff.mp hperform) (hfailed chain')

/-- Actions that all happen are a run with these labels. -/
theorem run_of_performAll (hperform : chain.performAll host actions = some chain') :
    ∃ trace, Run (Step host) chain trace chain' ∧ trace.map (·.label) = actions := by
  unfold Chain.performAll at hperform
  induction actions using List.reverseRec generalizing chain' with
  | nil =>
      obtain rfl := Option.some.inj hperform
      exact ⟨[], .nil chain, rfl⟩
  | append_singleton earlier action ih =>
      rw [List.foldlM_append] at hperform
      obtain ⟨middle, hearlier, hlast⟩ := Option.bind_eq_some_iff.mp hperform
      rw [List.foldlM_cons] at hlast
      obtain ⟨after, hafter, hnil⟩ := Option.bind_eq_some_iff.mp hlast
      obtain rfl := Option.some.inj hnil
      obtain ⟨trace, hrun, hlabels⟩ := ih hearlier
      exact ⟨_, .snoc hrun (perform_eq_some_iff.mp hafter), by simp [hlabels]⟩

/-- A chain that actions lead to from the deployment is reachable. -/
theorem reachable_of_performAll {ledger : Ledger}
    (hperform : (Chain.genesis ledger).performAll host actions = some chain) :
    Reachable host chain := by
  obtain ⟨trace, hrun, -⟩ := run_of_performAll hperform
  exact ⟨trace, ledger, hrun⟩

/-- The chain after several actions, when they all happen and every transition passes a check. -/
def Chain.follow (host : Host A) (fits : Transition (Chain A) (Action A) → Bool) (chain : Chain A) :
    List (Action A) → Option (Chain A)
  | [] => some chain
  | action :: rest =>
      (chain.perform host action).bind fun next =>
        if fits ⟨chain, action, next⟩ then next.follow host fits rest else none

/-- Actions that all happen are a run with these labels, whose transitions pass the check. -/
theorem run_of_follow {fits : Transition (Chain A) (Action A) → Bool}
    (hfollow : chain.follow host fits actions = some chain') :
    ∃ trace, Run (Step host) chain trace chain' ∧ trace.map (·.label) = actions ∧
      ∀ transition ∈ trace, fits transition = true := by
  induction actions generalizing chain with
  | nil =>
      obtain rfl := Option.some.inj hfollow
      exact ⟨[], .nil chain, rfl, by simp⟩
  | cons action rest ih =>
      obtain ⟨next, hnext, hrest⟩ := Option.bind_eq_some_iff.mp hfollow
      split at hrest
      · next hfits =>
          obtain ⟨trace, hrun, hlabels, hall⟩ := ih hrest
          have hfirst : Run (Step host) chain [⟨chain, action, next⟩] next :=
            .snoc (.nil chain) (perform_eq_some_iff.mp hnext)
          refine ⟨⟨chain, action, next⟩ :: trace, hfirst.append hrun, by simp [hlabels], ?_⟩
          rintro transition (_ | ⟨_, hmem⟩)
          · exact hfits
          · exact hall transition hmem
      · cases hrest

/-! ## Trial runs -/

/-- A host with addresses for numbers, a contract at address 1000, and signatures that verify. -/
def trialHost : Host ℕ where
  networkId := Vector.replicate 32 1
  currentContractAddress := 1000
  sha256 _ := Vector.replicate 32 0
  ed25519Verify _ _ _ := true
  addressXdr _ := []
  u32Xdr _ := []
  u64Xdr _ := []
  u128Xdr _ := []
  bytes32Xdr bytes := bytes.toList
  encodeConfigKey _ := "Config"

/-- There is a sequence number below `2 ^ 16`. -/
instance trialSequence_neZero : NeZero (2 ^ 16 : ℕ) :=
  ⟨by decide⟩

/-- The ledger of a sequence number below `2 ^ 16`, five seconds after the one before it. -/
def ledgerAt (sequence : Fin (2 ^ 16)) : Ledger :=
  ⟨sequence, 5 * sequence, by omega, by omega⟩

/-- What the oracle reports for the round opened at a ledger. -/
def trialPayload (startLedger price timestamp : ℕ) : OraclePayload ℕ where
  price := price
  timestamp := timestamp
  roundId := startLedger
  nonce := 1
  networkId := Vector.replicate 32 1
  contractAddr := 1000
  confidence := none
  attestation := none

/-- The contract of admin 1 and oracle 2, with minted users 3, 4 and 5. -/
def trialSetup : List (Action ℕ) := [
  .invoke [1] (.control (.initializeContract 1 2)),
  .invoke [3] (.mintInitial 3),
  .invoke [4] (.mintInitial 4),
  .invoke [5] (.mintInitial 5)]

/-- Round 1 is staged, round 2 is opened and bet on, and the dispute window of round 1 is over. -/
def overlappingRounds : List (Action ℕ) := trialSetup ++ [
  .invoke [1] (.control (.setDisputeLedgers 10)),
  .invoke [1] (.createRound 100 (some 0)),
  .invoke [3] (.placeBet 3 70 .up),
  .invoke [4] (.placeBet 4 30 .down),
  .closeLedger (ledgerAt 20),
  .invoke [2] (.control (.updateOracleHeartbeat 0)),
  .invoke [2] (.resolveRound (trialPayload 1 101 100)),
  .invoke [1] (.createRound 100 (some 0)),
  .invoke [5] (.placeBet 5 50 .up)]

/-- Three users predict in a Precision round, and its run is over. -/
def precisionRound : List (Action ℕ) := trialSetup ++ [
  .invoke [1] (.createRound 100 (some 1)),
  .invoke [3] (.placePrecisionPrediction 3 41 1010),
  .invoke [4] (.placePrecisionPrediction 4 31 1200),
  .invoke [5] (.predictPrice 5 990 41),
  .closeLedger (ledgerAt 20),
  .invoke [2] (.control (.updateOracleHeartbeat 0))]

/-- A step after a trial run is found by evaluation. -/
theorem exists_trial (actions : List (Action ℕ)) (action : Action ℕ)
    (fits : Chain ℕ → Chain ℕ → Bool)
    (htrial : (((Chain.genesis (ledgerAt 1)).performAll trialHost actions).any fun chain =>
      (chain.perform trialHost action).any (fits chain)) = true) :
    ∃ trace chain chain', History trialHost (trace ++ [⟨chain, action, chain'⟩]) chain' ∧
      fits chain chain' = true := by
  obtain ⟨chain, hchain, hnext⟩ := (Option.any_eq_true _ _).mp htrial
  obtain ⟨chain', hchain', hfits⟩ := (Option.any_eq_true _ _).mp hnext
  obtain ⟨trace, hrun, -⟩ := run_of_performAll hchain
  exact ⟨trace, chain, chain', ⟨_, .snoc hrun (perform_eq_some_iff.mp hchain')⟩, hfits⟩

/-- Actions that happen from the deployment on are a history. -/
theorem exists_history (host : Host ℕ) (actions : List (Action ℕ)) (fits : Chain ℕ → Bool)
    (hperform : ((Chain.genesis (ledgerAt 1)).performAll host actions).any fits = true) :
    ∃ trace chain, History host trace chain ∧ trace.map (·.label) = actions ∧
      fits chain = true := by
  obtain ⟨chain, hchain, hfits⟩ := (Option.any_eq_true _ _).mp hperform
  obtain ⟨trace, hrun, hlabels⟩ := run_of_performAll hchain
  exact ⟨trace, chain, ⟨_, hrun⟩, hlabels, hfits⟩

/-- A trial run that happens is a history with its actions. -/
theorem exists_trial_history (actions : List (Action ℕ)) (fits : Chain ℕ → Bool)
    (htrial : ((Chain.genesis (ledgerAt 1)).performAll trialHost actions).any fits = true) :
    ∃ trace chain, History trialHost trace chain ∧ trace.map (·.label) = actions ∧
      fits chain = true :=
  exists_history trialHost actions fits htrial

/-- A trial run that happens is a history with its actions, and its transitions can be checked. -/
theorem exists_trial_trace (actions : List (Action ℕ))
    (fits : Transition (Chain ℕ) (Action ℕ) → Bool) (fitsEnd : Chain ℕ → Bool)
    (htrial : ((Chain.genesis (ledgerAt 1)).follow trialHost fits actions).any fitsEnd = true) :
    ∃ trace chain, History trialHost trace chain ∧ trace.map (·.label) = actions ∧
      (∀ transition ∈ trace, fits transition = true) ∧ fitsEnd chain = true := by
  obtain ⟨chain, hchain, hfits⟩ := (Option.any_eq_true _ _).mp htrial
  obtain ⟨trace, hrun, hlabels, hall⟩ := run_of_follow hchain
  exact ⟨trace, chain, ⟨_, hrun⟩, hlabels, hall, hfits⟩

end XelmaMarket
