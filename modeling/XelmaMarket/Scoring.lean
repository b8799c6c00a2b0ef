import XelmaMarket.Engine

/-!
# Scoring policies

A scoring policy says who wins a Precision round: the revealed entries of the least score, and with
a band those close enough to it as well. A coarser measure and a wider band only add winners.
-/

namespace XelmaMarket

section Policy

variable {entries : List PrecisionEntry} {entry other : PrecisionEntry} {finalPrice : ℕ}
  {mode : PrecisionScoringMode} {policy : PrecisionScoringPolicy}

/-- A revealed entry that no other revealed entry scores less than. -/
def PrecisionEntry.IsBest (mode : PrecisionScoringMode) (entries : List PrecisionEntry)
    (finalPrice : ℕ) (entry : PrecisionEntry) : Prop :=
  entry.revealed = true ∧ ∀ other ∈ entries, other.revealed = true →
    entry.score mode finalPrice ≤ other.score mode finalPrice

/-- The winners under a policy. -/
def PrecisionScoringPolicy.winners (policy : PrecisionScoringPolicy)
    (entries : List PrecisionEntry) (finalPrice : ℕ) : List ℕ :=
  (findPrecisionWinnersWithPolicy entries finalPrice policy).winnerIndices

/-- Entries with distinct indices are told apart by them. -/
theorem eq_of_index_eq (hindices : (entries.map (·.index)).Nodup) (hentry : entry ∈ entries)
    (hother : other ∈ entries) (hindex : other.index = entry.index) : other = entry :=
  List.inj_on_of_nodup_map hindices hother hentry hindex

/-- Who wins: a revealed entry that the policy lets win against a best one. -/
theorem mem_winners (hindices : (entries.map (·.index)).Nodup) (hentry : entry ∈ entries) :
    entry.index ∈ policy.winners entries finalPrice ↔ entry.revealed = true ∧
      ∃ best ∈ entries, best.IsBest policy.mode entries finalPrice ∧
        policy.isWinner (best.score policy.mode finalPrice)
          (entry.score policy.mode finalPrice) = true := by
  unfold PrecisionScoringPolicy.winners
  rcases winnerIndices_of_policy entries finalPrice policy with
    ⟨hhidden, hnone⟩ | ⟨best, hbest, hrevealed, hleast, hwinners⟩
  · rw [hnone]
    refine iff_of_false List.not_mem_nil ?_
    rintro ⟨hentryRevealed, -⟩
    exact hhidden entry hentry hentryRevealed
  · rw [hwinners]
    constructor
    · intro hmem
      obtain ⟨winner, hwinner, hindex⟩ := List.mem_map.mp hmem
      obtain ⟨hmem, hwins⟩ := List.mem_filter.mp hwinner
      obtain rfl := eq_of_index_eq hindices hentry hmem hindex
      rw [Bool.and_eq_true] at hwins
      exact ⟨hwins.1, best, hbest, ⟨hrevealed, hleast⟩, hwins.2⟩
    · rintro ⟨hentryRevealed, other, hother, hotherBest, hwins⟩
      have hscore : other.score policy.mode finalPrice = best.score policy.mode finalPrice :=
        le_antisymm (hotherBest.2 best hbest hrevealed) (hleast other hother hotherBest.1)
      rw [hscore] at hwins
      refine List.mem_map_of_mem (List.mem_filter.mpr ⟨hentry, ?_⟩)
      rw [hentryRevealed, hwins]
      rfl

/-- The winners are listed in the order of the entries. -/
theorem winners_eq_filter (hindices : (entries.map (·.index)).Nodup) :
    policy.winners entries finalPrice = (entries.filter fun entry =>
      entry.index ∈ policy.winners entries finalPrice).map (·.index) := by
  have hsome : ∃ wins : PrecisionEntry → Bool, policy.winners entries finalPrice =
      (entries.filter wins).map (·.index) := by
    unfold PrecisionScoringPolicy.winners
    rcases winnerIndices_of_policy entries finalPrice policy with
      ⟨-, hnone⟩ | ⟨best, -, -, -, hwinners⟩
    · exact ⟨fun _ => false, by simp [hnone]⟩
    · exact ⟨_, hwinners⟩
  obtain ⟨wins, hwins⟩ := hsome
  rw [hwins]
  refine congrArg (List.map _) (List.filter_congr fun entry hentry => ?_)
  rw [← Bool.coe_iff_coe, decide_eq_true_eq]
  refine ⟨fun h => List.mem_map_of_mem (List.mem_filter.mpr ⟨hentry, h⟩), fun hmem => ?_⟩
  obtain ⟨winner, hwinner, hindex⟩ := List.mem_map.mp hmem
  obtain ⟨hmem, h⟩ := List.mem_filter.mp hwinner
  rwa [eq_of_index_eq hindices hentry hmem hindex] at h

/-- The winners and the losers together are the entries. -/
theorem winners_append_losers (hindices : (entries.map (·.index)).Nodup) :
    (policy.winners entries finalPrice ++
      (findPrecisionWinnersWithPolicy entries finalPrice policy).loserIndices).Perm
        (entries.map (·.index)) := by
  have hlosers : (findPrecisionWinnersWithPolicy entries finalPrice policy).loserIndices =
      (entries.filter fun entry =>
        !decide (entry.index ∈ policy.winners entries finalPrice)).map (·.index) := by
    refine congrArg (List.map _) (List.filter_congr fun entry _ => ?_)
    rw [← decide_not]
    rfl
  rw [hlosers]
  nth_rewrite 1 [winners_eq_filter hindices]
  rw [← List.map_append]
  exact (List.filter_append_perm _ entries).map _

/-- Scores are prices. -/
theorem score_lt (hentry : entry.predictedPrice < 2 ^ 128) (hfinal : finalPrice < 2 ^ 128) :
    entry.score mode finalPrice < 2 ^ 128 := by
  have hdistance : priceDistance entry.predictedPrice finalPrice < 2 ^ 128 := by
    unfold priceDistance
    split <;> omega
  cases mode with
  | absoluteDistance => exact hdistance
  | relativeDistance =>
      simp only [PrecisionEntry.score, PrecisionScoringMode.score]
      split
      · have hquotient := Nat.div_le_self
          (min (priceDistance entry.predictedPrice finalPrice * 10000) (2 ^ 128 - 1)) finalPrice
        have hcut := min_le_right
          (priceDistance entry.predictedPrice finalPrice * 10000) (2 ^ 128 - 1)
        omega
      · exact hdistance

/-- The relative score grows with the absolute one. -/
theorem relative_score_mono
    (hle : entry.score .absoluteDistance finalPrice ≤ other.score .absoluteDistance finalPrice) :
    entry.score .relativeDistance finalPrice ≤ other.score .relativeDistance finalPrice := by
  unfold PrecisionEntry.score PrecisionScoringMode.score at hle ⊢
  simp only at hle ⊢
  split
  · exact Nat.div_le_div_right (min_le_min_right _ (Nat.mul_le_mul_right _ hle))
  · exact hle

/-- A best entry wins under every policy. -/
theorem isWinner_best {best : ℕ} (hbest : best < 2 ^ 128) : policy.isWinner best best = true := by
  unfold PrecisionScoringPolicy.isWinner saturatingAddUint
  split
  · simp
  · next band hband =>
      simp only [Bool.or_eq_true, decide_eq_true_eq]
      omega

/-- A band keeps the winners, and a wider one keeps those of a narrower one. -/
theorem isWinner_of_band {best score band' : ℕ} (band : ℕ) (hbest : best < 2 ^ 128)
    (hwins : (⟨mode, none⟩ : PrecisionScoringPolicy).isWinner best score = true ∨
      band ≤ band' ∧ (⟨mode, some band⟩ : PrecisionScoringPolicy).isWinner best score = true) :
    (⟨mode, some band'⟩ : PrecisionScoringPolicy).isWinner best score = true := by
  simp only [PrecisionScoringPolicy.isWinner, Bool.or_eq_true, decide_eq_true_eq] at hwins ⊢
  unfold saturatingAddUint at hwins ⊢
  omega

/-- For entries with distinct indices and prices of 128 bits: the winners and the losers partition
the entries, every winner is revealed, and there is a winner exactly when some entry is. Without a
band the winners are the best entries. Everyone who wins by the absolute distance wins by the
relative one, and neither adding a band nor widening it takes a winner away. -/
theorem winners_under_policies (hindices : (entries.map (·.index)).Nodup)
    (hprices : ∀ entry ∈ entries, entry.predictedPrice < 2 ^ 128) (hfinal : finalPrice < 2 ^ 128) :
    (∀ policy : PrecisionScoringPolicy,
      (policy.winners entries finalPrice ++
        (findPrecisionWinnersWithPolicy entries finalPrice policy).loserIndices).Perm
          (entries.map (·.index)) ∧
      (∀ entry ∈ entries, entry.index ∈ policy.winners entries finalPrice →
        entry.revealed = true) ∧
      (policy.winners entries finalPrice ≠ [] ↔ ∃ entry ∈ entries, entry.revealed = true)) ∧
    (∀ mode, ∀ entry ∈ entries,
      entry.index ∈ (⟨mode, none⟩ : PrecisionScoringPolicy).winners entries finalPrice ↔
        entry.IsBest mode entries finalPrice) ∧
    (⟨.absoluteDistance, none⟩ : PrecisionScoringPolicy).winners entries finalPrice ⊆
      (⟨.relativeDistance, none⟩ : PrecisionScoringPolicy).winners entries finalPrice ∧
    (∀ mode band', (⟨mode, none⟩ : PrecisionScoringPolicy).winners entries finalPrice ⊆
      (⟨mode, some band'⟩ : PrecisionScoringPolicy).winners entries finalPrice) ∧
    ∀ mode band band', band ≤ band' →
      (⟨mode, some band⟩ : PrecisionScoringPolicy).winners entries finalPrice ⊆
        (⟨mode, some band'⟩ : PrecisionScoringPolicy).winners entries finalPrice := by
  have hbest : ∀ mode, ∀ entry ∈ entries,
      entry.index ∈ (⟨mode, none⟩ : PrecisionScoringPolicy).winners entries finalPrice ↔
        entry.IsBest mode entries finalPrice := by
    intro mode entry hentry
    rw [mem_winners hindices hentry]
    constructor
    · rintro ⟨hrevealed, best, -, hbest, hwins⟩
      rw [PrecisionScoringPolicy.isWinner_of_none rfl] at hwins
      exact ⟨hrevealed, fun other hother hshown => hwins.le.trans (hbest.2 other hother hshown)⟩
    · intro hbest
      exact ⟨hbest.1, entry, hentry, hbest, (PrecisionScoringPolicy.isWinner_of_none rfl).mpr rfl⟩
  -- a winner is an entry, so that inclusions are shown entry by entry
  have hincluded : ∀ policy policy' : PrecisionScoringPolicy,
      (∀ entry ∈ entries, entry.index ∈ policy.winners entries finalPrice →
        entry.index ∈ policy'.winners entries finalPrice) →
      policy.winners entries finalPrice ⊆ policy'.winners entries finalPrice := by
    intro policy policy' hentries index hmem
    rw [winners_eq_filter hindices] at hmem
    obtain ⟨entry, hentry, rfl⟩ := List.mem_map.mp hmem
    obtain ⟨hentry, hwins⟩ := List.mem_filter.mp hentry
    exact hentries entry hentry (of_decide_eq_true hwins)
  -- a policy of the same measure that lets more scores win has more winners
  have hwider : ∀ policy policy' : PrecisionScoringPolicy, policy'.mode = policy.mode →
      (∀ best score, best < 2 ^ 128 → policy.isWinner best score = true →
        policy'.isWinner best score = true) →
      policy.winners entries finalPrice ⊆ policy'.winners entries finalPrice := by
    intro policy policy' hmode hmore
    refine hincluded policy policy' fun entry hentry hwins => ?_
    obtain ⟨hrevealed, best, hmem, hbest, hscore⟩ := (mem_winners hindices hentry).mp hwins
    refine (mem_winners hindices hentry).mpr ⟨hrevealed, best, hmem, ?_, ?_⟩
    · rwa [hmode]
    · rw [hmode]
      exact hmore _ _ (score_lt (hprices best hmem) hfinal) hscore
  refine ⟨fun policy => ⟨winners_append_losers hindices, fun entry hentry hwins => ?_, ?_⟩, hbest,
    ?_, fun mode band' => ?_, fun mode band band' hband => ?_⟩
  · exact ((mem_winners hindices hentry).mp hwins).1
  · constructor
    · intro hsome
      obtain ⟨index, hindex⟩ := List.exists_mem_of_ne_nil _ hsome
      rw [winners_eq_filter hindices] at hindex
      obtain ⟨entry, hentry, -⟩ := List.mem_map.mp hindex
      obtain ⟨hentry, hwins⟩ := List.mem_filter.mp hentry
      have hmem := of_decide_eq_true hwins
      exact ⟨entry, hentry, ((mem_winners hindices hentry).mp hmem).1⟩
    · rintro ⟨entry, hentry, hrevealed⟩
      rcases winnerIndices_of_policy entries finalPrice policy with
        ⟨hhidden, -⟩ | ⟨best, hmem, hshown, hleast, -⟩
      · exact absurd hrevealed (hhidden entry hentry)
      · refine List.ne_nil_of_mem ((mem_winners hindices hmem).mpr
          ⟨hshown, best, hmem, ⟨hshown, hleast⟩, ?_⟩)
        exact isWinner_best (score_lt (hprices best hmem) hfinal)
  · refine hincluded _ _ fun entry hentry hwins => ?_
    have habsolute := (hbest .absoluteDistance entry hentry).mp hwins
    exact (hbest .relativeDistance entry hentry).mpr ⟨habsolute.1, fun other hother hshown =>
      relative_score_mono (habsolute.2 other hother hshown)⟩
  · exact hwider _ _ rfl fun best score hrange hwins => isWinner_of_band 0 hrange (.inl hwins)
  · exact hwider _ _ rfl fun best score hrange hwins =>
      isWinner_of_band _ hrange (.inr ⟨hband, hwins⟩)

end Policy

/-- Two revealed predictions and one commitment that was not. -/
def threeEntries : List PrecisionEntry :=
  [⟨0, 1010, 41, true⟩, ⟨1, 1200, 31, true⟩, ⟨2, 0, 5, false⟩]

/-- Entry 0 alone is closest to 1000, and a band of 200 lets entry 1 win beside it. -/
theorem winners_of_three_entries :
    (⟨.absoluteDistance, none⟩ : PrecisionScoringPolicy).winners threeEntries 1000 = [0] ∧
      (⟨.absoluteDistance, some 200⟩ : PrecisionScoringPolicy).winners threeEntries 1000 = [0, 1] ∧
      (⟨.absoluteDistance, none⟩ : PrecisionScoringPolicy).winners threeEntries 1000 ⊆
        (⟨.absoluteDistance, some 200⟩ : PrecisionScoringPolicy).winners threeEntries 1000 := by
  obtain ⟨-, -, -, hadds, -⟩ := @winners_under_policies threeEntries 1000 (by decide)
    (by decide) (by decide)
  exact ⟨by decide, by decide, hadds .absoluteDistance 200⟩

end XelmaMarket
