import XelmaMarket.Arithmetic
import XelmaMarket.Lib.WeightedMedian

/-!
# The oracle committee

Feeders with a stake report prices, and the committee aggregates them: it adds up the stake of the
active members that reported, compares it with a quorum and names a price. A member is looked up
for every report, so that a member who reports twice is counted twice; the price is that of the
first report that counts.
-/

namespace XelmaMarket

open WeightedMedian

variable {A : Type} [DecidableEq A]

/-! ## Aggregation -/

/-- A registered feeder. -/
structure CommitteeMember (A : Type) where
  feeder : A
  stake : ℤ
  active : Bool
  deriving DecidableEq

/-- The price a feeder submitted. -/
structure FeederReport (A : Type) where
  feeder : A
  price : ℤ
  deriving DecidableEq

structure AggregatedOraclePrice where
  price : ℤ
  totalStakeWeight : ℤ
  quorumReached : Bool
  deriving DecidableEq

/-- The stake of the active members. -/
def totalActiveStake (members : List (CommitteeMember A)) : ℤ :=
  members.foldl (fun total member =>
    if member.active = true then saturatingAdd total member.stake else total) 0

/-- The stake that participates, and the price of the first report that counted. -/
structure ReportTally where
  participatingStake : ℤ
  validPrices : Option ℤ

/-- Compare a report with a member. -/
def ReportTally.visit (report : FeederReport A) (tally : ReportTally)
    (member : CommitteeMember A) : ReportTally :=
  if member.feeder = report.feeder ∧ member.active = true then
    { participatingStake := saturatingAdd tally.participatingStake member.stake
      validPrices := some (tally.validPrices.getD report.price) }
  else
    tally

/-- Compare all reports with all members. -/
def tallyReports (reports : List (FeederReport A)) (members : List (CommitteeMember A)) :
    ReportTally :=
  reports.foldl (fun tally report => members.foldl (ReportTally.visit report) tally) ⟨0, none⟩

/-- Aggregate the reports of the feeders. -/
def aggregateReports (reports : List (FeederReport A)) (members : List (CommitteeMember A))
    (requiredQuorumBps : ℕ) : Except Failure AggregatedOraclePrice :=
  if reports.isEmpty = true then
    throw (.err .invalidAmount)
  else
    let total := totalActiveStake members
    if total = 0 then
      throw (.err .invalidAmount)
    else
      let tally := tallyReports reports members
      let product := total * requiredQuorumBps
      -- the product traps when it overflows
      if i128Min ≤ product ∧ product ≤ i128Max then do
        let requiredStake ← divide product 10000
        return {
          price := tally.validPrices.getD 0
          totalStakeWeight := tally.participatingStake
          quorumReached := requiredStake ≤ tally.participatingStake }
      else
        throw .trap

/-! ## What is added up -/

/-- The active stake a feeder has. -/
def stakeOf (members : List (CommitteeMember A)) (feeder : A) : ℤ :=
  weightWhere (·.stake) members fun member => member.feeder = feeder ∧ member.active = true

/-- The stake of the active members. -/
def activeStake (members : List (CommitteeMember A)) : ℤ :=
  weightWhere (·.stake) members fun member => member.active = true

/-- The stake of the active members that reported, each counted once. -/
def reportedStake (reports : List (FeederReport A)) (members : List (CommitteeMember A)) : ℤ :=
  weightWhere (·.stake) members fun member =>
    member.active = true ∧ member.feeder ∈ reports.map (·.feeder)

section Sums

variable {reports : List (FeederReport A)} {members : List (CommitteeMember A)}
  {report : FeederReport A} {member : CommitteeMember A}

/-- Amounts that are not negative are added up to the largest amount at most. -/
theorem saturatingAdd_of_nonneg {a b : ℤ} (ha : 0 ≤ a) (hb : 0 ≤ b) :
    saturatingAdd a b = min i128Max (a + b) := by
  unfold saturatingAdd i128Min i128Max
  omega

omit [DecidableEq A] in
/-- The members with a property add up their stakes, to the largest amount at most. -/
theorem foldl_stakes (hstakes : ∀ member ∈ members, 0 ≤ member.stake)
    (counts : CommitteeMember A → Prop) [DecidablePred counts] {start : ℤ} (hstart : 0 ≤ start)
    (hroom : start ≤ i128Max) :
    members.foldl (fun total member =>
      if counts member then saturatingAdd total member.stake else total) start =
        min i128Max (start + weightWhere (·.stake) members counts) := by
  induction members generalizing start with
  | nil =>
      rw [List.foldl_nil, weightWhere, List.map_nil, List.sum_nil, add_zero]
      exact (min_eq_right hroom).symm
  | cons member rest ih =>
      have hstake := hstakes member List.mem_cons_self
      have hrest : ∀ other ∈ rest, 0 ≤ other.stake :=
        fun other hmem => hstakes other (List.mem_cons_of_mem _ hmem)
      have hweight := @weightWhere_nonneg _ (·.stake) rest counts _ hrest
      have hcons : weightWhere (·.stake) (member :: rest) counts =
          (if counts member then member.stake else 0) + weightWhere (·.stake) rest counts := rfl
      rw [List.foldl_cons, hcons]
      split
      · rw [saturatingAdd_of_nonneg hstart hstake, ih hrest (by unfold i128Max; omega)
          (min_le_left _ _)]
        omega
      · rw [ih hrest hstart hroom]
        omega

omit [DecidableEq A] in
/-- The sum of the active stakes is exact when the stakes fit together. -/
theorem totalActiveStake_eq (hstakes : ∀ member ∈ members, 0 ≤ member.stake)
    (hfits : (members.map (·.stake)).sum ≤ i128Max) :
    totalActiveStake members = activeStake members ∧ activeStake members ≤ i128Max := by
  have hle : activeStake members ≤ i128Max := by
    have hsplit := @weightWhere_add_not _ (fun member : CommitteeMember A => member.stake) members
      (fun member => member.active = true) _
    have hothers := @weightWhere_nonneg _ (fun member : CommitteeMember A => member.stake) members
      (fun member => ¬ member.active = true) _ hstakes
    unfold activeStake
    omega
  refine ⟨?_, hle⟩
  unfold totalActiveStake
  rw [foldl_stakes hstakes (fun member => member.active = true) le_rfl (by decide), zero_add]
  exact min_eq_right hle

/-- One report adds the active stake of its feeder. -/
theorem foldl_visit_stake (hstakes : ∀ member ∈ members, 0 ≤ member.stake) (tally : ReportTally)
    (hstart : 0 ≤ tally.participatingStake) (hroom : tally.participatingStake ≤ i128Max) :
    (members.foldl (ReportTally.visit report) tally).participatingStake =
      min i128Max (tally.participatingStake + stakeOf members report.feeder) := by
  have hfold : ∀ (members : List (CommitteeMember A)) (tally : ReportTally),
      (members.foldl (ReportTally.visit report) tally).participatingStake =
        members.foldl (fun total member =>
          if member.feeder = report.feeder ∧ member.active = true then
            saturatingAdd total member.stake
          else
            total) tally.participatingStake := by
    intro members
    induction members with
    | nil => exact fun _ => rfl
    | cons member rest ih =>
        intro tally
        rw [List.foldl_cons, List.foldl_cons, ih]
        congr 1
        unfold ReportTally.visit
        split <;> rfl
  rw [hfold]
  exact foldl_stakes hstakes _ hstart hroom

theorem stakeOf_nonneg (hstakes : ∀ member ∈ members, 0 ≤ member.stake) (feeder : A) :
    0 ≤ stakeOf members feeder :=
  weightWhere_nonneg hstakes

/-- The reports add up the active stakes of their feeders, to the largest amount at most. -/
theorem tallyReports_stake (hstakes : ∀ member ∈ members, 0 ≤ member.stake)
    (reports : List (FeederReport A)) :
    (tallyReports reports members).participatingStake =
      min i128Max (reports.map fun report => stakeOf members report.feeder).sum := by
  suffices h : ∀ tally : ReportTally, 0 ≤ tally.participatingStake →
      tally.participatingStake ≤ i128Max →
      (reports.foldl (fun tally report =>
        members.foldl (ReportTally.visit report) tally) tally).participatingStake =
        min i128Max (tally.participatingStake +
          (reports.map fun report => stakeOf members report.feeder).sum) by
    simpa [tallyReports] using h ⟨0, none⟩ le_rfl (by decide)
  induction reports with
  | nil =>
      intro tally _ hroom
      simpa using (min_eq_right hroom).symm
  | cons report rest ih =>
      intro tally hstart hroom
      have hstake := stakeOf_nonneg hstakes report.feeder
      have hrest : 0 ≤ (rest.map fun report => stakeOf members report.feeder).sum := by
        refine List.sum_nonneg fun x hx => ?_
        obtain ⟨other, -, rfl⟩ := List.mem_map.mp hx
        exact stakeOf_nonneg hstakes other.feeder
      have hturn := @foldl_visit_stake _ _ members report hstakes tally hstart hroom
      rw [List.foldl_cons, ih _ (by rw [hturn]; unfold i128Max; omega)
        (by rw [hturn]; exact min_le_left _ _), hturn, List.map_cons, List.sum_cons]
      omega

/-- The price is that of the first report whose feeder is an active member. -/
theorem tallyReports_price (reports : List (FeederReport A)) :
    (tallyReports reports members).validPrices =
      (reports.find? fun report => members.any fun member =>
        member.feeder = report.feeder ∧ member.active = true).map (·.price) := by
  have hknown : ∀ (report : FeederReport A) (members : List (CommitteeMember A))
      (tally : ReportTally),
      (members.foldl (ReportTally.visit report) tally).validPrices =
        if members.any (fun member => member.feeder = report.feeder ∧ member.active = true) then
          some (tally.validPrices.getD report.price)
        else
          tally.validPrices := by
    intro report members
    induction members with
    | nil => exact fun _ => rfl
    | cons member rest ih =>
        intro tally
        rw [List.foldl_cons, ih, List.any_cons]
        by_cases hmatch : member.feeder = report.feeder ∧ member.active = true
        · simp [ReportTally.visit, hmatch]
        · simp [ReportTally.visit, hmatch]
  suffices h : ∀ tally : ReportTally, (reports.foldl (fun tally report =>
      members.foldl (ReportTally.visit report) tally) tally).validPrices =
        tally.validPrices.or ((reports.find? fun report => members.any fun member =>
          member.feeder = report.feeder ∧ member.active = true).map (·.price)) by
    simpa [tallyReports] using h ⟨0, none⟩
  induction reports with
  | nil => exact fun tally => by simp
  | cons report rest ih =>
      intro tally
      rw [List.foldl_cons, ih, hknown, List.find?_cons]
      by_cases hmatch : members.any (fun member =>
          member.feeder = report.feeder ∧ member.active = true) = true
      · rw [if_pos hmatch, hmatch]
        cases tally.validPrices <;> simp
      · rw [if_neg hmatch, Bool.not_eq_true _ |>.mp hmatch]

/-- When the aggregation succeeds, and with what. -/
theorem aggregateReports_eq_ok {bps : ℕ} {result : AggregatedOraclePrice} :
    aggregateReports reports members bps = .ok result ↔
      reports ≠ [] ∧ totalActiveStake members ≠ 0 ∧
        (i128Min ≤ totalActiveStake members * bps ∧ totalActiveStake members * bps ≤ i128Max) ∧
        result = {
          price := (tallyReports reports members).validPrices.getD 0
          totalStakeWeight := (tallyReports reports members).participatingStake
          quorumReached := (totalActiveStake members * bps).tdiv 10000 ≤
            (tallyReports reports members).participatingStake } := by
  unfold aggregateReports
  simp only [List.isEmpty_iff]
  by_cases hempty : reports = []
  · simp [hempty]
  by_cases hzero : totalActiveStake members = 0
  · simp [hempty, hzero]
  by_cases hfits : i128Min ≤ totalActiveStake members * bps ∧
      totalActiveStake members * bps ≤ i128Max
  · have hdivide := divide_of_range hfits (show (10000 : ℤ) ≠ 0 by decide)
      fun h => absurd h (by decide)
    rw [if_neg hempty, if_neg hzero, if_pos hfits, hdivide]
    simp [hempty, hzero, hfits, eq_comm]
  · simp [hempty, hzero, hfits]

end Sums

/-! ## Counting members once -/

/-- The first report of every feeder. -/
def firstReports (seen : List A) : List (FeederReport A) → List (FeederReport A)
  | [] => []
  | report :: rest =>
      if report.feeder ∈ seen then firstReports seen rest
      else report :: firstReports (report.feeder :: seen) rest

section Once

variable {reports : List (FeederReport A)} {members : List (CommitteeMember A)} {seen : List A}
  {bps : ℕ} {result : AggregatedOraclePrice}

/-- The first reports are of the feeders that were not seen before, each once. -/
theorem count_firstReports (seen : List A) (reports : List (FeederReport A)) (feeder : A) :
    ((firstReports seen reports).map (·.feeder)).count feeder =
      if feeder ∈ reports.map (·.feeder) ∧ feeder ∉ seen then 1 else 0 := by
  induction reports generalizing seen with
  | nil => simp [firstReports]
  | cons report rest ih =>
      unfold firstReports
      split
      · next hseen =>
          rw [ih]
          refine if_congr ⟨fun h => ⟨List.mem_cons_of_mem _ h.1, h.2⟩, fun h => ⟨?_, h.2⟩⟩ rfl rfl
          refine (List.mem_cons.mp h.1).resolve_left ?_
          rintro rfl
          exact h.2 hseen
      · next hseen =>
          rw [List.map_cons, List.count_cons, ih]
          by_cases hsame : feeder = report.feeder
          · subst hsame
            simp [hseen]
          · have hother : ¬ (report.feeder == feeder) = true := fun h =>
              hsame (beq_iff_eq.mp h).symm
            simp [hsame, hother]

/-- The first report that counts is among the first reports. -/
theorem find_firstReports (known : A → Bool) (hseen : ∀ feeder ∈ seen, known feeder = false) :
    (firstReports seen reports).find? (fun report => known report.feeder) =
      reports.find? fun report => known report.feeder := by
  induction reports generalizing seen with
  | nil => rfl
  | cons report rest ih =>
      unfold firstReports
      split
      · next hmem => rw [ih hseen, List.find?_cons, hseen _ hmem]
      · rw [List.find?_cons, List.find?_cons]
        cases hknown : known report.feeder with
        | true => rfl
        | false =>
            refine ih fun feeder hmem => ?_
            rcases List.mem_cons.mp hmem with rfl | hmem
            · exact hknown
            · exact hseen feeder hmem

/-- What the reports add up to: each active member's stake as often as the member reported. -/
theorem sum_stakeOf (reports : List (FeederReport A)) (members : List (CommitteeMember A)) :
    (reports.map fun report => stakeOf members report.feeder).sum =
      (members.map fun member : CommitteeMember A => if member.active = true then
        member.stake * ((reports.map (·.feeder)).count member.feeder : ℤ) else 0).sum := by
  induction reports with
  | nil => simp
  | cons report rest ih =>
      rw [List.map_cons, List.sum_cons, ih]
      unfold stakeOf weightWhere
      rw [← List.sum_map_add]
      refine congrArg List.sum (List.map_congr_left fun member _ => ?_)
      rw [List.map_cons, List.count_cons]
      by_cases hactive : member.active = true
      · by_cases hsame : member.feeder = report.feeder
        · simp [hactive, hsame]
          ring
        · have hother : ¬ report.feeder = member.feeder := fun h => hsame h.symm
          simp [hactive, hsame, hother]
      · simp [hactive]

/-- Members that report once at most add up to the stake that reported. -/
theorem sum_stakeOf_of_once (honce : ∀ member ∈ members, member.active = true → 0 < member.stake →
    (reports.map (·.feeder)).count member.feeder ≤ 1)
    (hstakes : ∀ member ∈ members, 0 ≤ member.stake) :
    (reports.map fun report => stakeOf members report.feeder).sum =
      reportedStake reports members := by
  rw [sum_stakeOf]
  refine congrArg List.sum (List.map_congr_left fun member hmember => ?_)
  by_cases hactive : member.active = true
  · rw [if_pos hactive]
    rcases (hstakes member hmember).eq_or_lt with hzero | hpos
    · simp [← hzero]
    · have hcount := honce member hmember hactive hpos
      by_cases hmem : member.feeder ∈ reports.map (·.feeder)
      · have hone := List.count_pos_iff.mpr hmem
        rw [if_pos ⟨hactive, hmem⟩, show (reports.map (·.feeder)).count member.feeder = 1 by omega]
        simp
      · rw [if_neg fun h => hmem h.2, List.count_eq_zero.mpr hmem]
        simp
  · rw [if_neg hactive, if_neg fun h => hactive h.1]

/-- A member with a stake that reports twice adds more than the stake that reported. -/
theorem reportedStake_lt (hstakes : ∀ member ∈ members, 0 ≤ member.stake)
    {member : CommitteeMember A} (hmember : member ∈ members) (hactive : member.active = true)
    (hpos : 0 < member.stake) (htwice : 1 < (reports.map (·.feeder)).count member.feeder) :
    reportedStake reports members <
      (reports.map fun report => stakeOf members report.feeder).sum := by
  rw [sum_stakeOf]
  refine List.sum_lt_sum _ _ (fun other hother => ?_) ⟨member, hmember, ?_⟩
  · have hstake := hstakes other hother
    by_cases hactive : other.active = true
    · rw [if_pos hactive]
      by_cases hmem : other.feeder ∈ reports.map (·.feeder)
      · have hone := List.count_pos_iff.mpr hmem
        rw [if_pos ⟨hactive, hmem⟩]
        exact le_mul_of_one_le_right hstake (by omega)
      · rw [if_neg fun h => hmem h.2]
        exact mul_nonneg hstake (Int.natCast_nonneg _)
    · rw [if_neg hactive, if_neg fun h => hactive h.1]
  · have hmem := List.count_pos_iff.mp (by omega : 0 < (reports.map (·.feeder)).count member.feeder)
    rw [if_pos hactive, if_pos ⟨hactive, hmem⟩]
    exact lt_mul_of_one_lt_right hpos (by omega)

/-- The stake that reported is part of the active stake. -/
theorem reportedStake_le (hstakes : ∀ member ∈ members, 0 ≤ member.stake) :
    reportedStake reports members ≤ activeStake members :=
  weightWhere_mono hstakes fun _ _ h => h.1

/-- The first reports name the feeders that reported. -/
theorem reportedStake_firstReports :
    reportedStake (firstReports [] reports) members = reportedStake reports members := by
  unfold reportedStake weightWhere
  refine congrArg List.sum (List.map_congr_left fun member _ => ?_)
  have hcount := count_firstReports [] reports member.feeder
  have hiff : member.feeder ∈ (firstReports [] reports).map (·.feeder) ↔
      member.feeder ∈ reports.map (·.feeder) := by
    rw [← List.count_pos_iff, hcount]
    split
    · next h => simp [h.1]
    · next h => simpa using h
  simp only [hiff]

/-- A result counts every member once: its weight is the stake of the active members that reported,
its quorum is a part of the active stake, and it is the result of the first reports alone. -/
structure CountsOnce (reports : List (FeederReport A)) (members : List (CommitteeMember A))
    (bps : ℕ) (result : AggregatedOraclePrice) : Prop where
  weight : result.totalStakeWeight = reportedStake reports members
  bounded : result.totalStakeWeight ≤ activeStake members
  quorum : result.quorumReached = true ↔
    activeStake members * bps / 10000 ≤ reportedStake reports members
  resubmission : aggregateReports (firstReports [] reports) members bps = .ok result

/-- An aggregation counts every member once if and only if no active member with a stake reports
twice, unless the members that reported have the largest amount together. -/
theorem counts_once_iff (hstakes : ∀ member ∈ members, 0 ≤ member.stake)
    (hfits : (members.map (·.stake)).sum ≤ i128Max)
    (hresult : aggregateReports reports members bps = .ok result) :
    CountsOnce reports members bps result ↔
      (∀ member ∈ members, member.active = true → 0 < member.stake →
        (reports.map (·.feeder)).count member.feeder ≤ 1) ∨
      reportedStake reports members = i128Max := by
  obtain ⟨htotal, hactive⟩ := totalActiveStake_eq hstakes hfits
  obtain ⟨hne, hsome, hrange, hvalue⟩ := aggregateReports_eq_ok.mp hresult
  have hweight := tallyReports_stake hstakes reports
  have hreported := @reportedStake_le _ _ reports members hstakes
  constructor
  · intro hcounts
    by_contra hnone
    push Not at hnone
    obtain ⟨⟨member, hmember, hmemberActive, hpos, htwice⟩, hroom⟩ := hnone
    have hmore := reportedStake_lt hstakes hmember hmemberActive hpos htwice
    have hexact := hcounts.weight
    rw [hvalue] at hexact
    simp only [hweight] at hexact
    omega
  · intro hcase
    have hsum : (tallyReports reports members).participatingStake =
        reportedStake reports members := by
      rw [hweight]
      rcases hcase with honce | hfull
      · rw [sum_stakeOf_of_once honce hstakes]
        exact min_eq_right (by omega)
      · rw [hfull]
        refine min_eq_left ?_
        by_contra hless
        have honce : ∀ member ∈ members, member.active = true → 0 < member.stake →
            (reports.map (·.feeder)).count member.feeder ≤ 1 := by
          intro member hmember hmemberActive hpos
          by_contra htwice
          have hmore := reportedStake_lt hstakes hmember hmemberActive hpos (not_le.mp htwice)
          omega
        have hequal := sum_stakeOf_of_once honce hstakes
        omega
    have hfirstSum : (tallyReports (firstReports [] reports) members).participatingStake =
        reportedStake reports members := by
      rw [tallyReports_stake hstakes, sum_stakeOf_of_once (fun member _ _ _ => ?_) hstakes,
        reportedStake_firstReports]
      · exact min_eq_right (by omega)
      · rw [count_firstReports]
        split <;> decide
    have hfirstPrice : (tallyReports (firstReports [] reports) members).validPrices =
        (tallyReports reports members).validPrices := by
      rw [tallyReports_price, tallyReports_price]
      exact congrArg _ (find_firstReports (fun feeder => members.any fun member =>
        member.feeder = feeder ∧ member.active = true) (fun _ h => (List.not_mem_nil h).elim))
    have hfirstNe : firstReports [] reports ≠ [] := by
      cases reports with
      | nil => exact absurd rfl hne
      | cons report rest => simp [firstReports]
    have hnonneg : 0 ≤ activeStake members * (bps : ℤ) :=
      mul_nonneg (weightWhere_nonneg hstakes) (Int.natCast_nonneg bps)
    refine ⟨?_, ?_, ?_, ?_⟩
    · rw [hvalue]
      exact hsum
    · rw [hvalue]
      exact hsum.trans_le hreported
    · rw [hvalue]
      simp only [hsum, htotal, decide_eq_true_eq, Int.tdiv_eq_ediv_of_nonneg hnonneg]
    · refine aggregateReports_eq_ok.mpr ⟨hfirstNe, hsome, hrange, ?_⟩
      rw [hvalue, hfirstSum, hfirstPrice, hsum]

end Once

/-- Feeder 1, who has 40 of 100, reports twice. -/
def repeatedReports : List (FeederReport ℕ) := [⟨1, 500⟩, ⟨1, 500⟩]

/-- A committee of two. -/
def twoMembers : List (CommitteeMember ℕ) := [⟨1, 40, true⟩, ⟨2, 60, true⟩]

/-- Feeder 1 alone reaches a quorum of 67 of 100. -/
theorem member_counted_twice : ¬ ∀ result,
    aggregateReports repeatedReports twoMembers 6700 = .ok result →
      CountsOnce repeatedReports twoMembers 6700 result := by
  intro hclaim
  have hcounts := hclaim ⟨500, 80, true⟩ rfl
  exact absurd hcounts.weight (by decide)

/-- One report of feeder 1 counts once. -/
theorem counts_once_single : CountsOnce [⟨1, 500⟩] twoMembers 6700 ⟨500, 40, false⟩ :=
  (counts_once_iff (by decide) (by decide) rfl).mpr (.inl (by decide))

/-! ## The price -/

section Price

variable {reports : List (FeederReport A)} {members : List (CommitteeMember A)} {bps : ℕ}
  {result : AggregatedOraclePrice}

/-- A feeder with one registration has the stake of that member. -/
theorem stakeOf_eq (hfeeders : (members.map (·.feeder)).Nodup) {member : CommitteeMember A}
    (hmember : member ∈ members) (hactive : member.active = true) :
    stakeOf members member.feeder = member.stake := by
  induction members with
  | nil => cases hmember
  | cons first rest ih =>
      obtain ⟨hfirst, hrest⟩ := List.nodup_cons.mp hfeeders
      have hcons : stakeOf (first :: rest) member.feeder =
          (if first.feeder = member.feeder ∧ first.active = true then first.stake else 0) +
            stakeOf rest member.feeder := rfl
      rw [hcons]
      rcases List.mem_cons.mp hmember with rfl | hmem
      · have hnone : stakeOf rest member.feeder = 0 := weightWhere_of_none fun other hother h =>
          hfirst (List.mem_map.mpr ⟨other, hother, h.1⟩)
        rw [if_pos ⟨rfl, hactive⟩, hnone, add_zero]
      · have hother : first.feeder ≠ member.feeder := fun h =>
          hfirst (List.mem_map.mpr ⟨member, hmem, h.symm⟩)
        rw [if_neg fun h => hother h.1, ih hrest hmem, zero_add]

/-- Where all feeders are active members, the price is that of the first report. -/
theorem price_of_first {first : FeederReport A} {rest : List (FeederReport A)}
    (hmember : ∃ member ∈ members, member.feeder = first.feeder ∧ member.active = true)
    (hresult : aggregateReports (first :: rest) members bps = .ok result) :
    result.price = first.price := by
  obtain ⟨-, -, -, hvalue⟩ := aggregateReports_eq_ok.mp hresult
  have hknown : members.any (fun member =>
      member.feeder = first.feeder ∧ member.active = true) = true := by
    rw [List.any_eq_true]
    obtain ⟨member, hmem, hmatch⟩ := hmember
    exact ⟨member, hmem, decide_eq_true hmatch⟩
  rw [hvalue]
  simp only [tallyReports_price]
  rw [List.find?_cons, hknown]
  rfl

/-- Reports in another order are aggregated as well. -/
theorem aggregateReports_perm {reports' : List (FeederReport A)} (hperm : reports'.Perm reports)
    (hresult : aggregateReports reports members bps = .ok result) :
    ∃ result', aggregateReports reports' members bps = .ok result' := by
  obtain ⟨hne, hsome, hrange, -⟩ := aggregateReports_eq_ok.mp hresult
  refine ⟨_, aggregateReports_eq_ok.mpr ⟨?_, hsome, hrange, rfl⟩⟩
  rintro rfl
  exact hne hperm.nil_eq.symm

/-- The price is a stake-weighted median of the reports: the members that report less have at most
half of the participating stake, and so do those that report more. It does not depend on the order
of the reports, and feeders with less than half of the participating stake leave it within the
range of the others. -/
structure PriceIsMedian (reports : List (FeederReport A)) (members : List (CommitteeMember A))
    (bps : ℕ) (price : ℤ) : Prop where
  median : IsWeightedMedian (fun report => stakeOf members report.feeder) (·.price) reports price
  unordered : ∀ reports' : List (FeederReport A), reports'.Perm reports →
    ∃ result', aggregateReports reports' members bps = .ok result' ∧ result'.price = price
  robust : ∀ coalition : Finset A,
    2 * weightWhere (fun report => stakeOf members report.feeder) reports
        (fun report => report.feeder ∈ coalition) <
      (reports.map fun report => stakeOf members report.feeder).sum →
    (∃ report ∈ reports, report.feeder ∉ coalition ∧ report.price ≤ price) ∧
      ∃ report ∈ reports, report.feeder ∉ coalition ∧ price ≤ report.price

/-- For reports of active members with a stake, the price is the stake-weighted median in every
order if and only if all reports name one price. -/
theorem price_median_iff (hfeeders : (members.map (·.feeder)).Nodup)
    (hmembers : ∀ report ∈ reports, ∃ member ∈ members, member.feeder = report.feeder ∧
      member.active = true ∧ 0 < member.stake)
    (hresult : aggregateReports reports members bps = .ok result) :
    PriceIsMedian reports members bps result.price ↔
      ∀ report ∈ reports, ∀ other ∈ reports, report.price = other.price := by
  have hactive : ∀ report ∈ reports, ∃ member ∈ members, member.feeder = report.feeder ∧
      member.active = true := fun report hreport => by
    obtain ⟨member, hmember, hfeeder, hactive, -⟩ := hmembers report hreport
    exact ⟨member, hmember, hfeeder, hactive⟩
  have hweight : ∀ report ∈ reports, 0 ≤ stakeOf members report.feeder := fun report hreport => by
    obtain ⟨member, hmember, hfeeder, hactive, hpos⟩ := hmembers report hreport
    rw [← hfeeder, stakeOf_eq hfeeders hmember hactive]
    exact hpos.le
  constructor
  · intro hmedian
    -- every report is first in some order
    have hprice : ∀ report ∈ reports, report.price = result.price := by
      intro report hreport
      obtain ⟨front, back, rfl⟩ := List.append_of_mem hreport
      obtain ⟨result', hresult', hsame⟩ :=
        hmedian.unordered (report :: (front ++ back)) List.perm_middle.symm
      rw [← hsame, price_of_first (hactive report hreport) hresult']
    exact fun report hreport other hother =>
      (hprice report hreport).trans (hprice other hother).symm
  · intro hequal
    have hprice : ∀ report ∈ reports, report.price = result.price := by
      cases reports with
      | nil => exact fun report hreport => (List.not_mem_nil hreport).elim
      | cons first rest =>
          have hfirst := price_of_first (hactive first List.mem_cons_self) hresult
          exact fun report hreport =>
            (hequal report hreport first List.mem_cons_self).trans hfirst.symm
    have hmedian : IsWeightedMedian (fun report => stakeOf members report.feeder) (·.price)
        reports result.price := isWeightedMedian_of_eq hweight hprice
    refine ⟨hmedian, fun reports' hperm => ?_, fun coalition hminor => ?_⟩
    · obtain ⟨result', hresult'⟩ := aggregateReports_perm hperm hresult
      refine ⟨result', hresult', ?_⟩
      cases reports' with
      | nil => exact absurd rfl (aggregateReports_eq_ok.mp hresult').1
      | cons first rest =>
          have hmem := hperm.mem_iff.mp List.mem_cons_self
          rw [price_of_first (hactive first hmem) hresult', hprice first hmem]
    · exact ⟨hmedian.exists_le hweight hminor, hmedian.exists_ge hweight hminor⟩

end Price

/-- Feeder 1 with 1 of 100 names 10, and feeder 2 with 99 names 20. -/
def unequalReports : List (FeederReport ℕ) := [⟨1, 10⟩, ⟨2, 20⟩]

/-- A committee of a small and a large member. -/
def unequalMembers : List (CommitteeMember ℕ) := [⟨1, 1, true⟩, ⟨2, 99, true⟩]

/-- The price is what the member with 1 of 100 says, because that report comes first. -/
theorem price_of_smallest_member : ¬ ∀ result,
    aggregateReports unequalReports unequalMembers 6700 = .ok result →
      PriceIsMedian unequalReports unequalMembers 6700 result.price := by
  intro hclaim
  have hmedian := hclaim ⟨10, 100, true⟩ rfl
  exact absurd hmedian.median.above (by decide)

/-- Two members that agree name the median. -/
theorem price_median_agreed :
    PriceIsMedian [⟨1, 20⟩, ⟨2, 20⟩] unequalMembers 6700 (⟨20, 100, true⟩ :
      AggregatedOraclePrice).price :=
  (price_median_iff (by decide) (by decide) rfl).mpr (by decide)

end XelmaMarket
