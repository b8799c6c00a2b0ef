import Mathlib.Data.List.Basic
import Mathlib.Data.List.Nodup
import Mathlib.Data.List.TakeDrop

/-!
# Bounded rankings

A bounded ranking lists the first members of a set in a strict order, up to a limit; whoever ranks
later is left out. When one member rises or a new one appears, and all others keep their order, the
ranking of the new order is found from the old ranking and that member alone.
-/

variable {α : Type*} {r r' : α → α → Prop} {members : α → Prop} {limit : ℕ}
  {ranking sorted all : List α} {x : α}

/-- The first `limit` members in the order. -/
def IsRanking (r : α → α → Prop) (limit : ℕ) (members : α → Prop) (ranking : List α) : Prop :=
  ∃ all : List α, all.Pairwise r ∧ (∀ a, a ∈ all ↔ members a) ∧ ranking = all.take limit

/-- A ranking seen from those it leaves out: each of them comes after the whole ranking, which is
then full. -/
structure Leads (r : α → α → Prop) (limit : ℕ) (members : α → Prop) (ranking : List α) : Prop where
  sorted : ranking.Pairwise r
  member : ∀ a ∈ ranking, members a
  bounded : ranking.length ≤ limit
  ahead : ∀ b, members b → b ∉ ranking → ranking.length = limit ∧ ∀ a ∈ ranking, r a b

/-- Nobody is ranked among nobody. -/
theorem IsRanking.empty : IsRanking r limit (fun _ => False) [] :=
  ⟨[], .nil, by simp, by simp⟩

theorem IsRanking.leads (hranking : IsRanking r limit members ranking) :
    Leads r limit members ranking := by
  obtain ⟨all, hsorted, hmembers, rfl⟩ := hranking
  refine ⟨hsorted.take, fun a hmem => (hmembers a).mp (List.mem_of_mem_take hmem),
    List.length_take_le _ _, fun b hmember hout => ?_⟩
  have hall : b ∈ all.take limit ++ all.drop limit := by
    rw [List.take_append_drop]
    exact (hmembers b).mpr hmember
  have hdrop : b ∈ all.drop limit := (List.mem_append.mp hall).resolve_left hout
  have hlong : limit < all.length := by
    have := List.length_pos_of_mem hdrop
    rw [List.length_drop] at this
    omega
  rw [← List.take_append_drop limit all, List.pairwise_append] at hsorted
  exact ⟨by rw [List.length_take]; omega, fun a hmem => hsorted.2.2 a hmem b hdrop⟩

/-- A list that leads the members of a sorted list is the ranking of them. -/
theorem Leads.isRanking (hleads : Leads r limit members ranking) (hsorted : all.Pairwise r)
    (hmembers : ∀ a, a ∈ all ↔ members a) : IsRanking r limit members ranking := by
  classical
  refine ⟨ranking ++ all.filter (· ∉ ranking), ?_, fun a => ?_, ?_⟩
  · refine List.pairwise_append.mpr ⟨hleads.sorted, hsorted.filter _, fun a hmem b hout => ?_⟩
    obtain ⟨hall, hnot⟩ := List.mem_filter.mp hout
    exact (hleads.ahead b ((hmembers b).mp hall) (by simpa using hnot)).2 a hmem
  · simp only [List.mem_append, List.mem_filter, decide_not, Bool.not_eq_true', hmembers,
      decide_eq_false_iff_not]
    constructor
    · rintro (hmem | ⟨hmember, -⟩)
      · exact hleads.member a hmem
      · exact hmember
    · intro hmember
      by_cases hmem : a ∈ ranking
      · exact .inl hmem
      · exact .inr ⟨hmember, hmem⟩
  · cases hrest : all.filter (· ∉ ranking) with
    | nil => rw [List.append_nil, List.take_of_length_le hleads.bounded]
    | cons b rest =>
        have hmem : b ∈ all.filter (· ∉ ranking) := hrest ▸ List.mem_cons_self
        obtain ⟨hall, hnot⟩ := List.mem_filter.mp hmem
        have hfull := (hleads.ahead b ((hmembers b).mp hall) (by simpa using hnot)).1
        rw [← hfull, List.take_left]

/-- An item can be inserted into a sorted list of others. -/
theorem exists_sorted_insert (htrans : ∀ a b c, r a b → r b c → r a c)
    (htotal : ∀ a b, a ≠ b → r a b ∨ r b a) (hsorted : all.Pairwise r) (hnew : x ∉ all) :
    ∃ inserted : List α, inserted.Pairwise r ∧ ∀ a, a ∈ inserted ↔ a = x ∨ a ∈ all := by
  induction all with
  | nil => exact ⟨[x], List.pairwise_singleton r x, by simp⟩
  | cons b rest ih =>
      obtain ⟨hne, hnot⟩ := not_or.mp (mt List.mem_cons.mpr hnew)
      obtain ⟨hfirst, hrest⟩ := List.pairwise_cons.mp hsorted
      rcases htotal x b hne with hbefore | hafter
      · refine ⟨x :: b :: rest, List.pairwise_cons.mpr ⟨fun a hmem => ?_, hsorted⟩, by simp⟩
        rcases List.mem_cons.mp hmem with rfl | hmem
        · exact hbefore
        · exact htrans _ _ _ hbefore (hfirst a hmem)
      · obtain ⟨inserted, hinserted, hmembers⟩ := ih hrest hnot
        refine ⟨b :: inserted, List.pairwise_cons.mpr ⟨fun a hmem => ?_, hinserted⟩, fun a => ?_⟩
        · rcases (hmembers a).mp hmem with rfl | hmem
          · exact hafter
          · exact hfirst a hmem
        · rw [List.mem_cons, hmembers, List.mem_cons]
          exact or_left_comm

section Reinsert

variable [DecidableEq α] (hirrefl : ∀ a, ¬ r a a) (hirrefl' : ∀ a, ¬ r' a a)
  (htrans : ∀ a b c, r' a b → r' b c → r' a c)
  (hkept : ∀ a b, a ≠ x → b ≠ x → r a b → r' a b) (hrises : ∀ a, a ≠ x → r x a → r' x a)
  (hsorted : sorted.Pairwise r') (hperm : sorted.Perm (x :: ranking.filter (· ≠ x)))
include hirrefl hirrefl' htrans hkept hrises hsorted hperm

/-- After a member rises, the old ranking with that member, sorted anew, leads. -/
theorem Leads.reinsert (hleads : Leads r limit members ranking) :
    Leads r' limit (fun a => a = x ∨ members a) (sorted.take limit) := by
  have hmem : ∀ a, a ∈ sorted ↔ a = x ∨ a ∈ ranking ∧ a ≠ x := by
    intro a
    rw [hperm.mem_iff, List.mem_cons, List.mem_filter, decide_eq_true_eq]
  have hnodup : ranking.Nodup := by
    refine hleads.sorted.imp ?_
    rintro a _ hab rfl
    exact hirrefl a hab
  have hlength : sorted.length = (ranking.filter (· ≠ x)).length + 1 := by
    rw [hperm.length_eq, List.length_cons]
  refine ⟨hsorted.take, fun a ha => ?_, List.length_take_le _ _, fun b hmember hout => ?_⟩
  · rcases (hmem a).mp (List.mem_of_mem_take ha) with rfl | ⟨ha, -⟩
    · exact .inl rfl
    · exact .inr (hleads.member a ha)
  · have hsplit : (sorted.take limit ++ sorted.drop limit).Pairwise r' := by
      rwa [List.take_append_drop]
    have hahead := (List.pairwise_append.mp hsplit).2.2
    by_cases hb : b ∈ sorted
    · -- dropped from the end of the new ranking
      have hdrop : b ∈ sorted.drop limit := by
        rw [← List.take_append_drop limit sorted] at hb
        exact (List.mem_append.mp hb).resolve_left hout
      have := List.length_pos_of_mem hdrop
      rw [List.length_drop] at this
      exact ⟨by rw [List.length_take]; omega, fun a ha => hahead a ha b hdrop⟩
    · -- left out before and after
      have hne : b ≠ x := fun h => hb ((hmem b).mpr (.inl h))
      have hbefore : b ∉ ranking := fun h => hb ((hmem b).mpr (.inr ⟨h, hne⟩))
      obtain ⟨hfull, hrank⟩ := hleads.ahead b (hmember.resolve_left hne) hbefore
      by_cases hx : x ∈ ranking
      · have hcount : (ranking.filter (· ≠ x)).length + 1 = ranking.length := by
          have herase : ranking.filter (· ≠ x) = ranking.erase x := by
            rw [hnodup.erase_eq_filter]
            exact List.filter_congr fun a _ => by simp [bne, Bool.beq_eq_decide_eq]
          rw [herase, List.length_erase_of_mem hx]
          have := List.length_pos_of_mem hx
          omega
        refine ⟨by rw [List.length_take]; omega, fun a ha => ?_⟩
        rcases (hmem a).mp (List.mem_of_mem_take ha) with rfl | ⟨ha, hne'⟩
        · exact hrises b hne (hrank a hx)
        · exact hkept a b hne' hne (hrank a ha)
      · have hcount : ranking.filter (· ≠ x) = ranking :=
          List.filter_eq_self.mpr fun a ha => by
            simp only [decide_eq_true_eq]
            exact fun h => hx (h ▸ ha)
        rw [hcount] at hlength
        refine ⟨by rw [List.length_take]; omega, fun a ha => ?_⟩
        rcases (hmem a).mp (List.mem_of_mem_take ha) with rfl | ⟨ha', hne'⟩
        · -- the last of the sorted list is an old member, so it leads `b`
          obtain ⟨d, hd⟩ := List.exists_mem_of_length_pos
            (show 0 < (sorted.drop limit).length by rw [List.length_drop]; omega)
          have hrank' := hahead a ha d hd
          rcases (hmem d).mp (List.mem_of_mem_drop hd) with rfl | ⟨hd', hne'⟩
          · exact absurd hrank' (hirrefl' _)
          · exact htrans _ _ _ hrank' (hkept d b hne' hne (hrank d hd'))
        · exact hkept a b hne' hne (hrank a ha')

/-- After a member rises or appears, the ranking is found from the old one and that member. -/
theorem IsRanking.reinsert (htotal : ∀ a b, a ≠ b → r' a b ∨ r' b a)
    (hranking : IsRanking r limit members ranking) :
    IsRanking r' limit (fun a => a = x ∨ members a) (sorted.take limit) := by
  have hleads := hranking.leads.reinsert hirrefl hirrefl' htrans hkept hrises hsorted hperm
  obtain ⟨all, hall, hmembers, -⟩ := hranking
  have hothers : (all.filter (· ≠ x)).Pairwise r' := by
    refine (hall.filter _).imp_of_mem fun {a b} ha hb hab => ?_
    exact hkept a b (by simpa using (List.mem_filter.mp ha).2)
      (by simpa using (List.mem_filter.mp hb).2) hab
  obtain ⟨inserted, hinserted, hall'⟩ :=
    @exists_sorted_insert _ _ _ x htrans htotal hothers (by simp)
  refine hleads.isRanking hinserted fun a => ?_
  rw [hall', List.mem_filter, hmembers, decide_eq_true_eq]
  by_cases ha : a = x <;> simp [ha]

end Reinsert
