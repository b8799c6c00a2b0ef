import Mathlib.Algebra.Order.BigOperators.Group.Finset
import Mathlib.Data.List.Basic

/-!
# Windows at the multiples of a stride

A list is read in windows of one size that start at the multiples of a stride. Windows as far apart
as they are long cut the list into its parts. Any others read the list only if the first of them is
the whole list.
-/

/-- The windows of a size at the first multiples of a stride, one after the other. -/
def windows {α : Type*} (entries : List α) (stride size count : ℕ) : List α :=
  (List.range count).flatMap fun page => (entries.drop (page * stride)).take size

variable {α β : Type*} {entries : List α} {stride size count : ℕ}

/-- The first pages of a list are its first entries. -/
theorem flatMap_pages (entries : List α) (size pages : ℕ) :
    ((List.range pages).flatMap fun page => (entries.drop (page * size)).take size) =
      entries.take (pages * size) := by
  induction pages with
  | zero => simp
  | succ pages ih =>
      rw [List.range_succ, List.flatMap_append, ih, List.flatMap_singleton, Nat.succ_mul,
        List.take_add]

/-- What windows find is what is found in them. -/
theorem filterMap_windows (find : α → Option β) :
    (windows entries stride size count).filterMap find =
      (List.range count).flatMap fun page =>
        ((entries.drop (page * stride)).take size).filterMap find :=
  List.filterMap_flatMap

theorem length_windows : (windows entries stride size count).length =
    ∑ page ∈ Finset.range count, min size (entries.length - page * stride) := by
  unfold windows
  induction count with
  | zero => rfl
  | succ count ih =>
      rw [List.range_succ, List.flatMap_append, List.length_append, ih, Finset.sum_range_succ]
      simp

/-- Windows as long as their stride read a list that they reach the end of. -/
theorem windows_self (hcount : entries.length ≤ count * size) :
    windows entries size size count = entries :=
  (flatMap_pages entries size count).trans (List.take_of_length_le hcount)

/-- Windows read a list that they reach the end of exactly when they are as long as their stride, or
when the first window is the list and no other starts in it. -/
theorem windows_eq_iff (hcount : entries.length ≤ count * stride) :
    windows entries stride size count = entries ↔
      stride = size ∨ entries.length ≤ min stride size := by
  constructor
  · intro hreads
    -- window by window, the lengths are those of windows as long as the stride
    have hlengths : (windows entries stride size count).length =
        (windows entries stride stride count).length := by
      rw [hreads, windows_self hcount]
    rw [length_windows, length_windows] at hlengths
    rcases Nat.eq_zero_or_pos count with rfl | hpos
    · have hempty : entries.length = 0 := by omega
      exact .inr (hempty ▸ Nat.zero_le _)
    · have hfirst : min size (entries.length - 0 * stride) =
          min stride (entries.length - 0 * stride) := by
        have hmem : 0 ∈ Finset.range count := Finset.mem_range.mpr hpos
        rcases le_total size stride with hle | hle
        · exact (Finset.sum_eq_sum_iff_of_le fun page _ => min_le_min_right _ hle).mp hlengths 0
            hmem
        · exact ((Finset.sum_eq_sum_iff_of_le fun page _ => min_le_min_right _ hle).mp
            hlengths.symm 0 hmem).symm
      omega
  · rintro (rfl | hfirst)
    · exact windows_self hcount
    · cases count with
      | zero =>
          have hempty : entries = [] := List.eq_nil_of_length_eq_zero (by omega)
          rw [hempty]
          rfl
      | succ count =>
          have hlater : ((List.range count).map Nat.succ).flatMap (fun page =>
              (entries.drop (page * stride)).take size) = [] := by
            refine List.flatMap_eq_nil_iff.mpr fun page hmem => ?_
            obtain ⟨page, -, rfl⟩ := List.mem_map.mp hmem
            have hpast : entries.length ≤ (page + 1) * stride := by
              rw [Nat.succ_mul]
              omega
            rw [List.drop_of_length_le hpast, List.take_nil]
          unfold windows
          rw [List.range_succ_eq_map, List.flatMap_cons, hlater, List.append_nil, Nat.zero_mul,
            List.drop_zero]
          exact List.take_of_length_le (by omega)
