import Mathlib.Order.Lattice
import Mathlib.Data.List.Induction

/-!
# Insertion sort in place

The loop that sorts a sequence in place: each key is taken out in turn, the larger elements before
it move up by one place, and the key goes where they end.
-/

namespace ShiftSort

variable {α : Type*} [LinearOrder α]

/-- Move the elements before a place that are larger than the key up by one, and put the key where
they end. -/
def shiftIn (key : α) : ℕ → List α → List α
  | 0, xs => xs.set 0 key
  | j + 1, xs =>
      match xs[j]? with
      | some x => if x > key then shiftIn key j (xs.set (j + 1) x) else xs.set (j + 1) key
      | none => xs

/-- One turn of the sort: the element at a place is inserted among those before it. -/
def insertAt (xs : List α) (i : ℕ) : List α :=
  match xs[i]? with
  | some key => shiftIn key i xs
  | none => xs

/-- Insert every element but the first among those before it, one after the other. -/
def shiftSort (xs : List α) : List α :=
  (List.range' 1 (xs.length - 1)).foldl insertAt xs

section Insert

variable {key slot x : α} {front rest : List α}

theorem shiftIn_concat :
    shiftIn key (front ++ [x]).length ((front ++ [x]) ++ slot :: rest) =
      if x > key then shiftIn key front.length (front ++ x :: (x :: rest))
      else (front ++ [x]) ++ key :: rest := by
  have hlength : (front ++ [x]).length = front.length + 1 := by simp
  have hset : ∀ y : α, ((front ++ [x]) ++ slot :: rest).set (front.length + 1) y =
      (front ++ [x]) ++ y :: rest := by
    intro y
    rw [List.set_append_right _ _ (by simp)]
    simp
  rw [hlength]
  simp only [shiftIn, hset]
  simp

/-- The key is inserted among the elements before its place, and the others stay. -/
theorem shiftIn_spec (front : List α) (rest : List α) (slot : α) :
    ∃ inserted, shiftIn key front.length (front ++ slot :: rest) = inserted ++ rest ∧
      inserted.Perm (front ++ [key]) ∧
      (front.Pairwise (· ≤ ·) → inserted.Pairwise (· ≤ ·)) := by
  induction front using List.reverseRec generalizing rest slot with
  | nil => exact ⟨[key], rfl, .refl _, fun _ => List.pairwise_singleton _ _⟩
  | append_singleton front x ih =>
      rw [shiftIn_concat]
      split
      · next hlarger =>
          obtain ⟨inserted, hshift, hperm, hsorted⟩ := ih (x :: rest) x
          refine ⟨inserted ++ [x], by rw [hshift]; simp, ?_, fun hfront => ?_⟩
          · refine (hperm.append_right [x]).trans ?_
            rw [List.append_assoc, List.append_assoc]
            exact (List.Perm.swap x key []).append_left front
          · obtain ⟨hfront, -, hbelow⟩ := List.pairwise_append.mp hfront
            refine List.pairwise_append.mpr ⟨hsorted hfront, List.pairwise_singleton _ _, ?_⟩
            intro y hy z hz
            obtain rfl := List.mem_singleton.mp hz
            rcases List.mem_append.mp (hperm.mem_iff.mp hy) with hy | hy
            · exact hbelow y hy z (List.mem_singleton_self z)
            · exact (List.mem_singleton.mp hy).trans_le hlarger.le
      · next hsmaller =>
          refine ⟨(front ++ [x]) ++ [key], by simp, .refl _, fun hfront => ?_⟩
          refine List.pairwise_append.mpr ⟨hfront, List.pairwise_singleton _ _, ?_⟩
          intro y hy z hz
          obtain rfl := List.mem_singleton.mp hz
          have hle : x ≤ z := not_lt.mp hsmaller
          rcases List.mem_append.mp hy with hy' | hy'
          · exact ((List.pairwise_append.mp hfront).2.2 y hy' x (List.mem_singleton_self x)).trans hle
          · exact (List.mem_singleton.mp hy').trans_le hle

/-- The turns over the elements that are left extend the sorted front by them. -/
theorem foldl_insertAt (rest front : List α) (hfront : front.Pairwise (· ≤ ·)) :
    ((List.range' front.length rest.length).foldl insertAt (front ++ rest)).Perm (front ++ rest) ∧
      ((List.range' front.length rest.length).foldl insertAt (front ++ rest)).Pairwise
        (· ≤ ·) := by
  induction rest generalizing front with
  | nil => simpa using hfront
  | cons key rest ih =>
      obtain ⟨inserted, hshift, hperm, hsorted⟩ := @shiftIn_spec _ _ key front rest key
      have hturn : insertAt (front ++ key :: rest) front.length = inserted ++ rest := by
        simp [insertAt, hshift]
      have hlength : inserted.length = front.length + 1 := by simpa using hperm.length_eq
      rw [List.length_cons, List.range'_succ, List.foldl_cons, hturn, ← hlength]
      obtain ⟨hrest, hrestSorted⟩ := ih inserted (hsorted hfront)
      refine ⟨hrest.trans ?_, hrestSorted⟩
      simpa using hperm.append_right rest

end Insert

/-- The sort leaves a sorted permutation of its input. -/
theorem shiftSort_spec (xs : List α) :
    (shiftSort xs).Perm xs ∧ (shiftSort xs).Pairwise (· ≤ ·) := by
  cases xs with
  | nil => exact ⟨.refl _, List.Pairwise.nil⟩
  | cons x rest => exact foldl_insertAt rest [x] (List.pairwise_singleton _ _)

end ShiftSort
