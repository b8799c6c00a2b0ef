import Mathlib.Algebra.BigOperators.Finprod
import Mathlib.Algebra.BigOperators.Group.List.Basic
import Mathlib.Algebra.Order.BigOperators.Group.Finset
import Mathlib.Data.Int.Basic
import Mathlib.Data.Set.Finite.Basic
import Mathlib.Tactic.Ring

/-!
# Key-value stores of finite support

A store maps keys to optional values and holds finitely many entries; the finiteness is a field,
so every store that can be built has it. `weight` values one key by what is stored there and
`total` sums the weights of all keys. The lemmas say how writes change a total; the general one
is `total_add`, for any change that is known key by key.
-/

/-- A key-value store with finitely many entries. -/
structure Store (K V : Type*) where
  get : K → Option V
  finite : {k | get k ≠ none}.Finite

namespace Store

variable {K V : Type*}

@[ext] theorem ext {s t : Store K V} (h : ∀ k, s.get k = t.get k) : s = t := by
  cases s
  cases t
  congr
  funext k
  exact h k

/-- The store without entries. -/
def empty : Store K V where
  get _ := none
  finite := by simp

/-- Whether a key has an entry. -/
def has (s : Store K V) (k : K) : Bool :=
  (s.get k).isSome

/-- The value at a key, or a default. -/
def getD (s : Store K V) (k : K) (default : V) : V :=
  (s.get k).getD default

@[simp] theorem get_empty (k : K) : (empty : Store K V).get k = none := rfl

@[simp] theorem has_iff (s : Store K V) (k : K) : s.has k = true ↔ ∃ v, s.get k = some v := by
  simp [has, Option.isSome_iff_exists]

variable [DecidableEq K]

/-- Write a value at a key. -/
def set (s : Store K V) (k : K) (v : V) : Store K V where
  get k' := if k' = k then some v else s.get k'
  finite := by
    refine (s.finite.insert k).subset ?_
    intro k' hk'
    by_cases h : k' = k <;> simp_all

/-- Delete the entry at a key. -/
def remove (s : Store K V) (k : K) : Store K V where
  get k' := if k' = k then none else s.get k'
  finite := by
    refine s.finite.subset ?_
    intro k' hk'
    by_cases h : k' = k <;> simp_all

@[simp] theorem get_set_self (s : Store K V) (k : K) (v : V) : (s.set k v).get k = some v := by
  simp [set]

@[simp] theorem get_remove_self (s : Store K V) (k : K) : (s.remove k).get k = none := by
  simp [remove]

theorem get_set (s : Store K V) (k k' : K) (v : V) :
    (s.set k v).get k' = if k' = k then some v else s.get k' := rfl

theorem get_remove (s : Store K V) (k k' : K) :
    (s.remove k).get k' = if k' = k then none else s.get k' := rfl

theorem get_set_of_ne (s : Store K V) {k k' : K} (v : V) (h : k' ≠ k) :
    (s.set k v).get k' = s.get k' := by
  simp [get_set, h]

theorem get_remove_of_ne (s : Store K V) {k k' : K} (h : k' ≠ k) :
    (s.remove k).get k' = s.get k' := by
  simp [get_remove, h]

theorem getD_set (s : Store K V) (k k' : K) (v d : V) :
    (s.set k v).getD k' d = if k' = k then v else s.getD k' d := by
  by_cases h : k' = k <;> simp [getD, get_set, h]

theorem getD_remove (s : Store K V) (k k' : K) (d : V) :
    (s.remove k).getD k' d = if k' = k then d else s.getD k' d := by
  by_cases h : k' = k <;> simp [getD, get_remove, h]

/-- Change every value. -/
def map {V' : Type*} (f : V → V') (s : Store K V) : Store K V' where
  get k := (s.get k).map f
  finite := by simpa using s.finite

omit [DecidableEq K] in
@[simp] theorem get_map {V' : Type*} (f : V → V') (s : Store K V) (k : K) :
    (s.map f).get k = (s.get k).map f := rfl

theorem map_set {V' : Type*} (f : V → V') (s : Store K V) (k : K) (v : V) :
    (s.set k v).map f = (s.map f).set k (f v) := by
  ext1 k'
  simp only [get_map, get_set]
  split <;> rfl

/-- Delete the entries at several keys. -/
def removeAll (s : Store K V) (keys : List K) : Store K V :=
  keys.foldl remove s

theorem get_removeAll (s : Store K V) (keys : List K) (k : K) :
    (s.removeAll keys).get k = if k ∈ keys then none else s.get k := by
  induction keys generalizing s with
  | nil => simp [removeAll]
  | cons key rest ih =>
      show ((s.remove key).removeAll rest).get k = _
      rw [ih, get_remove]
      by_cases hrest : k ∈ rest <;> by_cases hkey : k = key <;> simp [hrest, hkey]

/-- Deleting the same keys again changes nothing. -/
@[simp] theorem removeAll_removeAll (s : Store K V) (keys : List K) :
    (s.removeAll keys).removeAll keys = s.removeAll keys := by
  ext1 k
  simp only [get_removeAll]
  split <;> rfl

@[simp] theorem remove_remove (s : Store K V) (k : K) : (s.remove k).remove k = s.remove k := by
  ext1 k'
  simp only [get_remove]
  split <;> rfl

/-- The last write at a key stays. -/
@[simp] theorem set_set (s : Store K V) (k : K) (v v' : V) : (s.set k v).set k v' = s.set k v' := by
  ext k' : 1
  simp only [get_set]
  split <;> rfl

/-- Storing what is stored changes nothing. -/
theorem set_of_get {s : Store K V} {k : K} {v : V} (h : s.get k = some v) : s.set k v = s := by
  ext k' : 1
  rw [get_set]
  split
  · next hsame => rw [hsame, h]
  · rfl

/-- Writes at different keys commute. -/
theorem set_comm (s : Store K V) {k k' : K} (v v' : V) (h : k ≠ k') :
    (s.set k v).set k' v' = (s.set k' v').set k v := by
  ext1 key
  simp only [get_set]
  by_cases hkey : key = k
  · subst hkey
    simp [h]
  · simp [hkey]

/-- Deletions commute. -/
theorem remove_comm (s : Store K V) (k k' : K) :
    (s.remove k).remove k' = (s.remove k').remove k := by
  ext1 key
  simp only [get_remove]
  split_ifs <;> rfl

/-- Raise the number at a key; a key without an entry counts as 0. -/
def raise (s : Store K ℤ) (k : K) (amount : ℤ) : Store K ℤ :=
  s.set k (s.getD k 0 + amount)

/-- Raises commute, at one key or at two. -/
theorem raise_right_comm (s : Store K ℤ) (k k' : K) (amount amount' : ℤ) :
    (s.raise k amount).raise k' amount' = (s.raise k' amount').raise k amount := by
  unfold raise
  by_cases h : k = k'
  · subst h
    ext1 key
    by_cases hkey : key = k <;> simp [getD, get_set, hkey, add_right_comm]
  · rw [getD_set, getD_set, if_neg h, if_neg (Ne.symm h)]
    exact set_comm s _ _ h

/-! ## Totals -/

variable (w : K → V → ℤ)

omit [DecidableEq K] in
/-- What the entry at a key weighs; a key without an entry weighs nothing. -/
def weight (s : Store K V) (w : K → V → ℤ) (k : K) : ℤ :=
  (s.get k).elim 0 (w k)

omit [DecidableEq K] in
/-- The sum of the weights of all entries. -/
noncomputable def total (s : Store K V) (w : K → V → ℤ) : ℤ :=
  ∑ᶠ k, s.weight w k

omit [DecidableEq K] in
theorem weight_support_finite (s : Store K V) : (Function.support (s.weight w)).Finite := by
  refine s.finite.subset ?_
  intro k hk hnone
  exact hk (by simp [weight, hnone])

omit [DecidableEq K] in
@[simp] theorem total_empty : (empty : Store K V).total w = 0 := by
  simp [total, weight]

omit [DecidableEq K] in
theorem weight_of_get {s : Store K V} {k : K} {v : V} (h : s.get k = some v) :
    s.weight w k = w k v := by
  simp [weight, h]

omit [DecidableEq K] in
theorem weight_of_none {s : Store K V} {k : K} (h : s.get k = none) : s.weight w k = 0 := by
  simp [weight, h]

omit [DecidableEq K] in
/-- When entries weigh their value, a key weighs its value or 0. -/
theorem weight_eq_getD (s : Store K ℤ) (k : K) :
    s.weight (fun _ value => value) k = s.getD k 0 := by
  cases h : s.get k <;> simp [weight, getD, h]

theorem weight_set (s : Store K V) (k k' : K) (v : V) :
    (s.set k v).weight w k' = if k' = k then w k v else s.weight w k' := by
  by_cases h : k' = k
  · subst h
    simp [weight]
  · simp [weight, get_set, h]

theorem weight_remove (s : Store K V) (k k' : K) :
    (s.remove k).weight w k' = if k' = k then 0 else s.weight w k' := by
  by_cases h : k' = k <;> simp [weight, get_remove, h]

omit [DecidableEq K] in
/-- A change of the weights known key by key, and confined to finitely many keys, changes the
total by its sum. -/
theorem total_add {s t : Store K V} {w w' : K → V → ℤ} (change : K → ℤ) (keys : Finset K)
    (hchange : ∀ k, t.weight w' k = s.weight w k + change k)
    (hkeys : ∀ k, k ∉ keys → change k = 0) :
    t.total w' = s.total w + ∑ k ∈ keys, change k := by
  have hsupport : Function.support change ⊆ keys := by
    intro k hk
    by_contra hmem
    exact hk (hkeys k hmem)
  have hfinite : (Function.support change).Finite := keys.finite_toSet.subset hsupport
  unfold total
  rw [finsum_congr hchange, finsum_add_distrib (s.weight_support_finite w) hfinite,
    finsum_eq_sum_of_support_subset change hsupport]

/-- The same at a single key. -/
theorem total_add_one {s t : Store K V} {w w' : K → V → ℤ} (k : K) (change : ℤ)
    (hself : t.weight w' k = s.weight w k + change)
    (hother : ∀ k', k' ≠ k → t.weight w' k' = s.weight w k') :
    t.total w' = s.total w + change := by
  have h := @total_add _ _ s t w w' (fun k' => if k' = k then change else 0)
    {k} (fun k' => by by_cases hk : k' = k <;> simp_all) (fun k' hk' => by simp_all)
  simpa using h

theorem total_set (s : Store K V) (k : K) (v : V) :
    (s.set k v).total w = s.total w + (w k v - s.weight w k) := by
  refine total_add_one k _ ?_ fun k' hk' => ?_
  · simp [weight_set]
  · simp [weight_set, hk']

theorem total_remove (s : Store K V) (k : K) :
    (s.remove k).total w = s.total w - s.weight w k := by
  rw [sub_eq_add_neg]
  refine total_add_one k _ ?_ fun k' hk' => ?_
  · simp [weight_remove]
  · simp [weight_remove, hk']

omit [DecidableEq K] in
theorem weight_nonneg {s : Store K V} (hnonneg : ∀ k v, s.get k = some v → 0 ≤ w k v) (k : K) :
    0 ≤ s.weight w k := by
  cases h : s.get k with
  | none => simp [weight, h]
  | some v => simpa [weight, h] using hnonneg k v h

omit [DecidableEq K] in
theorem total_nonneg {s : Store K V} (hnonneg : ∀ k v, s.get k = some v → 0 ≤ w k v) :
    0 ≤ s.total w :=
  finsum_nonneg (weight_nonneg w hnonneg)

omit [DecidableEq K] in
/-- Finitely many keys weigh no more than all of them. -/
theorem sum_weight_le_total {s : Store K V} (hnonneg : ∀ k v, s.get k = some v → 0 ≤ w k v)
    (keys : Finset K) : ∑ k ∈ keys, s.weight w k ≤ s.total w := by
  classical
  have hsupport : Function.support (s.weight w) ⊆
      ((s.weight_support_finite w).toFinset ∪ keys : Finset K) := by
    intro k hk
    simpa using Or.inl hk
  unfold total
  rw [finsum_eq_sum_of_support_subset _ hsupport]
  exact Finset.sum_le_sum_of_subset_of_nonneg Finset.subset_union_right
    fun k _ _ => weight_nonneg w hnonneg k

omit [DecidableEq K] in
/-- A store over pairs is summed fibre by fibre, when a second store lists every fibre without
repetition. -/
theorem total_fibers {L W : Type*} (s : Store (K × L) W) (t : Store K (List L))
    (w : K × L → W → ℤ) (hnodup : ∀ k ls, t.get k = some ls → ls.Nodup)
    (hlisted : ∀ k l, s.get (k, l) ≠ none → ∃ ls, t.get k = some ls ∧ l ∈ ls) :
    s.total w = t.total fun k ls => (ls.map fun l => s.weight w (k, l)).sum := by
  classical
  unfold total
  rw [finsum_curry _ (s.weight_support_finite w)]
  refine finsum_congr fun k => ?_
  have hzero : ∀ l, (∀ ls, t.get k = some ls → l ∉ ls) → s.weight w (k, l) = 0 := by
    intro l hnot
    refine weight_of_none w ?_
    by_contra hsome
    obtain ⟨ls, hget, hmem⟩ := hlisted k l hsome
    exact hnot ls hget hmem
  cases hget : t.get k with
  | none =>
      rw [weight_of_none _ hget]
      exact finsum_eq_zero_of_forall_eq_zero fun l => hzero l (by simp [hget])
  | some ls =>
      rw [weight_of_get _ hget, ← List.sum_toFinset _ (hnodup k ls hget)]
      refine finsum_eq_sum_of_support_subset _ fun l hl => ?_
      by_contra hmem
      refine hl (hzero l fun ls' hget' => ?_)
      rw [hget] at hget'
      cases hget'
      simpa using hmem

end Store
