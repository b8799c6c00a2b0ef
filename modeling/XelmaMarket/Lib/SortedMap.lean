import Mathlib.Algebra.BigOperators.Group.List.Basic
import Mathlib.Data.List.Sort
import Mathlib.Order.Defs.LinearOrder

/-!
# Maps in key order

A map is the list of its entries in strictly ascending key order; the order is a field, so every
map that can be built has it and lists no key twice. Reads and writes are described by `get`, and
keys and values are determined by what is read.
-/

/-- A map kept as its entries in strictly ascending key order. -/
structure SortedMap (K V : Type*) [LinearOrder K] where
  entries : List (K × V)
  ascending : entries.Pairwise fun first second => first.1 < second.1

namespace SortedMap

variable {K V : Type*} [LinearOrder K]

/-! ## Entry lists -/

/-- The value of the first entry at a key. -/
def lookup (key : K) : List (K × V) → Option V
  | [] => none
  | entry :: rest => if key = entry.1 then some entry.2 else lookup key rest

/-- Put an entry in its place, over an entry at the same key. -/
def insertEntry (key : K) (value : V) : List (K × V) → List (K × V)
  | [] => [(key, value)]
  | entry :: rest =>
      if key < entry.1 then (key, value) :: entry :: rest
      else if key = entry.1 then (key, value) :: rest
      else entry :: insertEntry key value rest

theorem mem_insertEntry {key : K} {value : V} {entries : List (K × V)} {entry : K × V}
    (hmem : entry ∈ insertEntry key value entries) : entry = (key, value) ∨ entry ∈ entries := by
  induction entries with
  | nil => exact .inl (List.mem_singleton.mp hmem)
  | cons head rest ih =>
      unfold insertEntry at hmem
      split_ifs at hmem with hbefore hsame
      · exact List.mem_cons.mp hmem
      · exact (List.mem_cons.mp hmem).imp_right (List.mem_cons_of_mem _)
      · rcases List.mem_cons.mp hmem with rfl | hrest
        · exact .inr List.mem_cons_self
        · exact (ih hrest).imp_right (List.mem_cons_of_mem _)

/-- Insertion keeps the order. -/
theorem ascending_insertEntry (key : K) (value : V) {entries : List (K × V)}
    (hascending : entries.Pairwise fun first second => first.1 < second.1) :
    (insertEntry key value entries).Pairwise fun first second => first.1 < second.1 := by
  induction entries with
  | nil => exact List.pairwise_singleton _ _
  | cons head rest ih =>
      obtain ⟨hhead, hrest⟩ := List.pairwise_cons.mp hascending
      unfold insertEntry
      split_ifs with hbefore hsame
      · refine List.pairwise_cons.mpr ⟨fun entry hmem => ?_, hascending⟩
        rcases List.mem_cons.mp hmem with rfl | hmem
        · exact hbefore
        · exact hbefore.trans (hhead entry hmem)
      · subst hsame
        exact List.pairwise_cons.mpr ⟨hhead, hrest⟩
      · refine List.pairwise_cons.mpr ⟨fun entry hmem => ?_, ih hrest⟩
        rcases mem_insertEntry hmem with rfl | hmem
        · exact lt_of_le_of_ne (not_lt.mp hbefore) (Ne.symm hsame)
        · exact hhead entry hmem

theorem lookup_insertEntry (key key' : K) (value : V) (entries : List (K × V)) :
    lookup key' (insertEntry key value entries) =
      if key' = key then some value else lookup key' entries := by
  induction entries with
  | nil => rfl
  | cons head rest ih =>
      have hcons : ∀ (entry : K × V) tail, lookup key' (entry :: tail) =
          if key' = entry.1 then some entry.2 else lookup key' tail := fun _ _ => rfl
      unfold insertEntry
      by_cases hbefore : key < head.1
      · rw [if_pos hbefore, hcons]
      · by_cases hsame : key = head.1
        · rw [if_neg hbefore, if_pos hsame, hcons, hcons, ← hsame]
          split_ifs <;> rfl
        · rw [if_neg hbefore, if_neg hsame, hcons, ih, hcons]
          split_ifs with hhead hkey
          · exact absurd (hkey.symm.trans hhead) hsame
          · rfl
          · rfl
          · rfl

theorem mem_of_lookup {key : K} {value : V} {entries : List (K × V)}
    (hlookup : lookup key entries = some value) : (key, value) ∈ entries := by
  induction entries with
  | nil => cases hlookup
  | cons head rest ih =>
      unfold lookup at hlookup
      split_ifs at hlookup with hkey
      · cases hlookup
        rw [hkey]
        exact List.mem_cons_self
      · exact List.mem_cons_of_mem _ (ih hlookup)

/-- In ascending entries a lookup finds every entry. -/
theorem lookup_eq_some_iff {key : K} {value : V} {entries : List (K × V)}
    (hascending : entries.Pairwise fun first second => first.1 < second.1) :
    lookup key entries = some value ↔ (key, value) ∈ entries := by
  refine ⟨mem_of_lookup, fun hmem => ?_⟩
  induction entries with
  | nil => cases hmem
  | cons head rest ih =>
      obtain ⟨hhead, hrest⟩ := List.pairwise_cons.mp hascending
      unfold lookup
      rcases List.mem_cons.mp hmem with rfl | hmem
      · exact if_pos rfl
      · rw [if_neg (hhead _ hmem).ne']
        exact ih hrest hmem

/-! ## Maps -/

/-- The map without entries. -/
def empty : SortedMap K V :=
  ⟨[], List.Pairwise.nil⟩

/-- The value at a key. -/
def get (map : SortedMap K V) (key : K) : Option V :=
  lookup key map.entries

/-- The value at a key, or a default. -/
def getD (map : SortedMap K V) (key : K) (default : V) : V :=
  (map.get key).getD default

/-- Write a value at a key. -/
def insert (map : SortedMap K V) (key : K) (value : V) : SortedMap K V :=
  ⟨insertEntry key value map.entries, ascending_insertEntry key value map.ascending⟩

/-- Delete the entry at a key. -/
def remove (map : SortedMap K V) (key : K) : SortedMap K V :=
  ⟨map.entries.filter fun entry => entry.1 ≠ key, map.ascending.filter _⟩

/-- The values in key order. -/
def values (map : SortedMap K V) : List V :=
  map.entries.map Prod.snd

variable (map : SortedMap K V)

theorem mem_entries_iff {key : K} {value : V} :
    (key, value) ∈ map.entries ↔ map.get key = some value :=
  (lookup_eq_some_iff map.ascending).symm

@[simp] theorem get_empty (key : K) : (empty : SortedMap K V).get key = none := rfl

theorem get_insert (key key' : K) (value : V) :
    (map.insert key value).get key' = if key' = key then some value else map.get key' :=
  lookup_insertEntry key key' value map.entries

theorem getD_insert (key key' : K) (value default : V) :
    (map.insert key value).getD key' default =
      if key' = key then value else map.getD key' default := by
  unfold getD
  rw [get_insert]
  split <;> rfl

theorem get_remove (key key' : K) :
    (map.remove key).get key' = if key' = key then none else map.get key' := by
  ext value
  rw [← mem_entries_iff]
  show (key', value) ∈ map.entries.filter _ ↔ _
  rw [List.mem_filter, mem_entries_iff]
  by_cases hkey : key' = key <;> simp [hkey]

theorem getD_remove (key key' : K) (default : V) :
    (map.remove key).getD key' default = if key' = key then default else map.getD key' default := by
  unfold getD
  rw [get_remove]
  split <;> rfl

/-- The keys, in order. -/
def keys : List K :=
  map.entries.map Prod.fst

theorem ascending_keys : map.keys.Pairwise (· < ·) :=
  List.pairwise_map.mpr map.ascending

/-- No key is listed twice. -/
theorem keys_nodup : map.keys.Nodup :=
  map.ascending_keys.imp ne_of_lt

theorem mem_keys_iff {key : K} : key ∈ map.keys ↔ (map.get key).isSome = true := by
  unfold keys
  rw [List.mem_map, Option.isSome_iff_exists]
  constructor
  · rintro ⟨entry, hmem, rfl⟩
    exact ⟨entry.2, map.mem_entries_iff.mp hmem⟩
  · intro ⟨value, hget⟩
    exact ⟨(key, value), map.mem_entries_iff.mpr hget, rfl⟩

/-- The keys are the only ascending list of what the map has a value for. -/
theorem keys_eq {users : List K} (hascending : users.Pairwise (· < ·))
    (hmem : ∀ key, key ∈ users ↔ (map.get key).isSome = true) : map.keys = users :=
  map.ascending_keys.eq_of_mem_iff hascending fun key => by rw [mem_keys_iff, hmem]

/-- The entries are what is read at the keys. -/
theorem entries_eq :
    map.entries = map.keys.filterMap fun key => (map.get key).map fun value => (key, value) := by
  unfold keys
  rw [List.filterMap_map]
  have hread : ∀ entry ∈ map.entries,
      ((map.get entry.1).map fun value => (entry.1, value)) = some entry := by
    intro entry hmem
    rw [map.mem_entries_iff.mp hmem]
    rfl
  exact (List.filterMap_some.symm.trans (List.filterMap_congr fun entry hmem =>
    (hread entry hmem).symm))

/-- The values are what is read at the keys. -/
theorem values_eq : map.values = map.keys.filterMap map.get := by
  unfold values
  rw [entries_eq, List.map_filterMap]
  refine List.filterMap_congr fun key _ => ?_
  cases map.get key <;> rfl

end SortedMap
