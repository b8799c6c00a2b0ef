import XelmaMarket.Lib.Store

/-!
# Typed entries under encoded keys

A store keyed by encodings, whose entries know which key they belong to. A load decodes the entry
under a key's encoding: no entry is the initial value, and an entry that belongs to another key
does not decode. Keys that share an encoding spoil each other.
-/

namespace TypedStore

variable {K E V : Type} [DecidableEq K] (encode : K → E) (kind : V → K)
  (initial : K → V)

/-- What a load of a key returns; none is a failure to decode. -/
def load (store : Store E V) (key : K) : Option V :=
  match store.get (encode key) with
  | none => some (initial key)
  | some entry => if kind entry = key then some entry else none

/-- Every key loads as the value last saved under it. -/
def Holds (store : Store E V) (saved : K → V) : Prop :=
  ∀ key, load encode kind initial store key = some (saved key)

variable {encode kind initial} {store : Store E V} {saved : K → V} {key other : K} {entry : V}

/-- An empty store holds the initial values. -/
theorem holds_empty : Holds encode kind initial (Store.empty : Store E V) initial :=
  fun _ => rfl

/-- A key that loads a stored entry shares its encoding with no other key. -/
theorem Holds.alone (hholds : Holds encode kind initial store saved)
    (hstored : store.get (encode key) = some entry) (hother : other ≠ key) :
    encode other ≠ encode key := by
  intro hsame
  have hload := hholds key
  have hload' := hholds other
  simp only [load, hsame, hstored] at hload hload'
  split at hload
  · next hkind => rw [if_neg fun h => hother (h.symm.trans hkind)] at hload'; cases hload'
  · cases hload

/-- Saving under a key that shares its encoding with no other key changes what that key loads. -/
theorem Holds.set [DecidableEq E] (hholds : Holds encode kind initial store saved)
    (halone : ∀ other, other ≠ key → encode other ≠ encode key) {saved' : K → V}
    (hkind : kind entry = key) (hself : saved' key = entry)
    (hrest : ∀ other, other ≠ key → saved' other = saved other) :
    Holds encode kind initial (store.set (encode key) entry) saved' := by
  intro other
  by_cases hother : other = key
  · subst hother
    simp [load, hkind, hself]
  · rw [hrest other hother, ← hholds other]
    simp only [load, Store.get_set_of_ne store entry (halone other hother)]

end TypedStore
