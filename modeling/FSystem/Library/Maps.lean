import Std.Data.TreeMap
import Mathlib.Data.List.Basic

/-!
# Finite maps

Two ordered maps that are each other's inverse, and the updates that keep them
so: adding a fresh pair, moving a key to a fresh value, removing a pair.  The
last section is about a map from numbers that is built key by key.
-/

namespace FSystem.Maps

open Std

variable {α β : Type} [Ord α] [Std.TransOrd α] [Std.LawfulEqOrd α]
  [Ord β] [Std.TransOrd β] [Std.LawfulEqOrd β]

/-- Each map answers the other's question. -/
def Inverse (forward : TreeMap α β) (backward : TreeMap β α) : Prop :=
  ∀ (key : α) (value : β), forward[key]? = some value ↔ backward[value]? = some key

variable {forward : TreeMap α β} {backward : TreeMap β α}

section

variable (inverse : Inverse forward backward)

include inverse

omit [Std.TransOrd α] [Std.LawfulEqOrd α] [Std.TransOrd β] [Std.LawfulEqOrd β] in
/-- No two keys of the first map share a value. -/
theorem Inverse.injective {first second : α} {value : β} (one : forward[first]? = some value)
    (other : forward[second]? = some value) : first = second := by
  rw [inverse] at one other
  exact Option.some.inj (one.symm.trans other)

variable {key : α}

/-- A pair of which neither part occurs can be added. -/
theorem Inverse.insert {value : β} (freshKey : forward[key]? = none)
    (freshValue : backward[value]? = none) :
    Inverse (forward.insert key value) (backward.insert value key) := by
  classical
  intro other otherValue
  rw [TreeMap.getElem?_insert, TreeMap.getElem?_insert]
  simp only [Std.compare_eq_iff_eq]
  have unchanged := inverse other otherValue
  by_cases sameKey : key = other
  · subst sameKey
    by_cases sameValue : value = otherValue
    · subst sameValue
      simp
    · simp only [if_true, if_false, Option.some.injEq, sameValue, false_iff]
      rw [← unchanged, freshKey]
      simp
  · by_cases sameValue : value = otherValue
    · subst sameValue
      simp only [if_true, if_false, Option.some.injEq, sameKey, iff_false]
      rw [unchanged, freshValue]
      simp
    · simp only [if_neg sameKey, if_neg sameValue]
      exact unchanged

/-- A pair can be removed. -/
theorem Inverse.erase {value : β} (present : forward[key]? = some value) :
    Inverse (forward.erase key) (backward.erase value) := by
  classical
  intro other otherValue
  rw [TreeMap.getElem?_erase, TreeMap.getElem?_erase]
  simp only [Std.compare_eq_iff_eq]
  have unchanged := inverse other otherValue
  by_cases sameKey : key = other
  · subst sameKey
    by_cases sameValue : value = otherValue
    · simp [sameValue]
    · simp only [if_true, if_neg sameValue, reduceCtorEq, false_iff]
      rw [← unchanged, present]
      simpa using sameValue
  · by_cases sameValue : value = otherValue
    · subst sameValue
      simp only [if_true, if_neg sameKey, reduceCtorEq, iff_false]
      intro found
      exact sameKey (inverse.injective present found)
    · simp only [if_neg sameKey, if_neg sameValue]
      exact unchanged

/-- A key can be moved to a value that does not occur. -/
theorem Inverse.move {value target : β} (present : forward[key]? = some value)
    (fresh : backward[target]? = none) :
    Inverse (forward.insert key target) ((backward.erase value).insert target key) := by
  have removed := inverse.erase present
  have freshBehind : (backward.erase value)[target]? = none := by
    rw [TreeMap.getElem?_erase]
    split
    · rfl
    · exact fresh
  have added : Inverse ((forward.erase key).insert key target)
      ((backward.erase value).insert target key) :=
    removed.insert (by simp) freshBehind
  intro other otherValue
  rw [← added other otherValue, TreeMap.getElem?_insert,
    TreeMap.getElem?_insert, TreeMap.getElem?_erase]
  split <;> rfl

end

section Ordered

variable {β : Type} {map : TreeMap Nat β}

/-- A map built by inserting one value for each key of a list. -/
theorem getElem?_foldl_insert
    (value : Nat → β) (keys : List Nat) (start : TreeMap Nat β) (key : Nat) :
    (keys.foldl (fun map key => map.insert key (value key)) start)[key]? =
      if key ∈ keys then some (value key) else start[key]? := by
  induction keys generalizing start with
  | nil => simp
  | cons first rest ih =>
    rw [List.foldl_cons, ih, TreeMap.getElem?_insert]
    by_cases later : key ∈ rest
    · simp [later]
    · by_cases same : first = key
      · simp [same]
      · simp [later, same, Ne.symm same]

end Ordered

end FSystem.Maps
