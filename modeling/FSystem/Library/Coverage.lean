import Mathlib.Algebra.BigOperators.Group.Finset.Piecewise
import Mathlib.Algebra.Order.Ring.Nat
import Mathlib.Algebra.Order.BigOperators.Group.Finset
import Mathlib.Order.Interval.Finset.Nat

/-!
# How often an index is covered

A range of indices covers each of its members once.  Ranges kept in many lists are apart
from each other exactly when no index is covered twice, and cutting a range in two or
moving one from list to list changes no index's count.
-/

namespace FSystem

/-- How often a range covers an index. -/
def cover (low high index : Nat) : Nat := if low ≤ index ∧ index < high then 1 else 0

section Cover

variable {low middle high index : Nat}

theorem cover_of_mem (first : low ≤ index) (second : index < high) : cover low high index = 1 :=
  if_pos ⟨first, second⟩

theorem cover_pos_iff : 0 < cover low high index ↔ low ≤ index ∧ index < high := by
  unfold cover
  split
  · next inside => simp [inside]
  · next outside => simp [outside]

/-- A range cut in two covers what it did. -/
theorem cover_split (first : low ≤ middle) (second : middle ≤ high) (index : Nat) :
    cover low middle index + cover middle high index = cover low high index := by
  unfold cover
  by_cases below : index < middle
  · have outside : ¬middle ≤ index := Nat.not_le.2 below
    have inside : index < high := Nat.lt_of_lt_of_le below second
    simp [below, outside, inside]
  · have reached : low ≤ index := Nat.le_trans first (Nat.le_of_not_lt below)
    simp [below, reached, Nat.le_of_not_lt below]

/-- A range covers as many indices as it is long. -/
theorem sum_cover {bound : Nat} (inside : high ≤ bound) :
    ∑ index ∈ Finset.range bound, cover low high index = high - low := by
  have members : (Finset.range bound).filter (fun index => low ≤ index ∧ index < high) =
      Finset.Ico low high := by
    ext index
    simp only [Finset.mem_filter, Finset.mem_range, Finset.mem_Ico]
    omega
  simp only [cover]
  rw [← Finset.card_filter, members, Nat.card_Ico]

end Cover

section Lists

variable {α : Type}

theorem le_sum_map {measure : α → Nat} {values : List α} {value : α} (member : value ∈ values) :
    measure value ≤ (values.map measure).sum :=
  List.le_sum_of_mem (List.mem_map_of_mem member)

theorem sum_sum_map {Index : Type} (indices : Finset Index) (measure : Index → α → Nat)
    (values : List α) :
    ∑ index ∈ indices, (values.map (measure index)).sum =
      (values.map fun value => ∑ index ∈ indices, measure index value).sum := by
  induction values with
  | nil => simp
  | cons value rest ih => simp [Finset.sum_add_distrib, ih]

/-- Values that together cover no index twice are apart from each other. -/
theorem pairwise_of_sum_le_one {measure : Nat → α → Nat} {values : List α}
    (once : ∀ index, (values.map (measure index)).sum ≤ 1) :
    values.Pairwise fun value other => ∀ index, measure index value + measure index other ≤ 1 := by
  induction values with
  | nil => exact .nil
  | cons value rest ih =>
    simp only [List.map_cons, List.sum_cons] at once
    refine .cons ?_ (ih fun index => ?_)
    · intro other member index
      have most := once index
      have counted : measure index other ≤ (rest.map (measure index)).sum := le_sum_map member
      omega
    · have most := once index
      omega

end Lists

section Tally

variable {Key α : Type} [Fintype Key]

/-- What the values in some lists measure together. -/
def tally (measure : Key → α → Nat) (lists : Key → List α) : Nat :=
  ∑ key, ((lists key).map (measure key)).sum

/-- One list is replaced by another. -/
theorem tally_update
    [DecidableEq Key]
    (measure : Key → α → Nat)
    (lists : Key → List α)
    (key : Key)
    (values : List α) :
    tally measure (Function.update lists key values) + ((lists key).map (measure key)).sum =
      tally measure lists + (values.map (measure key)).sum := by
  have others : ∀ other ∈ Finset.univ.erase key,
      ((Function.update lists key values other).map (measure other)).sum =
        ((lists other).map (measure other)).sum := by
    intro other member
    rw [Function.update_of_ne (Finset.ne_of_mem_erase member)]
  unfold tally
  rw [← Finset.add_sum_erase _ _ (Finset.mem_univ key),
    ← Finset.add_sum_erase Finset.univ (fun other => ((lists other).map (measure other)).sum)
      (Finset.mem_univ key),
    Finset.sum_congr rfl others, Function.update_self]
  omega

theorem sum_map_le_tally (measure : Key → α → Nat) (lists : Key → List α) (key : Key) :
    ((lists key).map (measure key)).sum ≤ tally measure lists :=
  Finset.single_le_sum (f := fun other => ((lists other).map (measure other)).sum)
    (fun _ _ => Nat.zero_le _) (Finset.mem_univ key)

theorem le_tally
    {measure : Key → α → Nat}
    {lists : Key → List α}
    {key : Key}
    {value : α}
    (member : value ∈ lists key) : measure key value ≤ tally measure lists :=
  Nat.le_trans (le_sum_map member) (sum_map_le_tally measure lists key)

theorem tally_le_tally {measure larger : Key → α → Nat} {lists : Key → List α}
    (less : ∀ key, ∀ value ∈ lists key, measure key value ≤ larger key value) :
    tally measure lists ≤ tally larger lists := by
  apply Finset.sum_le_sum
  intro key _
  exact List.sum_le_sum fun value member => less key value member

theorem sum_tally {Index : Type} (indices : Finset Index) (measure : Index → Key → α → Nat)
    (lists : Key → List α) :
    ∑ index ∈ indices, tally (measure index) lists =
      tally (fun key value => ∑ index ∈ indices, measure index key value) lists := by
  unfold tally
  rw [Finset.sum_comm]
  refine Finset.sum_congr rfl fun key _ => ?_
  exact sum_sum_map indices (fun index => measure index key) (lists key)

end Tally

end FSystem
