import Mathlib.Algebra.Order.Floor.Div
import Mathlib.Data.List.Sort
import FSystem.Library.Rings
import FSystem.Library.Runs

/-!
# The rolling estimate of what a frame costs

A ring holds the last costs in no order.  One pass over it with two registers finds its two
largest costs, and in a ring of this size the percentile is one of them.
-/

namespace FSystem.Compositor

/-- How many costs are held. -/
def window : Nat := 128

/-- Which percentile the estimate is. -/
def percentile : Nat := 99

/-- The rank of the estimate among the held costs, from the smallest. -/
def rank (held : Nat) : Nat := if held = 0 then 0 else percentile * held ⌈/⌉ 100

/-- How far the estimate is from the largest cost, counting that as one. -/
def depth (held : Nat) : Nat := if held = 0 then 0 else held - rank held + 1

/-- The last costs. -/
structure Pacing where
  costsNanos : List Nat
  (held next : Nat)

namespace Pacing

/-- No frame measured yet. -/
def zero : Pacing := ⟨List.replicate window 0, 0, 0⟩

/-- Record what one frame cost. -/
def observe (self : Pacing) (cost : Nat) : Pacing where
  costsNanos := self.costsNanos.set self.next cost
  held := if self.held < window then self.held + 1 else self.held
  next := if self.next + 1 = window then 0 else self.next + 1

/-- One turn of the scan, on the largest and the second largest cost. -/
def scan (registers : Nat × Nat) (cost : Nat) : Nat × Nat :=
  if registers.1 < cost then (cost, registers.1)
  else if registers.2 < cost then (registers.1, cost)
  else registers

/-- The rolling percentile of what a frame has cost. -/
def estimateNanos (self : Pacing) : Nat :=
  if self.held = 0 then 0
  else
    let registers := (self.costsNanos.take self.held).foldl scan (0, 0)
    if depth self.held = 1 then registers.1 else registers.2

end Pacing

/-- The nearest-rank percentile of some costs, and nothing if there are none. -/
def nearestRank (costs : List Nat) : Nat :=
  (costs.mergeSort).getD (99 * costs.length ⌈/⌉ 100 - 1) 0

namespace Pacing

instance : RightCommutative scan where
  right_comm registers first second := by
    grind [scan]

/-- A scan of costs that fall leaves the first two of them. -/
theorem foldl_scan_of_falling {costs : List Nat} (falling : costs.Pairwise (· ≥ ·)) :
    costs.foldl scan (0, 0) = (costs.getD 0 0, costs.getD 1 0) := by
  match costs, falling with
  | [], _ => rfl
  | [largest], _ => grind [scan]
  | largest :: second :: rest, falling =>
    rw [List.pairwise_cons, List.pairwise_cons] at falling
    obtain ⟨below, under, -⟩ := falling
    have first := below second List.mem_cons_self
    have registers : scan (scan (0, 0) largest) second = (largest, second) := by grind [scan]
    rw [List.foldl_cons, List.foldl_cons, registers]
    -- No later cost is above either register.
    have same : ∀ cost ∈ rest, scan (largest, second) cost = (largest, second) := by
      intro cost member
      have small := under cost member
      grind [scan]
    clear below under
    induction rest with
    | nil => rfl
    | cons cost rest ih =>
      rw [List.foldl_cons, same cost List.mem_cons_self]
      exact ih fun later member => same later (List.mem_cons_of_mem _ member)

/-- The ring of a pacing keeps the last of some costs. -/
def Holds (self : Pacing) (costs : List Nat) : Prop :=
  Rings.Keeps zero.costsNanos self.costsNanos self.held self.next costs

/-- The step lemma. -/
theorem Holds.observe {self : Pacing} {costs : List Nat} (holds : self.Holds costs) (cost : Nat) :
    (self.observe cost).Holds (costs ++ [cost]) := by
  have wide : zero.costsNanos.length = window := List.length_replicate
  have positive : 0 < window := by decide
  have inside : self.next < window := by
    rw [holds.next, wide]
    exact Nat.mod_lt _ positive
  have wraps : (self.observe cost).next = (self.next + 1) % window := by
    rw [Pacing.observe]
    dsimp only
    split
    next last => rw [last, Nat.mod_self]
    next => rw [Nat.mod_eq_of_lt (by omega)]
  have pushed := holds.push (wide ▸ positive) cost
  rw [wide, ← wraps] at pushed
  exact pushed

/-- The estimate is the nearest-rank percentile of the last costs. -/
theorem estimate_is_the_rolling_percentile (costs : List Nat) :
    (Runs.run observe zero costs).estimateNanos = nearestRank (costs.rtake window) := by
  have holds : (Runs.run observe zero costs).Holds costs := by
    induction costs using List.reverseRecOn with
    | nil => exact Rings.Keeps.new _
    | append_singleton rest cost ih =>
      rw [Runs.run, List.foldl_concat]
      exact ih.observe cost
  generalize Runs.run observe zero costs = self at holds ⊢
  have wide : zero.costsNanos.length = window := List.length_replicate
  have perm := holds.perm
  have isHeld := holds.held
  rw [wide] at perm isHeld
  have count : (costs.rtake window).length = self.held := by
    rw [isHeld, List.rtake, List.length_drop]
    omega
  have most : self.held ≤ 128 := isHeld ▸ min_le_right ..
  generalize costs.rtake window = last at perm count
  have sorts := List.mergeSort_perm last (· ≤ ·)
  have rises : (last.mergeSort).Pairwise (· ≤ ·) := List.pairwise_mergeSort' _ last
  have falls := foldl_scan_of_falling (List.pairwise_reverse.mpr rises)
  have scanned : (self.costsNanos.take self.held).foldl scan (0, 0) = _ :=
    (perm.trans (sorts.symm.trans (List.reverse_perm _).symm)).foldl_eq _
  have length : (last.mergeSort).length = self.held := by rw [List.length_mergeSort, count]
  rw [estimateNanos, nearestRank, scanned, falls, count]
  by_cases none : self.held = 0
  · rw [if_pos none, List.eq_nil_of_length_eq_zero (length.trans none), List.getD_nil]
  have place : 99 * self.held ⌈/⌉ 100 = self.held - self.held / 100 := by
    rw [Nat.ceilDiv_eq_add_pred_div]
    omega
  have isDepth : depth self.held = self.held / 100 + 1 := by
    rw [depth, rank, if_neg none, if_neg none, percentile, place]
    omega
  rw [if_neg none, isDepth, place]
  simp only [List.getD_eq_getElem?_getD]
  split
  next top =>
    rw [List.getElem?_reverse (by omega), length]
    congr 2
    omega
  next second =>
    rw [List.getElem?_reverse (by omega), length]
    congr 2
    omega

end Pacing

end FSystem.Compositor
