import Mathlib.Data.List.GetD
import Mathlib.Data.List.Perm.Basic
import Mathlib.Data.Nat.Bitwise

/-!
# The visual order of a line

A line is laid out from the highest level down: at each level every maximal run at that level
or above is reversed in place.  Whether of two positions the earlier one is displayed to the
left then depends on the smallest level from one to the other only.
-/

namespace FSystem.Text.Bidi

open List

/-- Why a line has no visual order. -/
inductive Refusal
  | tooLong (len : Nat)
  | wrongLength (need have_ : Nat)

/-- The index that stands for no scalar. -/
def none : Nat := 2 ^ 32 - 1

variable (levels : List Nat)

/-- The level of a position. -/
def levelAt (position : Nat) : Nat := levels.getD position 0

/-- Reverse every maximal run of held elements; `run` ends here, reversed. -/
def reverseRuns (held : Nat → Bool) : List Nat → List Nat → List Nat
  | run, [] => run
  | run, one :: rest =>
    if held one then reverseRuns held (one :: run) rest else run ++ one :: reverseRuns held [] rest

/-- The passes from a level down to the lowest odd one. -/
def passes (levels : List Nat) (lowest : Nat) : Nat → List Nat → List Nat
  | 0, order => order
  | level + 1, order =>
    if lowest ||| 1 ≤ level + 1 then
      passes levels lowest level (reverseRuns (level + 1 ≤ levelAt levels ·) [] order)
    else order

/-- The positions of a line from left to right.  What `order` held is overwritten. -/
def visualOrder (order : List Nat) : Except Refusal (List Nat) :=
  if none ≤ levels.length then .error (.tooLong levels.length)
  else if order.length ≠ levels.length then .error (.wrongLength levels.length order.length)
  else
    match levels.max?, levels.min? with
    | some highest, some lowest => .ok (passes levels lowest highest (range levels.length))
    | _, _ => .ok (range levels.length)

/-- The smallest level from one position to another. -/
def smallest (i j : Nat) : Nat :=
  ((range' (min i j) (max i j + 1 - min i j)).map (levelAt levels)).min?.getD 0

/-- One position is left of another after the passes down to a level: a pair is turned round by
each pass with a level at most the smallest between them. -/
def Precedes (level i j : Nat) : Prop :=
  i ≠ j ∧ (i < j ↔ (smallest levels i j + 1 - level) % 2 = 0)

/-- Reversing runs moves positions only. -/
theorem reverseRuns_perm (held : Nat → Bool) (run rest : List Nat) :
    (reverseRuns held run rest).Perm (run ++ rest) := by
  induction rest generalizing run with
  | nil => rw [reverseRuns, append_nil]
  | cons one rest ih =>
    rw [reverseRuns]
    split
    · exact (ih (one :: run)).trans perm_middle.symm
    · exact ((ih []).cons one).append_left run

section Levels

variable {levels : List Nat} {level i j : Nat}

theorem le_smallest_iff : level ≤ smallest levels i j ↔
    ∀ k, min i j ≤ k → k ≤ max i j → level ≤ levelAt levels k := by
  cases found : ((range' (min i j) (max i j + 1 - min i j)).map (levelAt levels)).min? with
  | none =>
    rw [min?_eq_none_iff, map_eq_nil_iff, range'_eq_nil_iff] at found
    omega
  | some least =>
    rw [smallest, found, Option.getD_some, le_min?_iff found]
    constructor
    · intro all k behind upto
      exact all _ (mem_map_of_mem (mem_range'_1.mpr (by omega)))
    · intro all _ member
      obtain ⟨k, inside, rfl⟩ := mem_map.mp member
      rw [mem_range'_1] at inside
      exact all k (by omega) (by omega)

theorem smallest_comm (i j : Nat) : smallest levels i j = smallest levels j i := by
  rw [smallest, smallest, min_comm, max_comm]

theorem smallest_le {k : Nat} (behind : min i j ≤ k) (upto : k ≤ max i j) :
    smallest levels i j ≤ levelAt levels k :=
  le_smallest_iff.mp (Nat.le_refl _) k behind upto

/-- Positions keep their order across one that no pass has moved. -/
theorem precedes_of_low {k : Nat} (behind : min i j ≤ k) (upto : k ≤ max i j)
    (low : levelAt levels k < level) : Precedes levels level i j ↔ i < j := by
  have least := @smallest_le levels i j k behind upto
  rw [Precedes]
  omega

section Pass

variable {order done run rest : List Nat} {one : Nat} (all : order.Perm (range levels.length))
  (ordered : order.Pairwise (Precedes levels (level + 1)))

include all ordered

/-- A lower position lies on one side of a run, in the line as in the order. -/
theorem run_joined (isOrder : order = done ++ (run.reverse ++ one :: rest))
    (runs : ∀ k ∈ one :: run, level ≤ levelAt levels k) (inRun : i ∈ run) :
    level ≤ smallest levels one i := by
  have inside : ∀ k ∈ order, k < levels.length := fun k => by simp [all.mem_iff]
  have isOne := inside one (by simp [isOrder])
  have isRun := inside i (by simp [isOrder, inRun])
  rw [isOrder, pairwise_append, pairwise_append, pairwise_cons] at ordered
  obtain ⟨-, ⟨-, ⟨behind, -⟩, back⟩, front⟩ := ordered
  rw [le_smallest_iff]
  intro k least most
  by_contra lower
  have low : levelAt levels k < level + 1 := by omega
  have member : k ∈ order := all.mem_iff.mpr (mem_range.mpr (by omega))
  rw [isOrder, mem_append, mem_append, mem_reverse] at member
  rcases member with early | isHeld | late
  · have left := (precedes_of_low (by omega) (by omega) low).mp
      (front k early i (by simp [inRun]))
    have right := (precedes_of_low (by omega) (by omega) low).mp (front k early one (by simp))
    omega
  · exact lower (runs k (mem_cons_of_mem _ isHeld))
  · have left := (precedes_of_low (by omega) (by omega) low).mp
      (back i (mem_reverse.mpr inRun) k late)
    rcases mem_cons.mp late with rfl | late
    · exact lower (runs k mem_cons_self)
    · have right := (precedes_of_low (by omega) (by omega) low).mp (behind k late)
      omega

/-- A pass turns round the pairs with no lower level between them.  The run and the rest stand
behind `done` in an order right for the passes before. -/
theorem reverseRuns_ordered (isOrder : order = done ++ (run.reverse ++ rest))
    (runs : ∀ k ∈ run, level ≤ levelAt levels k) (turned : run.Pairwise (Precedes levels level)) :
    (reverseRuns (level ≤ levelAt levels ·) run rest).Pairwise (Precedes levels level) := by
  induction rest generalizing done run with
  | nil => exact turned
  | cons one rest ih =>
    have facts := ordered
    rw [isOrder, pairwise_append, pairwise_append, pairwise_cons] at facts
    obtain ⟨-, ⟨-, ⟨behind, -⟩, back⟩, -⟩ := facts
    rw [reverseRuns]
    split
    next held =>
      have runs : ∀ k ∈ one :: run, level ≤ levelAt levels k :=
        forall_mem_cons.mpr ⟨of_decide_eq_true held, runs⟩
      refine @ih done (one :: run) (by simp [isOrder]) runs
        (pairwise_cons.mpr ⟨fun i inRun => ?_, turned⟩)
      have before := back i (mem_reverse.mpr inRun) one mem_cons_self
      have joined := run_joined all ordered isOrder runs inRun
      rw [Precedes, smallest_comm] at before
      rw [Precedes]
      omega
    next loose =>
      have low := Nat.lt_of_not_le (of_decide_eq_false (Bool.eq_false_iff.mpr loose))
      have early : ∀ i ∈ run, i < one := fun i inRun =>
        (precedes_of_low (by omega) (by omega) (Nat.lt_succ_of_lt low)).mp
          (back i (mem_reverse.mpr inRun) one mem_cons_self)
      have late : ∀ j ∈ reverseRuns (level ≤ levelAt levels ·) [] rest, one < j := fun j member =>
        (precedes_of_low (by omega) (by omega) (Nat.lt_succ_of_lt low)).mp
          (behind j ((reverseRuns_perm _ [] rest).mem_iff.mp member))
      rw [pairwise_append, pairwise_cons]
      refine ⟨turned, ⟨?_, @ih (done ++ (run.reverse ++ [one])) [] (by simp [isOrder]) (by simp)
        .nil⟩, ?_⟩
      · intro j member
        exact (precedes_of_low (by omega) (by omega) low).mpr (late j member)
      · intro i inRun j member
        have earlier := early i inRun
        have later : one ≤ j := (mem_cons.mp member).elim (·.ge) fun member => (late j member).le
        exact (precedes_of_low (by omega) (by omega) low).mpr (by omega)

end Pass

/-- The lowest odd level from a level on. -/
theorem lowest_odd (lowest : Nat) :
    (lowest ||| 1) % 2 = 1 ∧ lowest ≤ lowest ||| 1 ∧ lowest ||| 1 ≤ lowest + 1 := by
  have odd : (lowest ||| 1) % 2 = 1 := Nat.or_mod_two_eq_one.mpr (.inr rfl)
  have half : (lowest ||| 1) / 2 = lowest / 2 := by rw [Nat.or_div_two, Nat.or_zero]
  omega

/-- The run lemma: the passes leave every pair turned round once for each of them. -/
theorem passes_ordered
    {lowest : Nat}
    {order : List Nat}
    (all : order.Perm (range levels.length))
    (ordered : order.Pairwise (Precedes levels (level + 1)))
    (above : lowest ||| 1 ≤ level + 1) :
    (passes levels lowest level order).Perm (range levels.length) ∧
      (passes levels lowest level order).Pairwise (Precedes levels (lowest ||| 1)) := by
  induction level generalizing order with
  | zero =>
    rw [show lowest ||| 1 = 0 + 1 by have := lowest_odd lowest; omega]
    exact ⟨all, ordered⟩
  | succ level ih =>
    rw [passes]
    split
    next more =>
      exact ih ((reverseRuns_perm _ [] order).trans all)
        (reverseRuns_ordered all ordered (nil_append _).symm (by simp) .nil) more
    next done =>
      rw [show lowest ||| 1 = level + 1 + 1 by omega]
      exact ⟨all, ordered⟩

/-- A line's levels lie between its lowest and its highest. -/
theorem levelAt_bounds {highest lowest : Nat} (isHighest : levels.max? = some highest)
    (isLowest : levels.min? = some lowest) (inside : i < levels.length) :
    lowest ≤ levelAt levels i ∧ levelAt levels i ≤ highest := by
  have member : levels.getD i 0 ∈ levels := by
    rw [getD_eq_getElem _ _ inside]
    exact getElem_mem inside
  exact ⟨(le_min?_iff isLowest).mp (le_refl _) _ member,
    (max?_le_iff isHighest).mp (le_refl _) _ member⟩

end Levels

/-- Every line that is not too long is laid out, and of two positions the earlier one is
displayed to the left exactly when the smallest level from one to the other is even. -/
theorem visual_order_closed_form (order : List Nat) (sized : order.length = levels.length) :
    (none ≤ levels.length → visualOrder levels order = .error (.tooLong levels.length)) ∧
    (levels.length < none → ∃ shown, visualOrder levels order = .ok shown ∧
      shown.Perm (range levels.length) ∧
      ∀ i j, i < j → j < levels.length →
        (shown.idxOf i < shown.idxOf j ↔ smallest levels i j % 2 = 0)) := by
  refine ⟨fun long => if_pos long, fun short => ?_⟩
  rw [visualOrder, if_neg (Nat.not_le_of_lt short), if_neg (not_not.mpr sized)]
  rcases isHighest : levels.max? with _ | highest
  · rw [max?_eq_none_iff] at isHighest
    subst isHighest
    exact ⟨[], rfl, .refl _, fun i j _ inside => absurd inside (Nat.not_lt_zero j)⟩
  rcases isLowest : levels.min? with _ | lowest
  · rw [min?_eq_none_iff] at isLowest
    subst isLowest
    cases isHighest
  have bounds := fun i => @levelAt_bounds levels i highest lowest isHighest isLowest
  have start : (range levels.length).Pairwise (Precedes levels (highest + 1)) := by
    refine pairwise_lt_range.imp_of_mem fun {i j} isFirst _ earlier => ?_
    have below := (bounds i (mem_range.mp isFirst)).2
    exact (precedes_of_low (by omega) (by omega) (Nat.lt_succ_of_le below)).mpr earlier
  have odd := lowest_odd lowest
  have ends := (max?_le_iff isHighest).mp (Nat.le_refl _) lowest (min?_mem isLowest)
  obtain ⟨all, ordered⟩ := @passes_ordered _ _ lowest _ (.refl _) start (by omega)
  refine ⟨_, rfl, all, fun i j earlier inside => ?_⟩
  generalize passes levels lowest highest (range levels.length) = shown at *
  have places : ∀ k, k < levels.length → shown.idxOf k < shown.length := fun k inside =>
    idxOf_lt_length_iff.mpr (all.mem_iff.mpr (mem_range.mpr inside))
  have left : ∀ i j, i < levels.length → j < levels.length → shown.idxOf i < shown.idxOf j →
      Precedes levels (lowest ||| 1) i j := by
    intro i j isFirst isSecond before
    have pair := pairwise_iff_getElem.mp ordered _ _ (places i isFirst) (places j isSecond) before
    rwa [getElem_idxOf, getElem_idxOf] at pair
  have least : lowest ≤ smallest levels i j :=
    le_smallest_iff.mpr fun k _ _ => (bounds k (by omega)).1
  rcases Nat.lt_trichotomy (shown.idxOf i) (shown.idxOf j) with before | equal | after
  · have pair := (left i j (by omega) inside before).2
    omega
  · rw [idxOf_inj (all.mem_iff.mpr (mem_range.mpr (earlier.trans inside)))] at equal
    omega
  · have pair := (left j i inside (by omega) after).2
    rw [smallest_comm] at pair
    omega

theorem visual_order_closed_form_three : ∃ shown, visualOrder [1, 2, 0] [0, 0, 0] = .ok shown ∧
    shown.Perm (range 3) ∧ ∀ i j, i < j → j < 3 →
      (shown.idxOf i < shown.idxOf j ↔ smallest [1, 2, 0] i j % 2 = 0) :=
  (visual_order_closed_form [1, 2, 0] [0, 0, 0] rfl).2 (by decide)

end FSystem.Text.Bidi
