import Mathlib.Algebra.Ring.Nat
import Mathlib.Data.List.Sort

/-!
# Downgrades

A frame over its budget draws effects in their cheaper form, in one total order, until what
it is over by is saved.
-/

namespace FSystem.Scene.Degrade

open List

/-- What an effect declared, in hundredths of a microsecond. -/
structure Effect where
  node : Nat
  estimateUsX100 : Nat
  savingUsX100 : Nat
  node_lt : node < 2 ^ 32
  estimate_lt : estimateUsX100 < 2 ^ 32
  saves : 0 < savingUsX100
  within : savingUsX100 ≤ estimateUsX100

/-- What is drawn instead of an effect. -/
inductive Instead
  | skip
  | reduced

/-- What is drawn in an effect's place. -/
def Effect.instead (self : Effect) : Instead :=
  if self.estimateUsX100 - self.savingUsX100 = 0 then .skip else .reduced

/-- Which readings of a criterion go first. -/
inductive Sense
  | larger
  | smaller

/-- A reading as a number of which less is better. -/
def Sense.packed : Sense → Nat → Nat
  | larger, reading => 2 ^ 32 - 1 - reading
  | smaller, reading => reading

/-- What effects are compared by. -/
inductive Criterion
  | fidelity
  | saving
  | estimate
  | node

namespace Criterion

/-- The criteria as they are asked. -/
def order : List Criterion := [fidelity, saving, estimate, node]

/-- Which readings come first. -/
def sense : Criterion → Sense
  | fidelity | node => .smaller
  | saving | estimate => .larger

/-- An effect's reading. -/
def reading (effect : Effect) : Criterion → Nat
  | fidelity =>
    match effect.instead with
    | .reduced => 0
    | .skip => 1
  | saving => effect.savingUsX100
  | estimate => effect.estimateUsX100
  | node => effect.node

end Criterion

/-- The criteria packed at their full width, the first one highest. -/
def rank (effect : Effect) : Nat :=
  Criterion.order.foldl (fun bits criterion =>
    bits <<< 32 ||| criterion.sense.packed (criterion.reading effect)) 0

/-- The order effects are given up in. -/
def Before (one other : Effect) : Prop := rank one ≤ rank other

instance : DecidableRel Before := fun _ _ => inferInstanceAs (Decidable (_ ≤ _))

/-- The effects as they are downgraded. -/
def order (effects : List Effect) : List Effect := effects.insertionSort Before

/-- Whether what is given up suffices. -/
inductive Downgrades
  | covered (taken spareUsX100 : Nat)
  | short (shortByUsX100 : Nat)

/-- Downgrade one effect after another while anything is owed. -/
def settle (owed at_ : Nat) : List Effect → Downgrades
  | [] => .short owed
  | effect :: rest =>
    match owed - effect.savingUsX100 with
    | 0 => .covered (1 + at_) (effect.savingUsX100 - owed)
    | stillOwed + 1 => settle (stillOwed + 1) (at_ + 1) rest

/-- The effects in order, and what downgrading them answers to an overrun. -/
def downgrade (effects : List Effect) (overrun : Nat) : List Effect × Downgrades :=
  (order effects, settle overrun 0 (order effects))

variable {effects : List Effect} {owed overrun : Nat}

theorem node_eq_of_rank_eq {one other : Effect} (same : rank one = rank other) :
    one.node = other.node := by
  have last (effect : Effect) : rank effect % 2 ^ 32 = effect.node := by
    simp only [rank, Criterion.order, foldl_cons, foldl_nil, Nat.or_mod_two_pow]
    simpa [Nat.shiftLeft_eq, Criterion.sense, Sense.packed, Criterion.reading]
      using Nat.mod_eq_of_lt effect.node_lt
  rw [← last one, same, last other]

/-- The nodes settle every tie, so the order of arrival does not matter. -/
theorem order_eq_of_perm (distinct : (effects.map Effect.node).Nodup) {other : List Effect}
    (perm : other ~ effects) : order other = order effects := by
  have : Std.Total Before := ⟨fun _ _ => Nat.le_total ..⟩
  have : IsTrans Effect Before := ⟨fun _ _ _ => Nat.le_trans⟩
  refine Perm.eq_of_pairwise ?_ (pairwise_insertionSort Before other)
    (pairwise_insertionSort Before effects)
    (((perm_insertionSort ..).trans perm).trans (perm_insertionSort ..).symm)
  intro one two isOne isTwo le ge
  refine inj_on_of_nodup_map distinct (perm.subset ?_) ?_ (node_eq_of_rank_eq (le.antisymm ge))
  · exact (mem_insertionSort Before).1 isOne
  · exact (mem_insertionSort Before).1 isTwo

/-- What effects save together. -/
def saved (effects : List Effect) : Nat := (effects.map Effect.savingUsX100).sum

theorem saved_cons (effect : Effect) (effects : List Effect) :
    saved (effect :: effects) = effect.savingUsX100 + saved effects := by
  rw [saved, map_cons, sum_cons, saved]

/-- The loop answers with the first effects that cover what is owed, or what is still owed. -/
theorem settle_spec (owes : 0 < owed) (at_ : Nat) (effects : List Effect) :
    (∃ count spare, settle owed at_ effects = .covered (at_ + count + 1) spare ∧
        saved (effects.take count) < owed ∧ saved (effects.take (count + 1)) = owed + spare ∧
        owed ≤ saved effects) ∨
      ∃ short, settle owed at_ effects = .short short ∧ 0 < short ∧
        saved effects + short = owed := by
  induction effects generalizing owed at_ with
  | nil => exact .inr ⟨owed, rfl, owes, Nat.zero_add _⟩
  | cons effect rest ih =>
    rw [settle]
    simp only [take_succ_cons, saved_cons]
    split
    next covers =>
      refine .inl ⟨0, effect.savingUsX100 - owed, by rw [Nat.add_comm], owes, ?_, by omega⟩
      rw [take_zero, saved]
      simp
      omega
    next still left =>
      rcases ih (Nat.succ_pos still) (at_ + 1) with
        ⟨count, spare, answer, below, exact_, enough⟩ | ⟨short, answer, positive, exact_⟩
      · refine .inl ⟨count + 1, spare, ?_, ?_, ?_, by omega⟩
        · rw [answer, Nat.add_right_comm at_]
          rfl
        · rw [take_succ_cons, saved_cons]
          omega
        · omega
      · exact .inr ⟨short, answer, positive, by omega⟩

/-- Downgrades are the shortest beginning of one order that covers the overrun. -/
theorem downgrades_are_the_shortest_prefix
    (distinct : (effects.map Effect.node).Nodup)
    (positive : 0 < overrun) :
    (∀ other, other ~ effects → downgrade other overrun = downgrade effects overrun) ∧
      (∀ taken spare, (downgrade effects overrun).2 = .covered taken spare →
        saved ((order effects).take (taken - 1)) < overrun ∧
          saved ((order effects).take taken) = overrun + spare) ∧
      ∀ short, (downgrade effects overrun).2 = .short short ↔
        0 < short ∧ saved effects + short = overrun := by
  have total : saved (order effects) = saved effects :=
    ((perm_insertionSort Before effects).map _).sum_nat
  refine ⟨fun other perm => ?_, ?_⟩
  · rw [downgrade, downgrade, order_eq_of_perm distinct perm]
  rw [← total]
  rcases settle_spec positive 0 (order effects) with
    ⟨count, spare, answer, below, exact_, enough⟩ | ⟨left, answer, positive, exact_⟩
  · simp only [downgrade, answer]
    refine ⟨?_, fun short => ⟨nofun, by omega⟩⟩
    rintro _ _ ⟨⟩
    rw [Nat.zero_add]
    exact ⟨below, exact_⟩
  · simp only [downgrade, answer]
    refine ⟨nofun, fun short => ⟨?_, fun owed => congrArg _ (by omega)⟩⟩
    rintro ⟨⟩
    exact ⟨positive, exact_⟩

/-- Two effects handed over either way. -/
theorem downgrades_are_the_shortest_prefix_swapped :
    let dear : Effect := ⟨1, 40, 30, by decide, by decide, by decide, by decide⟩
    let cheap : Effect := ⟨2, 20, 20, by decide, by decide, by decide, by decide⟩
    downgrade [dear, cheap] 45 = downgrade [cheap, dear] 45 :=
  downgrades_are_the_shortest_prefix (by decide) (by decide) |>.1 _ (.swap ..)

end FSystem.Scene.Degrade
