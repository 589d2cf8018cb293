import Mathlib.Order.CompletePartialOrder
import Mathlib.Order.Interval.Set.Disjoint
import Mathlib.Order.Nat

/-!
# Regions that are spent once

Ranges of addresses, held by accounts and handed out piece by piece.  What accounts
hold and what was handed out stay pairwise disjoint when a piece is split off an
account, when an account shrinks or goes away, and when a region that is apart from
all of them is granted.
-/

namespace FSystem

/-- A range of addresses. -/
structure Region where
  base : Nat
  size : Nat
  deriving DecidableEq

namespace Region

variable (region : Region)

/-- The addresses of a region. -/
def bytes : Set Nat := Set.Ico region.base (region.base + region.size)

/-- Two regions share no address. -/
def Apart (region other : Region) : Prop := Disjoint region.bytes other.bytes

/-- Every address of one region is in another. -/
def Within (region other : Region) : Prop := region.bytes ⊆ other.bytes

theorem Within.refl : region.Within region := Set.Subset.refl _

theorem Within.trans {inner middle outer : Region} (first : inner.Within middle)
    (second : middle.Within outer) : inner.Within outer :=
  Set.Subset.trans first second

theorem Apart.symm {region other : Region} (apart : region.Apart other) : other.Apart region :=
  Disjoint.symm apart

theorem Apart.mono {inner outer small large : Region} (apart : outer.Apart large)
    (first : inner.Within outer) (second : small.Within large) : inner.Apart small :=
  Set.disjoint_of_subset first second apart

/-- The first bytes of a region. -/
def front (size : Nat) : Region := ⟨region.base, size⟩

/-- A region without its first bytes. -/
def rest (size : Nat) : Region := ⟨region.base + size, region.size - size⟩

variable {region : Region} {size : Nat}

theorem front_within (fits : size ≤ region.size) : (region.front size).Within region :=
  Set.Ico_subset_Ico_right (Nat.add_le_add_left fits _)

theorem rest_within (fits : size ≤ region.size) : (region.rest size).Within region := by
  apply Set.Ico_subset_Ico (Nat.le_add_right _ _)
  simp only [rest]
  omega

theorem front_apart_rest (size : Nat) : (region.front size).Apart (region.rest size) :=
  Set.Ico_disjoint_Ico_same

end Region

/-! ## Accounts -/

/-- What accounts hold and what was handed out share no address. -/
structure Exclusive {ι : Type*} (held : ι → Option Region) (spent : List Region) : Prop where
  holders : ∀ first second region other, first ≠ second → held first = some region →
    held second = some other → region.Apart other
  unspent : ∀ holder region, held holder = some region → ∀ piece ∈ spent, region.Apart piece
  once : spent.Pairwise Region.Apart

namespace Exclusive

variable {ι : Type*} {held after : ι → Option Region} {spent : List Region}

theorem empty (nothing : ∀ holder, held holder = none) : Exclusive held [] where
  holders first _ region _ _ found := by
    rw [nothing first] at found
    cases found
  unspent _ _ _ _ member := absurd member List.not_mem_nil
  once := .nil

variable (exclusive : Exclusive held spent)

include exclusive

/-- Accounts may shrink or go away. -/
theorem shrink
    (smaller : ∀ holder region, after holder = some region →
      ∃ whole, held holder = some whole ∧ region.Within whole) : Exclusive after spent where
  holders first second region other different found there := by
    obtain ⟨whole, before, inside⟩ := smaller first region found
    obtain ⟨large, earlier, within⟩ := smaller second other there
    exact (exclusive.holders first second whole large different before earlier).mono inside within
  unspent holder region found piece member := by
    obtain ⟨whole, before, inside⟩ := smaller holder region found
    exact (exclusive.unspent holder whole before piece member).mono inside (.refl piece)
  once := exclusive.once

/-- An account may hand out its first bytes. -/
theorem spend
    {payer : ι}
    {whole : Region}
    {size : Nat}
    (holds : held payer = some whole)
    (fits : size ≤ whole.size)
    (left : after payer = some (whole.rest size))
    (others : ∀ holder, holder ≠ payer → after holder = held holder) :
    Exclusive after (whole.front size :: spent) := by
  have after_of : ∀ holder region, after holder = some region →
      holder = payer ∧ whole.rest size = region ∨ holder ≠ payer ∧ held holder = some region := by
    intro holder region found
    by_cases own : holder = payer
    · exact .inl ⟨own, Option.some.inj (left.symm.trans (own ▸ found))⟩
    · exact .inr ⟨own, others holder own ▸ found⟩
  have shrunk := exclusive.shrink fun holder region found => by
    rcases after_of holder region found with ⟨rfl, rfl⟩ | ⟨-, found⟩
    · exact ⟨whole, holds, Region.rest_within fits⟩
    · exact ⟨region, found, .refl region⟩
  refine ⟨shrunk.holders, fun holder region found piece member => ?_, ?_⟩
  · rcases List.mem_cons.1 member with rfl | member
    · rcases after_of holder region found with ⟨rfl, rfl⟩ | ⟨own, found⟩
      · exact (whole.front_apart_rest size).symm
      · exact (exclusive.holders holder payer region whole own found holds).mono
          (.refl region) (Region.front_within fits)
    · exact shrunk.unspent holder region found piece member
  · refine List.pairwise_cons.2 ⟨fun piece member => ?_, exclusive.once⟩
    exact (exclusive.unspent payer whole holds piece member).mono
      (Region.front_within fits) (.refl piece)

/-- A region that is apart from everything may be granted to a new account. -/
theorem grant
    {payer : ι}
    {region : Region}
    (fromHeld : ∀ holder other, held holder = some other → region.Apart other)
    (fromSpent : ∀ piece ∈ spent, region.Apart piece)
    (granted : after payer = some region)
    (others : ∀ holder, holder ≠ payer → after holder = held holder) : Exclusive after spent := by
  refine ⟨fun first second one other different found there => ?_,
    fun holder one found piece member => ?_, exclusive.once⟩
  · by_cases own : first = payer
    · subst own
      rw [granted] at found
      obtain rfl := Option.some.inj found
      rw [others second (Ne.symm different)] at there
      exact fromHeld second other there
    · rw [others first own] at found
      by_cases last : second = payer
      · subst last
        rw [granted] at there
        obtain rfl := Option.some.inj there
        exact (fromHeld first one found).symm
      · rw [others second last] at there
        exact exclusive.holders first second one other different found there
  · by_cases own : holder = payer
    · subst own
      rw [granted] at found
      obtain rfl := Option.some.inj found
      exact fromSpent piece member
    · rw [others holder own] at found
      exact exclusive.unspent holder one found piece member

end Exclusive

end FSystem
