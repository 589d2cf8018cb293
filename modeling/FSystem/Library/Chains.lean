import Mathlib.Data.List.Basic

/-!
# Chains of links

Every cell may have a link to another one.  A chain is the list of cells met by following
links from a head to a cell without one.  It depends on the links of its own cells only, so
taking a cell out and putting one in rewrite one link and leave every other chain alone.
-/

namespace FSystem

open Function List

variable {α : Type*}

/-- Following links from a head one meets these cells, and then the end. -/
inductive Chain (next : α → Option α) : Option α → List α → Prop
  | nil : Chain next none []
  | cons {cell : α} {rest : List α} (tail : Chain next (next cell) rest) :
      Chain next (some cell) (cell :: rest)

/-- A list with an element put in front of another one, or at the end. -/
def insertBefore [DecidableEq α] (cell : α) (before : Option α) : List α → List α
  | [] => [cell]
  | head :: rest =>
    if before = some head then cell :: head :: rest
    else head :: insertBefore cell before rest

section Inserting

variable [DecidableEq α] {cell : α} {before : Option α}

theorem insertBefore_perm (cells : List α) :
    (insertBefore cell before cells).Perm (cell :: cells) := by
  induction cells with
  | nil => exact .refl _
  | cons head rest ih =>
    rw [insertBefore]
    by_cases here : before = some head
    · rw [if_pos here]
    · rw [if_neg here]
      exact (ih.cons head).trans (.swap cell head rest)

variable {cells : List α}

theorem mem_insertBefore {other : α} :
    other ∈ insertBefore cell before cells ↔ other = cell ∨ other ∈ cells :=
  (insertBefore_perm cells).mem_iff.trans mem_cons

theorem nodup_insertBefore (nodup : cells.Nodup) (fresh : cell ∉ cells) :
    (insertBefore cell before cells).Nodup :=
  (insertBefore_perm cells).nodup_iff.mpr (List.nodup_cons.mpr ⟨fresh, nodup⟩)

/-- Renaming the cells of a list commutes with putting one in. -/
theorem map_insertBefore
    {β : Type*}
    [DecidableEq β]
    (name : α → β)
    (cells : List α)
    (injective : ∀ one ∈ before, ∀ other ∈ cells, name one = name other → one = other) :
    (insertBefore cell before cells).map name =
      insertBefore (name cell) (before.map name) (cells.map name) := by
  induction cells with
  | nil => rfl
  | cons head rest ih =>
    have injectiveRest : ∀ one ∈ before, ∀ other ∈ rest, name one = name other → one = other :=
      fun one isBefore other member => injective one isBefore other (mem_cons_of_mem _ member)
    rw [insertBefore, map_cons, insertBefore]
    by_cases here : before = some head
    · rw [if_pos here, if_pos (by rw [here]; rfl)]
      rfl
    · rw [if_neg here, if_neg ?_, map_cons, ih injectiveRest]
      intro same
      obtain ⟨one, isBefore, sameName⟩ := Option.map_eq_some_iff.mp same
      rw [isBefore, injective one isBefore head mem_cons_self sameName] at here
      exact here rfl

end Inserting

namespace Chain

variable {next other : α → Option α} {head : Option α} {cells : List α}

/-- Links that agree at the cells of a chain make the same chain. -/
theorem congr (chain : Chain next head cells) (same : ∀ cell ∈ cells, other cell = next cell) :
    Chain other head cells := by
  induction chain with
  | nil => exact .nil
  | cons tail ih =>
    refine .cons ?_
    rw [same _ mem_cons_self]
    exact ih fun cell member => same cell (mem_cons_of_mem _ member)

theorem eq_nil (chain : Chain next none cells) : cells = [] := by
  cases chain
  rfl

variable {cell : α}

theorem eq_cons (chain : Chain next (some cell) cells) :
    ∃ rest, cells = cell :: rest ∧ Chain next (next cell) rest := by
  cases chain with
  | cons tail => exact ⟨_, rfl, tail⟩

theorem head_eq (chain : Chain next head cells) : head = cells.head? := by
  cases chain with
  | nil | cons tail => rfl

/-- What a cell of a chain links to is in the chain. -/
theorem next_mem {linked : α} (chain : Chain next head cells) (member : cell ∈ cells)
    (link : next cell = some linked) : linked ∈ cells := by
  induction chain with
  | nil => exact absurd member not_mem_nil
  | cons tail ih =>
    rcases mem_cons.mp member with rfl | later
    · rw [link] at tail
      obtain ⟨_, rfl, _⟩ := tail.eq_cons
      exact mem_cons_of_mem _ mem_cons_self
    · exact mem_cons_of_mem _ (ih later)

/-- No cell of a chain without repetitions links back to its head. -/
theorem next_ne_head (chain : Chain next head cells) (nodup : cells.Nodup) (member : cell ∈ cells) :
    next cell ≠ head := by
  intro back
  cases chain with
  | nil => exact absurd member not_mem_nil
  | @cons first rest tail =>
    obtain ⟨fresh, -⟩ := List.nodup_cons.mp nodup
    rcases mem_cons.mp member with rfl | later
    · rw [back] at tail
      obtain ⟨_, rfl, _⟩ := tail.eq_cons
      exact fresh mem_cons_self
    · exact fresh (tail.next_mem later back)

section Surgery

variable [DecidableEq α]

/-- A link rewritten at a cell that is not in a chain leaves the chain alone. -/
theorem update_of_notMem (chain : Chain next head cells) (outside : cell ∉ cells) (link : Option α)
    : Chain (update next cell link) head cells := by
  refine chain.congr fun one member => update_of_ne ?_ _ _
  rintro rfl
  exact outside member

/-- Leading the link to a cell past it takes the cell out of a chain. -/
theorem erase
    {previous : α}
    (chain : Chain next head cells)
    (nodup : cells.Nodup)
    (member : previous ∈ cells)
    (link : next previous = some cell) :
    Chain (update next previous (next cell)) head (cells.erase cell) := by
  induction chain with
  | nil => exact absurd member not_mem_nil
  | @cons first rest tail ih =>
    obtain ⟨fresh, nodup⟩ := List.nodup_cons.mp nodup
    by_cases here : first = previous
    · subst here
      rw [link] at tail
      obtain ⟨later, isRest, short⟩ := tail.eq_cons
      rw [isRest] at fresh ⊢
      have different : first ≠ cell := fun same => fresh (same ▸ mem_cons_self)
      rw [erase_cons_tail (by simpa using different), erase_cons_head]
      refine .cons ?_
      rw [update_self]
      exact short.update_of_notMem (fun inside => fresh (mem_cons_of_mem _ inside)) _
    · have inRest := (mem_cons.mp member).resolve_left (Ne.symm here)
      have different : first ≠ cell := fun same => fresh (same ▸ tail.next_mem inRest link)
      rw [erase_cons_tail (by simpa using different)]
      refine .cons ?_
      rw [update_of_ne here]
      exact ih nodup inRest

/-- Leading the link of a cell to a new one, and the new one's to where it led, puts the new
one in front of what the cell was linked to. -/
theorem insert
    {previous : α}
    {before : Option α}
    (chain : Chain next head cells)
    (nodup : cells.Nodup)
    (fresh : cell ∉ cells)
    (member : previous ∈ cells)
    (link : next previous = before) :
    Chain (update (update next cell before) previous (some cell)) head
      (insertBefore cell before cells) := by
  induction chain with
  | nil => exact absurd member not_mem_nil
  | @cons first rest tail ih =>
    have notFirst : ¬before = some first := fun isFirst =>
      (Chain.cons tail).next_ne_head nodup member (link.trans isFirst)
    obtain ⟨firstFresh, nodup⟩ := List.nodup_cons.mp nodup
    have cellNotFirst : cell ≠ first := fun same => fresh (same ▸ mem_cons_self)
    have cellNotRest : cell ∉ rest := fun inside => fresh (mem_cons_of_mem _ inside)
    rw [insertBefore, if_neg notFirst]
    refine .cons ?_
    by_cases here : first = previous
    · subst here
      rw [link] at tail
      rw [update_self]
      have inserted : insertBefore cell before rest = cell :: rest := by
        cases tail with
        | nil => rfl
        | cons later => exact if_pos rfl
      rw [inserted]
      refine .cons ?_
      rw [update_of_ne cellNotFirst, update_self]
      exact (tail.update_of_notMem cellNotRest _).update_of_notMem firstFresh _
    · have inRest := (mem_cons.mp member).resolve_left (Ne.symm here)
      rw [update_of_ne here, update_of_ne cellNotFirst.symm]
      exact ih nodup cellNotRest inRest

end Surgery

end Chain

end FSystem
