import Mathlib.Data.List.Basic
import Mathlib.Logic.Function.Basic

/-!
# Linked lists in a memory

Nodes are numbers other than zero, and every node has a link to another one.  Zero is the
end of a list.  A list read off the links depends on the links of its own nodes only.
-/

namespace FSystem

/-- Following the links from a head one meets these nodes, and then the end. -/
inductive Linked (next : Nat → Nat) : Nat → List Nat → Prop
  | nil : Linked next 0 []
  | cons {head : Nat} {rest : List Nat} (nonzero : head ≠ 0)
      (tail : Linked next (next head) rest) : Linked next head (head :: rest)

namespace Linked

variable {next other : Nat → Nat} {head : Nat} {nodes : List Nat}

theorem eq_nil (linked : Linked next 0 nodes) : nodes = [] := by
  cases linked with
  | nil => rfl
  | cons nonzero tail => exact absurd rfl nonzero

theorem eq_cons (linked : Linked next head nodes) (nonzero : head ≠ 0) :
    ∃ rest, nodes = head :: rest ∧ Linked next (next head) rest := by
  cases linked with
  | nil => exact absurd rfl nonzero
  | cons _ tail => exact ⟨_, rfl, tail⟩

/-- Links that agree at the nodes of a list make the same list. -/
theorem congr (linked : Linked next head nodes) (same : ∀ node ∈ nodes, other node = next node) :
    Linked other head nodes := by
  induction linked with
  | nil => exact .nil
  | cons nonzero tail ih =>
    refine .cons nonzero ?_
    rw [same _ List.mem_cons_self]
    exact ih fun node member => same node (List.mem_cons_of_mem _ member)

/-- A list whose last link is still open, and what is linked behind it. -/
theorem extend
    {last : Nat}
    {rest : List Nat}
    (linked : Linked (Function.update next last 0) head (nodes ++ [last]))
    (same : ∀ node ∈ nodes, node ≠ last ∧ other node = next node)
    (behind : Linked other (other last) rest) : Linked other head (nodes ++ last :: rest) := by
  induction nodes generalizing head with
  | nil =>
    cases linked with
    | cons nonzero => exact .cons nonzero behind
  | cons first nodes ih =>
    cases linked with
    | cons nonzero tail =>
      obtain ⟨notLast, agrees⟩ := same first List.mem_cons_self
      rw [Function.update_of_ne notLast, ← agrees] at tail
      exact .cons nonzero (ih tail fun node member => same node (List.mem_cons_of_mem _ member))

end Linked

/-- Several heads, and the nodes of their lists one list after another. -/
inductive LinkedAll (next : Nat → Nat) : List Nat → List Nat → Prop
  | nil : LinkedAll next [] []
  | cons {head : Nat} {nodes heads rest : List Nat} (first : Linked next head nodes)
      (others : LinkedAll next heads rest) : LinkedAll next (head :: heads) (nodes ++ rest)

namespace LinkedAll

variable {next other : Nat → Nat} {heads nodes : List Nat}

/-- A list depends on its own links alone. -/
theorem congr (linked : LinkedAll next heads nodes)
    (same : ∀ node ∈ nodes, other node = next node) :
    LinkedAll other heads nodes := by
  induction linked with
  | nil => exact .nil
  | cons first others ih =>
    refine .cons (first.congr ?_) (ih ?_)
    · exact fun node member => same node (List.mem_append_left _ member)
    · exact fun node member => same node (List.mem_append_right _ member)

theorem zero_cons : LinkedAll next (0 :: heads) nodes ↔ LinkedAll next heads nodes := by
  constructor
  · rintro (_ | ⟨first, others⟩)
    rw [first.eq_nil]
    exact others
  · exact .cons .nil

/-- The heads in another order. -/
theorem perm {others : List Nat} (linked : LinkedAll next heads nodes)
    (same : heads.Perm others) : ∃ spread, LinkedAll next others spread ∧ spread.Perm nodes := by
  induction same generalizing nodes with
  | nil => exact ⟨nodes, linked, .refl _⟩
  | cons head _ ih =>
    obtain _ | ⟨first, rest⟩ := linked
    obtain ⟨spread, linked, perm⟩ := ih rest
    exact ⟨_, .cons first linked, perm.append_left _⟩
  | swap one other heads =>
    obtain _ | ⟨first, _ | ⟨second, linked⟩⟩ := linked
    exact ⟨_, .cons second (.cons first linked), List.perm_append_comm_assoc _ _ _⟩
  | trans _ _ ih ihNext =>
    obtain ⟨middle, linked, perm⟩ := ih linked
    obtain ⟨spread, linked, permNext⟩ := ihNext linked
    exact ⟨spread, linked, permNext.trans perm⟩

theorem replicate_zero (count : Nat) : LinkedAll next (List.replicate count 0) [] := by
  induction count with
  | zero => exact .nil
  | succ count ih => exact .cons .nil ih

end LinkedAll

end FSystem
