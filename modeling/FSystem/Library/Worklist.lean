import Std.Data.TreeSet
import Mathlib.Algebra.Order.BigOperators.Group.List
import Mathlib.Algebra.Order.Ring.Nat

/-!
# Walking a graph with a work list

A node is visited once; visiting it names further nodes or is refused.  A walk
that finishes has seen exactly the nodes reachable from where it started; one
that is refused has met a reachable node whose visit is refused; and with fuel
for every edge it does one or the other.
-/

namespace FSystem.Worklist

open Std List

variable {Node : Type} [Ord Node]

/-- How a walk ends. -/
inductive Outcome (Node : Type) [Ord Node]
  | finished (seen : TreeSet Node)
  | refused (seen : TreeSet Node)
  | unfinished

/-- The nodes a walk visited, up to where it ended. -/
def Outcome.seen : Outcome Node → TreeSet Node
  | .finished seen | .refused seen => seen
  | .unfinished => ∅

/-- Walk the nodes of a work list, the first one first. -/
def walk (visit : Node → Option (List Node)) :
    Nat → TreeSet Node → List Node → Outcome Node
  | _, seen, [] => .finished seen
  | 0, _, _ :: _ => .unfinished
  | fuel + 1, seen, node :: rest =>
    if seen.contains node then walk visit fuel seen rest
    else
      match visit node with
      | none => .refused (seen.insert node)
      | some named => walk visit fuel (seen.insert node) (named.reverse ++ rest)

/-- One node names another. -/
def Names (visit : Node → Option (List Node)) (node other : Node) : Prop :=
  ∃ named, visit node = some named ∧ other ∈ named

/-- One node can be reached from another. -/
abbrev Reaches (visit : Node → Option (List Node)) : Node → Node → Prop :=
  Relation.ReflTransGen (Names visit)

variable [Std.TransOrd Node] [Std.LawfulEqOrd Node]
  {visit : Node → Option (List Node)}

theorem mem_insert (seen : TreeSet Node) (node other : Node) :
    other ∈ seen.insert node ↔ other = node ∨ other ∈ seen := by
  rw [TreeSet.mem_insert, Std.compare_eq_iff_eq, eq_comm]

/-- What was seen or is pending is reachable, and what a seen node names was seen or is pending. -/
structure Walking (visit : Node → Option (List Node)) (root : Node)
    (seen : TreeSet Node) (pending : List Node) : Prop where
  seenReachable : ∀ node ∈ seen, Reaches visit root node
  pendingReachable : ∀ node ∈ pending, Reaches visit root node
  rootMet : root ∈ seen ∨ root ∈ pending
  visited : ∀ node ∈ seen, ∃ named, visit node = some named ∧
    ∀ other ∈ named, other ∈ seen ∨ other ∈ pending

omit [Std.TransOrd Node] [Std.LawfulEqOrd Node] in
theorem Walking.start (root : Node) : Walking visit root ∅ [root] where
  seenReachable := by simp
  pendingReachable := by
    intro node member
    rw [List.mem_singleton.mp member]
  rootMet := .inr mem_cons_self
  visited := by simp

variable {seen : TreeSet Node} {node root : Node} {rest : List Node}

omit [Std.TransOrd Node] [Std.LawfulEqOrd Node] in
theorem Walking.skip (walking : Walking visit root seen (node :: rest)) (again : node ∈ seen) :
    Walking visit root seen rest := by
  have still : ∀ other, other ∈ seen ∨ other ∈ node :: rest → other ∈ seen ∨ other ∈ rest := by
    intro other held
    rw [mem_cons] at held
    rcases held with met | rfl | later
    exacts [.inl met, .inl again, .inr later]
  refine ⟨walking.seenReachable, ?_, still root walking.rootMet, ?_⟩
  · exact fun other member => walking.pendingReachable other (mem_cons_of_mem _ member)
  · intro other member
    obtain ⟨named, visits, covered⟩ := walking.visited other member
    exact ⟨named, visits, fun child inNamed => still child (covered child inNamed)⟩

/-- Visiting a node, with whatever list of pending nodes accounts for what it
names. -/
theorem Walking.advance
    {named next : List Node}
    (walking : Walking visit root seen (node :: rest))
    (visits : visit node = some named)
    (keeps : ∀ other ∈ rest, other ∈ next)
    (covers : ∀ other ∈ named, other ∈ seen.insert node ∨ other ∈ next)
    (only : ∀ other ∈ next, other ∈ named ∨ other ∈ rest) :
    Walking visit root (seen.insert node) next := by
  have reached := walking.pendingReachable node mem_cons_self
  have moved : ∀ other, other ∈ seen ∨ other ∈ node :: rest →
      other ∈ seen.insert node ∨ other ∈ next := by
    intro other covered
    rw [mem_cons] at covered
    rw [mem_insert]
    rcases covered with met | same | later
    exacts [.inl (.inr met), .inl (.inl same), .inr (keeps other later)]
  refine ⟨?_, ?_, moved root walking.rootMet, ?_⟩
  · intro other member
    rcases (mem_insert seen node other).mp member with same | met
    · exact same ▸ reached
    · exact walking.seenReachable other met
  · intro other member
    rcases only other member with child | pending
    · exact reached.tail ⟨named, visits, child⟩
    · exact walking.pendingReachable other (mem_cons_of_mem _ pending)
  · intro other member
    rcases (mem_insert seen node other).mp member with same | met
    · exact ⟨named, same ▸ visits, covers⟩
    · obtain ⟨others, otherVisits, covered⟩ := walking.visited other met
      exact ⟨others, otherVisits, fun child inNamed => moved child (covered child inNamed)⟩

omit [Std.TransOrd Node] [Std.LawfulEqOrd Node] in
/-- A finished walk has seen the nodes reachable from the root, and each of them
could be visited. -/
theorem Walking.finished (walking : Walking visit root seen []) :
    (∀ node, node ∈ seen ↔ Reaches visit root node) ∧
      ∀ node ∈ seen, ∃ named, visit node = some named := by
  refine ⟨fun node => ⟨walking.seenReachable node, ?_⟩,
    fun node member => (walking.visited node member).imp fun _ visits => visits.1⟩
  intro reached
  induction reached with
  | refl => exact walking.rootMet.resolve_right (by simp)
  | tail _ edge ih =>
    obtain ⟨named, visits, inNamed⟩ := edge
    obtain ⟨others, otherVisits, covered⟩ := walking.visited _ ih
    rw [visits] at otherVisits
    cases otherVisits
    exact (covered _ inNamed).resolve_right (by simp)

/-- What the outcome of a walk from a root says about the graph. -/
def Outcome.Sound (visit : Node → Option (List Node)) (root : Node) :
    Outcome Node → Prop
  | .finished seen =>
    (∀ node, node ∈ seen ↔ Reaches visit root node) ∧
      ∀ node ∈ seen, ∃ named, visit node = some named
  | .refused seen =>
    (∀ node ∈ seen, Reaches visit root node) ∧ ∃ node, Reaches visit root node ∧ visit node = none
  | .unfinished => True

/-- What a walk answers is right. -/
theorem walk_sound (fuel : Nat) {pending : List Node} (walking : Walking visit root seen pending) :
    (walk visit fuel seen pending).Sound visit root := by
  fun_induction walk visit fuel seen pending with
  | case1 => exact walking.finished
  | case2 => trivial
  | case3 fuel seen node rest again ih => exact ih (walking.skip again)
  | case4 fuel seen node rest again visits =>
    have reached := walking.pendingReachable node mem_cons_self
    refine ⟨?_, node, reached, visits⟩
    intro other member
    rcases (mem_insert seen node other).mp member with same | met
    · exact same ▸ reached
    · exact walking.seenReachable other met
  | case5 fuel seen node rest again named visits ih =>
    refine ih (walking.advance visits ?_ ?_ ?_)
    · exact fun other member => mem_append_right _ member
    · exact fun other member => .inr (mem_append_left _ (List.mem_reverse.mpr member))
    · exact fun other member => (List.mem_append.mp member).imp_left List.mem_reverse.mp

omit [Std.TransOrd Node] [Std.LawfulEqOrd Node] in
/-- A walk visits only what is reachable. -/
theorem Outcome.Sound.reachable {outcome : Outcome Node} (sound : outcome.Sound visit root)
    (member : node ∈ outcome.seen) : Reaches visit root node := by
  cases outcome with
  | finished seen => exact (sound.1 node).mp member
  | refused seen => exact sound.1 node member
  | unfinished => exact absurd member TreeSet.not_mem_emptyc

section Fuel

variable (visit) (nodes : List Node)

/-- The edges out of the nodes of a list that were not seen yet. -/
def edgesLeft (visit : Node → Option (List Node)) (nodes : List Node)
    (seen : TreeSet Node) : Nat :=
  ((nodes.filter fun node => !seen.contains node).map fun node => ((visit node).getD []).length).sum

theorem contains_insert (seen : TreeSet Node) (node other : Node) :
    (seen.insert node).contains other = true ↔ other = node ∨ seen.contains other = true :=
  mem_insert seen node other

/-- Seeing more leaves fewer edges. -/
theorem edgesLeft_insert_le (seen : TreeSet Node) (node : Node) :
    edgesLeft visit nodes (seen.insert node) ≤ edgesLeft visit nodes seen := by
  apply List.Sublist.sum_le_sum
  · apply List.Sublist.map
    apply monotone_filter_right
    intro other unseen
    simp only [Bool.not_eq_true', Bool.eq_false_iff] at unseen ⊢
    intro seenBefore
    exact unseen ((contains_insert seen node other).mpr (.inr seenBefore))
  · intro count _
    exact Nat.zero_le count

/-- Seeing a node takes its edges off the count. -/
theorem edgesLeft_insert {seen : TreeSet Node} (fresh : seen.contains node = false)
    (member : node ∈ nodes) :
    edgesLeft visit nodes (seen.insert node) + ((visit node).getD []).length ≤
      edgesLeft visit nodes seen := by
  induction nodes with
  | nil => cases member
  | cons first rest ih =>
    by_cases same : first = node
    · subst same
      have seenNow : (seen.insert first).contains first = true :=
        (contains_insert seen first first).mpr (.inl rfl)
      have fewer := edgesLeft_insert_le visit rest seen first
      simp only [edgesLeft, filter_cons, seenNow, fresh, Bool.not_true, Bool.not_false, if_true,
        Bool.false_eq_true, if_false, map_cons, sum_cons] at fewer ⊢
      omega
    · have later := (mem_cons.mp member).resolve_left (Ne.symm same)
      have fewer := ih later
      have unchanged : (seen.insert node).contains first = seen.contains first := by
        rw [Bool.eq_iff_iff, contains_insert]
        simp [same]
      simp only [edgesLeft, filter_cons, unchanged] at fewer ⊢
      split
      · simp only [map_cons, sum_cons]
        omega
      · exact fewer

/-- With fuel for every pending node and every edge left, a walk ends. -/
theorem walk_ends
    (listed : ∀ node named, visit node = some named → named ≠ [] → node ∈ nodes)
    (fuel : Nat)
    (seen : TreeSet Node)
    (pending : List Node)
    (enough : pending.length + edgesLeft visit nodes seen ≤ fuel) :
    walk visit fuel seen pending ≠ .unfinished := by
  fun_induction walk visit fuel seen pending with
  | case1 => simp
  | case2 seen node rest => simp at enough
  | case3 fuel seen node rest again ih =>
    rw [length_cons] at enough
    exact ih (by omega)
  | case4 => simp
  | case5 fuel seen node rest again named visits ih =>
    apply ih
    rw [length_cons] at enough
    simp only [length_append, length_reverse]
    by_cases leaf : named = []
    · have := edgesLeft_insert_le visit nodes seen node
      simp only [leaf, length_nil]
      omega
    · have := edgesLeft_insert visit nodes
        (Bool.eq_false_iff.mpr again) (listed node named visits leaf)
      simp only [visits, Option.getD_some] at this
      omega

end Fuel

end FSystem.Worklist
