import FSystem.Scene.ArenaInvariant
import FSystem.Library.Preorder

/-!
# What is seen of the scene arena

The questions the arena answers about a node (is it there, what is it, where does it hang, what
hangs under it) are answered as the picture it holds says.
-/

namespace FSystem.Scene.Arena

variable {arena : Arena} {picture : Picture} {forest : Hierarchy SlotIx} {unused : List SlotIx}
  {node : UInt32} {ix : SlotIx}

section Siblings

variable {cells : List SlotIx} {cursor : Option SlotIx}

section

variable (chain : Chain arena.nexts cursor cells) (held : ∀ one ∈ cells, (arena.held one).isSome)

include chain held

/-- The first of a list of siblings, and where the others are. -/
theorem childrenNext_eq :
    (arena.childrenNext cursor).1 = (cells.map arena.nodeAt).head? ∧
      Chain arena.nexts (arena.childrenNext cursor).2 cells.tail := by
  cases chain with
  | nil => exact ⟨rfl, .nil⟩
  | @cons first rest tail =>
    refine ⟨?_, tail⟩
    obtain ⟨created, isHeld⟩ := Option.isSome_iff_exists.mp (held first List.mem_cons_self)
    have inSlot : (arena.slots first).held = some created := isHeld
    rw [childrenNext, List.map_cons, List.head?_cons, nodeAt_of_held isHeld]
    rw [inSlot]
    rfl

/-- Looking along a list of siblings finds what stands behind a node. -/
theorem siblingAfter_eq {fuel : Nat} (enough : cells.length ≤ fuel) :
    arena.siblingAfter node fuel cursor = some (following node (cells.map arena.nodeAt)) := by
  induction cells generalizing cursor fuel with
  | nil =>
    cases chain
    rw [siblingAfter]
    rfl
  | cons first rest ih =>
    obtain ⟨isFirst, chainRest⟩ := childrenNext_eq chain held
    have heldRest : ∀ one ∈ rest, (arena.held one).isSome :=
      fun one member => held one (List.mem_cons_of_mem _ member)
    rw [siblingAfter]
    rcases answer : arena.childrenNext cursor with ⟨one, later⟩
    rw [answer] at isFirst chainRest
    have isOne : one = some (arena.nodeAt first) := isFirst
    subst isOne
    change Chain arena.nexts later rest at chainRest
    rw [List.map_cons, following]
    dsimp only
    by_cases same : arena.nodeAt first = node
    · rw [if_pos same, if_pos same, (childrenNext_eq chainRest heldRest).1]
    · rw [if_neg same, if_neg same]
      cases fuel with
      | zero => cases enough
      | succ fuel => exact ih chainRest heldRest (Nat.le_of_succ_le_succ enough)

end

end Siblings

namespace Pictures

variable (pictures : arena.Pictures picture forest unused)

include pictures

theorem holds_eq_true : arena.holds node = true ↔ picture.forest.Holds node := by
  rw [pictures.holds_iff, holds, Option.isSome_iff_exists]

/-- The kind is the picture's. -/
theorem kindOf_eq : arena.kindOf node = picture.kind node := by
  rw [kindOf]
  cases found : arena.find node with
  | none => exact (pictures.absent (pictures.find_eq_none.mp found)).1.symm
  | some ix => exact (pictures.kind_of_find found).symm

/-- The kind of a node is known exactly if it is there. -/
theorem kind_isSome : (picture.kind node).isSome ↔ picture.forest.Holds node := by
  constructor
  · intro isSome
    by_contra absent
    rw [(pictures.absent absent).1] at isSome
    cases isSome
  · intro holds
    obtain ⟨ix, found⟩ := pictures.holds_iff.mp holds
    obtain ⟨created, isHeld, rfl⟩ := held_of_find found
    rw [(pictures.shown isHeld).1]
    rfl

theorem parentOf_of_not_holds (absent : ¬picture.forest.Holds node) :
    arena.parentOf node = .error (.noSuchNode node) := by
  rw [parentOf, pictures.find_eq_none.mpr absent]

/-- The parent is the picture's. -/
theorem parentOf_of_parent {place : Option UInt32}
    (hangs : picture.forest.parent node = some place) :
    arena.parentOf node = .ok (place.getD noNode) := by
  obtain ⟨ix, found⟩ := pictures.holds_iff.mp (Hierarchy.holds_of_parent hangs)
  rw [pictures.parent_of_find found] at hangs
  cases hangs
  rw [parentOf, found]
  dsimp only
  cases (arena.slots ix).parent with
  | none | some parent => rfl

/-- A node that is there is not the one that names none. -/
theorem ne_noNode (holds : picture.forest.Holds node) : node ≠ noNode := by
  rintro rfl
  exact pictures.not_holds_noNode holds

theorem above_ne_noNode {above : UInt32} (child : picture.forest.Child above node) :
    above ≠ noNode :=
  pictures.ne_noNode (pictures.formed.holds_above child)

/-- The roots are strung in order. -/
theorem roots_chain : ∃ cells, Chain arena.nexts arena.roots cells ∧
    (∀ one ∈ cells, (arena.held one).isSome) ∧ cells.length ≤ nodesMax ∧
    cells.map arena.nodeAt = picture.forest.children none := by
  have woven := pictures.well.woven
  refine ⟨forest.children none, woven.chains none, fun _ => woven.held_of_mem,
    woven.strung.length_le none, ?_⟩
  exact (pictures.renames.children none fun _ impossible => nomatch impossible).symm

/-- The children of a node are strung in order. -/
theorem children_chain (holds : picture.forest.Holds node) :
    ∃ cursor cells, arena.children node = .ok cursor ∧ Chain arena.nexts cursor cells ∧
      (∀ one ∈ cells, (arena.held one).isSome) ∧ cells.length ≤ nodesMax ∧
      cells.map arena.nodeAt = picture.forest.children (some node) := by
  have woven := pictures.well.woven
  obtain ⟨ix, found⟩ := pictures.holds_iff.mp holds
  obtain ⟨holdsIx, isNode⟩ := pictures.find_eq_some.mp found
  refine ⟨(arena.slots ix).firstChild, forest.children (some ix), ?_, woven.chains (some ix),
    fun _ => woven.held_of_mem, woven.strung.length_le _, ?_⟩
  · rw [children, found]
  · rw [← isNode]
    refine (pictures.renames.children (some ix) fun one isOne => ?_).symm
    cases isOne
    exact holdsIx

/-- There are at most as many nodes as slots. -/
theorem encard_nodes_le : picture.nodes.encard ≤ nodesMax := by
  rw [pictures.encard_nodes, Nat.cast_le]
  exact (Finset.card_le_univ _).trans_eq (Fintype.card_fin nodesMax)

theorem finite_nodes : picture.nodes.Finite :=
  Set.finite_of_encard_le_coe pictures.encard_nodes_le

/-- A list of different nodes is at most as long as there are slots. -/
theorem length_le {nodes : List UInt32} (nodup : nodes.Nodup)
    (held : ∀ one ∈ nodes, picture.forest.Holds one) : nodes.length ≤ nodesMax := by
  have inside : (↑nodes.toFinset : Set UInt32) ⊆ picture.nodes := by
    intro one member
    exact held one (List.mem_toFinset.mp member)
  have bound := (Set.encard_le_encard inside).trans pictures.encard_nodes_le
  rw [Set.encard_coe_eq_coe_finsetCard, List.toFinset_card_of_nodup nodup, Nat.cast_le] at bound
  exact bound

/-- The way up from a node is at most as long as there are slots. -/
theorem length_way_le {way : List UInt32} (path : picture.forest.Path node way) :
    way.length ≤ nodesMax := by
  refine pictures.length_le path.nodup fun one member => ?_
  obtain ⟨rest, pathRest, -⟩ := path.suffix_of_mem member
  exact pathRest.holds

end Pictures

end FSystem.Scene.Arena
