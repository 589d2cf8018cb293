import FSystem.Library.Hierarchy
import Mathlib.Data.Set.Card

/-!
# Touring an ordered forest

The nodes at or under the nodes of a list in pre-order, each with its depth.  A tour goes
down to a first child, else sideways to the next sibling, else up; it carries no stack, and
visits the nodes under its root in pre-order within two steps a node.
-/

namespace FSystem

open List

variable {α : Type*}

/-- What stands right behind an element of a list. -/
def following [DecidableEq α] (element : α) : List α → Option α
  | [] => none
  | first :: rest => if first = element then rest.head? else following element rest

theorem mem_of_following [DecidableEq α] {element next : α} {elements : List α}
    (isNext : following element elements = some next) : next ∈ elements := by
  induction elements with
  | nil => cases isNext
  | cons first rest ih =>
    rw [following] at isNext
    split at isNext
    · exact mem_cons_of_mem _ (mem_of_mem_head? isNext)
    · exact mem_cons_of_mem _ (ih isNext)

variable {rest : List α}

theorem following_of_suffix
    [DecidableEq α]
    {element : α}
    {elements : List α}
    (suffix : element :: rest <:+ elements)
    (nodup : elements.Nodup) :
    following element elements = rest.head? := by
  induction elements with
  | nil => cases List.suffix_nil.mp suffix
  | cons first others ih =>
    obtain ⟨fresh, nodup⟩ := List.nodup_cons.mp nodup
    rcases List.suffix_cons_iff.mp suffix with whole | later
    · cases whole
      exact if_pos rfl
    · have different : first ≠ element :=
        fun same => fresh (same ▸ later.subset mem_cons_self)
      exact (if_neg different).trans (ih later nodup)

namespace Hierarchy

variable {forest : Hierarchy α} {depth : Nat} {nodes : List α} {out : List (α × Nat)}

/-- The nodes at or under the nodes of a list, in pre-order and with their depths. -/
inductive Visits (forest : Hierarchy α) : Nat → List α → List (α × Nat) → Prop
  | nil {depth : Nat} : Visits forest depth [] []
  | cons {depth : Nat} {node : α} {rest : List α} {under later : List (α × Nat)}
      (below : Visits forest (depth + 1) (forest.children (some node)) under)
      (after : Visits forest depth rest later) :
      Visits forest depth (node :: rest) ((node, depth) :: (under ++ later))

variable {node : α}

namespace Visits

/-- The nodes that are visited are those at or under the nodes of the list. -/
theorem mem_iff (visits : forest.Visits depth nodes out) (formed : forest.Formed) :
    node ∈ out.map Prod.fst ↔ ∃ top ∈ nodes, forest.Within top node := by
  induction visits with
  | nil => simp
  | cons below after under later =>
    rw [map_cons, map_append, mem_cons, mem_append, under, later]
    simp only [mem_cons, or_and_right, exists_or, exists_eq_left]
    rw [formed.within_iff_children, or_assoc]

/-- Nothing is visited twice where no node of the list hangs under another. -/
theorem nodup (visits : forest.Visits depth nodes out) (formed : forest.Formed)
    (held : ∀ node ∈ nodes, forest.Holds node)
    (apart : nodes.Pairwise fun first second =>
      ¬forest.Within first second ∧ ¬forest.Within second first) :
    (out.map Prod.fst).Nodup := by
  induction visits with
  | nil => exact nodup_nil
  | @cons depth node rest under later below after nodupUnder nodupLater =>
    obtain ⟨fromRest, apartRest⟩ := List.pairwise_cons.mp apart
    have holds := held node mem_cons_self
    have isChild : ∀ {child}, child ∈ forest.children (some node) ↔ forest.Child node child :=
      formed.mem_children _ _
    have heldChildren : ∀ child ∈ forest.children (some node), forest.Holds child :=
      fun child member => holds_of_parent (isChild.mp member)
    have heldRest : ∀ other ∈ rest, forest.Holds other :=
      fun other member => held other (mem_cons_of_mem _ member)
    rw [map_cons, map_append]
    refine List.nodup_cons.mpr ⟨fun again => ?_, List.nodup_append.mpr
      ⟨nodupUnder heldChildren (formed.children_apart _), nodupLater heldRest apartRest, ?_⟩⟩
    · rw [mem_append, below.mem_iff formed, after.mem_iff formed] at again
      rcases again with ⟨child, member, within⟩ | ⟨other, member, within⟩
      · exact formed.not_within_parent (isChild.mp member) within
      · exact (fromRest other member).2 within
    · rintro one inUnder other inLater rfl
      rw [below.mem_iff formed] at inUnder
      rw [after.mem_iff formed] at inLater
      obtain ⟨child, member, underChild⟩ := inUnder
      obtain ⟨top, inRest, underTop⟩ := inLater
      -- One of the two tops would hang under the other.
      have underNode := (Within.refl.step (isChild.mp member)).trans underChild
      have heldOne := underNode.holds holds
      rcases Hierarchy.within_total underNode underTop with upper | lower
      · exact (fromRest top inRest).1 upper
      · exact (fromRest top inRest).2 lower

theorem append {later : List (α × Nat)} (first : forest.Visits depth nodes out)
    (second : forest.Visits depth rest later) :
    forest.Visits depth (nodes ++ rest) (out ++ later) := by
  induction first with
  | nil => exact second
  | cons below after _ ih =>
    rw [cons_append, cons_append, append_assoc]
    exact .cons below (ih second)

/-- What is visited in a list can be visited one by one. -/
theorem of_forall (each : ∀ node ∈ nodes, ∃ out, forest.Visits depth [node] out) :
    ∃ out, forest.Visits depth nodes out := by
  induction nodes with
  | nil => exact ⟨[], .nil⟩
  | cons node rest ih =>
    obtain ⟨first, visitsFirst⟩ := each node mem_cons_self
    obtain ⟨later, visitsLater⟩ := ih fun other member => each other (mem_cons_of_mem _ member)
    exact ⟨first ++ later, visitsFirst.append visitsLater⟩

/-- In a forest of finitely many nodes everything under a node can be visited. -/
theorem exists_of_holds (formed : forest.Formed) (finite : {node | forest.Holds node}.Finite)
    (holds : forest.Holds node) (depth : Nat) : ∃ out, forest.Visits depth [node] out := by
  -- By induction on how many nodes are at or under the node.
  induction size : {other | forest.Within node other}.ncard using Nat.strong_induction_on
    generalizing node depth with
  | _ size ih =>
    have inside : {other | forest.Within node other} ⊆ {other | forest.Holds other} :=
      fun other within => within.holds holds
    obtain ⟨under, below⟩ : ∃ under,
        forest.Visits (depth + 1) (forest.children (some node)) under := by
      refine of_forall fun child member => ?_
      have isChild : forest.Child node child := (formed.mem_children _ _).mp member
      refine ih _ ?_ (holds_of_parent isChild) (depth + 1) rfl
      rw [← size]
      refine Set.ncard_lt_ncard ⟨?_, fun all => ?_⟩ (finite.subset inside)
      · exact fun other within => (Within.refl.step isChild).trans within
      · have itself : forest.Within node node := .refl
        exact formed.not_within_parent isChild (all itself)
    exact ⟨_, .cons below .nil⟩

end Visits

section Touring

variable [DecidableEq α]

/-- Where a tour is: about to visit a node, or done with what is under it. -/
inductive Spot (α : Type*)
  | visit (node : α) (depth : Nat)
  | climb (node : α) (depth : Nat)

/-- A tour under a root: down to a first child, else to the next sibling, else up. -/
def tour (first next up : α → Option α) (root : α) :
    Nat → Spot α → List (α × Nat) → Option (List (α × Nat))
  | 0, _, _ => none
  | fuel + 1, .visit node depth, out =>
    match first node with
    | some child => tour first next up root fuel (.visit child (depth + 1)) (out ++ [(node, depth)])
    | none => tour first next up root fuel (.climb node depth) (out ++ [(node, depth)])
  | fuel + 1, .climb node depth, out =>
    if node = root then some out
    else
      match next node with
      | some sibling => tour first next up root fuel (.visit sibling depth) out
      | none =>
        match up node with
        | some parent => tour first next up root fuel (.climb parent (depth - 1)) out
        | none => some out

/-- The directions lead a tour through the forest. -/
structure Guides (forest : Hierarchy α) (first next up : α → Option α) : Prop where
  first : ∀ node, forest.Holds node → first node = (forest.children (some node)).head?
  next : ∀ {node place}, forest.parent node = some place →
    next node = following node (forest.children place)
  up : ∀ {node place}, forest.parent node = some place → up node = place

variable {first next up : α → Option α} {root : α}

/-- A tour of the last nodes of a place visits them and theirs, and climbs. -/
theorem Guides.tour_children
    (guides : forest.Guides first next up)
    (formed : forest.Formed)
    (visits : forest.Visits (depth + 1) nodes out)
    {parent : α}
    (isCons : nodes = node :: rest)
    (suffix : nodes <:+ forest.children (some parent))
    (underRoot : forest.Within root parent)
    (fuel : Nat)
    (seen : List (α × Nat)) :
    tour first next up root (fuel + 2 * out.length) (.visit node (depth + 1)) seen =
      tour first next up root fuel (.climb parent depth) (seen ++ out) := by
  obtain ⟨deeper, isDeeper⟩ : ∃ deeper, deeper = depth + 1 := ⟨_, rfl⟩
  rw [← isDeeper] at visits
  induction visits generalizing depth parent node rest fuel seen with
  | nil => cases isCons
  | @cons _ here others under later below after belowHypothesis afterHypothesis =>
    cases isCons
    subst isDeeper
    have isChild : forest.parent here = some (some parent) :=
      (formed.mem_children _ _).mp (suffix.subset mem_cons_self)
    have withinRoot : forest.Within root here := underRoot.step isChild
    have notRoot : here ≠ root := by
      rintro rfl
      exact formed.not_within_parent isChild underRoot
    -- The visit of the node and of what is under it.
    have down : tour first next up root
        (fuel + 2 * ((here, depth + 1) :: (under ++ later)).length) (.visit here (depth + 1)) seen =
        tour first next up root (fuel + 2 * later.length + 1) (.climb here (depth + 1))
          (seen ++ (here, depth + 1) :: under) := by
      have budget : fuel + 2 * ((here, depth + 1) :: (under ++ later)).length =
          fuel + 2 * later.length + 1 + 2 * under.length + 1 := by
        simp only [length_cons, length_append]
        omega
      rw [budget, tour, guides.first here (holds_of_parent isChild)]
      cases children : forest.children (some here) with
      | nil =>
        rw [children] at below
        cases below
        rfl
      | cons child more =>
        dsimp only [head?_cons]
        rw [belowHypothesis children (by rw [children]) withinRoot _ _ rfl, append_assoc]
        rfl
    rw [down, tour, if_neg notRoot, guides.next isChild,
      following_of_suffix suffix (formed.nodup _)]
    cases others with
    | nil =>
      cases after
      rw [head?_nil, guides.up isChild]
      rw [append_nil]
      rfl
    | cons sibling more =>
      dsimp only [head?_cons]
      rw [afterHypothesis rfl ((suffix_cons _ _).trans suffix) underRoot _ _ rfl, append_assoc]
      rfl

variable {fuel : Nat}

/-- A tour visits what is under its root in pre-order, within two steps a node. -/
theorem Guides.tour_root
    (guides : forest.Guides first next up)
    (formed : forest.Formed)
    (holds : forest.Holds root)
    (visits : forest.Visits 0 [root] out)
    (enough : 2 * out.length ≤ fuel) :
    tour first next up root fuel (.visit root 0) [] = some out := by
  cases visits with
  | @cons _ _ _ under later below after =>
    cases after
    rw [append_nil] at enough ⊢
    obtain ⟨spare, rfl⟩ := Nat.exists_eq_add_of_le' enough
    have budget : spare + 2 * ((root, 0) :: under).length =
        spare + 1 + 2 * under.length + 1 := by
      simp only [length_cons]
      omega
    rw [budget, tour, guides.first root holds]
    have ends : ∀ (fuel : Nat) (out : List (α × Nat)),
        tour first next up root (fuel + 1) (.climb root 0) out = some out :=
      fun fuel out => if_pos rfl
    cases children : forest.children (some root) with
    | nil =>
      rw [children] at below
      cases below
      exact ends _ _
    | cons child others =>
      dsimp only [head?_cons]
      rw [guides.tour_children formed below children (suffix_refl _) .refl, ends]
      rfl

/-- A tour only adds to what it has visited. -/
theorem prefix_of_tour {spot : Spot α} {seen : List (α × Nat)}
    (ends : tour first next up root fuel spot seen = some out) :
    (match spot with
      | .visit node depth => seen ++ [(node, depth)]
      | .climb _ _ => seen) <+: out := by
  fun_induction tour first next up root fuel spot seen with
  | case1 => cases ends
  | case2 _ _ _ _ _ _ ih | case5 _ _ _ _ _ _ _ ih => exact (prefix_append _ _).trans (ih ends)
  | case3 _ _ _ _ _ ih | case6 _ _ _ _ _ _ _ _ ih => exact ih ends
  | case4 | case7 =>
    cases ends
    exact prefix_refl _

end Touring

end Hierarchy

end FSystem
