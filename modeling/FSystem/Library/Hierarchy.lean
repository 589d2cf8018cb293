import FSystem.Library.Chains
import Mathlib.Logic.Relation
import Mathlib.Data.List.Nodup

/-!
# Ordered forests

Nodes that hang at the top or under one another, each place with its nodes in order.  A
forest is formed if every node stands exactly once in the list of its place, and the way up
from every node ends.  Hanging a node somewhere that is not under it, and pruning a node with
everything under it, keep a forest formed.
-/

namespace FSystem

open List

/-- Where each node hangs, if it is there, and the nodes of each place in order; `none` is the
top. -/
@[ext] structure Hierarchy (α : Type*) where
  parent : α → Option (Option α)
  children : Option α → List α

namespace Hierarchy

variable {α : Type*} {forest : Hierarchy α} {node other top : α} {place : Option α}

/-- The node is in the forest. -/
def Holds (forest : Hierarchy α) (node : α) : Prop := (forest.parent node).isSome

/-- One node hangs right under another. -/
def Child (forest : Hierarchy α) (above node : α) : Prop :=
  forest.parent node = some (some above)

/-- A node hangs at or under another. -/
def Within (forest : Hierarchy α) (top node : α) : Prop :=
  Relation.ReflTransGen forest.Child top node

/-- The way up from a node to the top, the node itself first. -/
inductive Path (forest : Hierarchy α) : α → List α → Prop
  | root {node : α} (atTop : forest.parent node = some none) : Path forest node [node]
  | step {node above : α} {way : List α} (under : forest.parent node = some (some above))
      (rest : Path forest above way) : Path forest node (node :: way)

/-- Every node stands exactly once in the list of its place, and every way up ends. -/
structure Formed (forest : Hierarchy α) : Prop where
  nodup : ∀ place, (forest.children place).Nodup
  mem_children : ∀ place node, node ∈ forest.children place ↔ forest.parent node = some place
  path : ∀ node, forest.Holds node → ∃ way, forest.Path node way

theorem holds_of_parent (hangs : forest.parent node = some place) : forest.Holds node := by
  rw [Holds, hangs]
  rfl

theorem Holds.exists_parent (holds : forest.Holds node) :
    ∃ place, forest.parent node = some place :=
  Option.isSome_iff_exists.mp holds

variable {above : α} {key : Option α} {way : List α}

namespace Path

variable {way : List α}

section

variable (path : forest.Path node way)

include path

theorem holds : forest.Holds node := by
  cases path with
  | root atTop => exact holds_of_parent atTop
  | step under _ => exact holds_of_parent under

/-- The way up from a child goes on from what it hangs under. -/
theorem of_child (child : forest.Child above node) :
    ∃ rest, way = node :: rest ∧ forest.Path above rest := by
  cases path with
  | root atTop => cases atTop.symm.trans child
  | step under rest =>
    cases under.symm.trans child
    exact ⟨_, rfl, rest⟩

theorem unique {way' : List α} (also : forest.Path node way') : way = way' := by
  induction path generalizing way' with
  | root atTop =>
    cases also with
    | root => rfl
    | step under _ => cases atTop.symm.trans under
  | step under _ ih =>
    obtain ⟨rest, rfl, alsoRest⟩ := also.of_child under
    rw [ih alsoRest]

/-- From every node on a way up, the way goes on. -/
theorem suffix_of_mem (member : other ∈ way) : ∃ rest, forest.Path other rest ∧ rest <:+ way := by
  induction path with
  | root atTop =>
    rw [List.mem_singleton.mp member]
    exact ⟨_, .root atTop, suffix_refl _⟩
  | @step below above way under rest ih =>
    rcases List.mem_cons.mp member with rfl | later
    · exact ⟨_, .step under rest, suffix_refl _⟩
    · obtain ⟨tail, pathTail, isSuffix⟩ := ih later
      exact ⟨tail, pathTail, isSuffix.trans (suffix_cons _ _)⟩

theorem mem_self : node ∈ way := by
  cases path with
  | root | step => exact mem_cons_self

/-- A way up ends at the top. -/
theorem exists_root : ∃ root ∈ way, forest.parent root = some none := by
  induction path with
  | root atTop => exact ⟨_, mem_cons_self, atTop⟩
  | step _ _ ih =>
    obtain ⟨root, member, atTop⟩ := ih
    exact ⟨root, mem_cons_of_mem _ member, atTop⟩

/-- No way up meets a node twice. -/
theorem nodup : way.Nodup := by
  induction path with
  | root => exact nodup_singleton _
  | @step below above way under rest ih =>
    refine List.nodup_cons.mpr ⟨fun again => ?_, ih⟩
    obtain ⟨tail, pathTail, isSuffix⟩ := rest.suffix_of_mem again
    have same := pathTail.unique (.step under rest)
    have shorter := isSuffix.length_le
    rw [same, length_cons] at shorter
    omega

/-- The nodes on the way up are those the node hangs at or under. -/
theorem mem_iff : other ∈ way ↔ forest.Within other node := by
  constructor
  · intro member
    induction path with
    | root =>
      rw [List.mem_singleton.mp member]
      exact .refl
    | step under rest ih =>
      rcases List.mem_cons.mp member with rfl | later
      · exact .refl
      · exact (ih later).tail under
  · intro within
    induction within generalizing way with
    | refl => exact path.mem_self
    | tail _ child ih =>
      obtain ⟨rest, rfl, upper⟩ := path.of_child child
      exact mem_cons_of_mem _ (ih upper)

end

end Path

section Within

theorem Within.refl : forest.Within node node := Relation.ReflTransGen.refl

theorem Within.trans {bottom : α} (upper : forest.Within top node)
    (lower : forest.Within node bottom) : forest.Within top bottom :=
  Relation.ReflTransGen.trans upper lower

theorem Within.step (within : forest.Within top node) (child : forest.Child node other) :
    forest.Within top other :=
  Relation.ReflTransGen.tail within child

theorem within_of_parent (hangs : forest.parent node = some place) :
    ∀ above ∈ place, forest.Within above node := by
  rintro above rfl
  exact Within.refl.step hangs

/-- What hangs at or under a node other than itself hangs at or under its parent. -/
theorem Within.parent (within : forest.Within top node) (different : top ≠ node) :
    ∃ above, forest.Child above node ∧ forest.Within top above := by
  rcases Relation.ReflTransGen.cases_tail within with same | ⟨above, upper, child⟩
  · exact absurd same.symm different
  · exact ⟨above, child, upper⟩

/-- What hangs under a node hangs at or under one of its children. -/
theorem Within.child (within : forest.Within top node) (different : top ≠ node) :
    ∃ below, forest.Child top below ∧ forest.Within below node := by
  rcases Relation.ReflTransGen.cases_head within with same | ⟨below, child, lower⟩
  · exact absurd same different
  · exact ⟨below, child, lower⟩

theorem Within.holds (within : forest.Within top node) (holds : forest.Holds top) :
    forest.Holds node := by
  by_cases same : top = node
  · exact same ▸ holds
  · obtain ⟨above, child, -⟩ := within.parent same
    exact holds_of_parent child

/-- Two nodes above one node are above one another. -/
theorem within_total {first second : α} (left : forest.Within first node)
    (right : forest.Within second node) :
    forest.Within first second ∨ forest.Within second first := by
  have unique : Relator.RightUnique (Function.swap forest.Child) :=
    fun _ _ _ one two => Option.some.inj (Option.some.inj (one.symm.trans two))
  have total := (left.swap _ _).total_of_right_unique unique (right.swap _ _)
  exact total.symm.imp (fun upper => upper.swap _ _) fun upper => upper.swap _ _

namespace Formed

variable (formed : forest.Formed)

include formed

theorem holds_above (child : forest.Child above node) : forest.Holds above := by
  obtain ⟨way, path⟩ := formed.path node (holds_of_parent child)
  obtain ⟨rest, -, upper⟩ := path.of_child child
  exact upper.holds

theorem holds_of_within (within : forest.Within top node) (holds : forest.Holds node) :
    forest.Holds top := by
  obtain ⟨way, path⟩ := formed.path node holds
  obtain ⟨rest, pathRest, -⟩ := path.suffix_of_mem (path.mem_iff.mpr within)
  exact pathRest.holds

theorem children_of_not_holds (absent : ¬forest.Holds node) : forest.children (some node) = [] := by
  refine List.eq_nil_iff_forall_not_mem.mpr fun child member => absent ?_
  exact formed.holds_above ((formed.mem_children _ _).mp member)

/-- A child is not above its parent. -/
theorem not_within_parent (child : forest.Child above node) : ¬forest.Within node above := by
  intro within
  obtain ⟨way, path⟩ := formed.path node (holds_of_parent child)
  obtain ⟨rest, rfl, upper⟩ := path.of_child child
  -- The node would be on the way up from its own parent.
  exact (List.nodup_cons.mp path.nodup).1 (upper.mem_iff.mpr within)

/-- No child of a place hangs under another one. -/
theorem not_within_sibling {first second : α} (atFirst : forest.parent first = some place)
    (atSecond : forest.parent second = some place) (different : first ≠ second) :
    ¬forest.Within first second := by
  intro within
  obtain ⟨above, child, upper⟩ := within.parent different
  rw [Child, atSecond] at child
  cases child
  exact formed.not_within_parent atFirst upper

/-- No two nodes of a place hang under one another. -/
theorem children_apart (place : Option α) :
    (forest.children place).Pairwise fun first second =>
      ¬forest.Within first second ∧ ¬forest.Within second first := by
  refine (formed.nodup place).imp_of_mem ?_
  intro first second isFirst isSecond different
  have atFirst := (formed.mem_children _ _).mp isFirst
  have atSecond := (formed.mem_children _ _).mp isSecond
  exact ⟨formed.not_within_sibling atFirst atSecond different,
    formed.not_within_sibling atSecond atFirst different.symm⟩

/-- At or under a node are the node and what is at or under its children. -/
theorem within_iff_children (node : α) :
    forest.Within node other ↔
      other = node ∨ ∃ below ∈ forest.children (some node), forest.Within below other := by
  constructor
  · intro within
    by_cases same : node = other
    · exact .inl same.symm
    · obtain ⟨below, child, lower⟩ := within.child same
      exact .inr ⟨below, (formed.mem_children _ _).mpr child, lower⟩
  · rintro (rfl | ⟨below, member, lower⟩)
    · exact .refl
    · exact (Within.refl.step ((formed.mem_children _ _).mp member)).trans lower

end Formed

end Within

section Hanging

variable [DecidableEq α] {before : Option α}

/-- Hang a node at a place, in front of another or last; it moves with what is under it. -/
def hang (forest : Hierarchy α) (node : α) (place before : Option α) : Hierarchy α where
  parent := Function.update forest.parent node (some place)
  children key :=
    if key = place then insertBefore node before ((forest.children key).erase node)
    else (forest.children key).erase node

@[simp] theorem hang_parent_self : (forest.hang node place before).parent node = some place :=
  Function.update_self ..

theorem hang_parent_of_ne (different : other ≠ node) :
    (forest.hang node place before).parent other = forest.parent other :=
  Function.update_of_ne different ..

/-- Hanging adds the node alone. -/
theorem holds_hang :
    (forest.hang node place before).Holds other ↔ other = node ∨ forest.Holds other := by
  by_cases same : other = node
  · rw [Holds, same, hang_parent_self]
    simp
  · rw [Holds, hang_parent_of_ne same]
    simp [same, Holds]

section

variable (formed : forest.Formed)

include formed

theorem Formed.mem_children_hang (key : Option α) :
    other ∈ (forest.hang node place before).children key ↔
      (forest.hang node place before).parent other = some key := by
  by_cases same : other = node
  · subst same
    rw [hang_parent_self, hang]
    by_cases here : key = place
    · simp [here, mem_insertBefore]
    · simp [here, Ne.symm here, (formed.nodup key).mem_erase_iff]
  · rw [hang_parent_of_ne same, ← formed.mem_children, hang]
    by_cases here : key = place
    · simp [here, mem_insertBefore, same]
    · simp [here, same]

theorem Formed.nodup_children_hang (key : Option α) :
    ((forest.hang node place before).children key).Nodup := by
  have nodup := (formed.nodup key).erase node
  rw [hang]
  by_cases here : key = place
  · simp only [here, if_true] at nodup ⊢
    exact nodup_insertBefore nodup (by simp [(formed.nodup place).mem_erase_iff])
  · simp only [here, if_false]
    exact nodup

omit formed in
/-- A way up that does not meet a node is not changed by hanging the node elsewhere. -/
theorem Path.hang (path : forest.Path other way) (off : node ∉ way) :
    (forest.hang node place before).Path other way := by
  induction path with
  | root atTop =>
    have different := (ne_of_not_mem_cons off).symm
    exact .root ((hang_parent_of_ne different).trans atTop)
  | step under rest ih =>
    have different := (ne_of_not_mem_cons off).symm
    refine .step ((hang_parent_of_ne different).trans under) (ih ?_)
    exact not_mem_of_not_mem_cons off

/-- The way up from a node that was hung somewhere that is not under it. -/
theorem Formed.path_hang_self (before : Option α)
    (off : ∀ above ∈ place, forest.Holds above ∧ ¬forest.Within node above) :
    ∃ way, (forest.hang node place before).Path node way := by
  cases place with
  | none => exact ⟨_, .root hang_parent_self⟩
  | some above =>
    obtain ⟨holds, apart⟩ := off above rfl
    obtain ⟨way, path⟩ := formed.path above holds
    have away : node ∉ way := fun member => apart (path.mem_iff.mp member)
    exact ⟨_, .step hang_parent_self (path.hang away)⟩

omit formed in
/-- Where the node that is hung has a way up, so has every node that had one. -/
theorem Path.exists_hang {own : List α} (path : forest.Path other way)
    (pathOwn : (forest.hang node place before).Path node own) :
    ∃ way, (forest.hang node place before).Path other way := by
  induction path with
  | @root other atTop =>
    by_cases same : other = node
    · rw [same]
      exact ⟨own, pathOwn⟩
    · exact ⟨_, .root ((hang_parent_of_ne same).trans atTop)⟩
  | @step other above way under _ ih =>
    by_cases same : other = node
    · rw [same]
      exact ⟨own, pathOwn⟩
    · obtain ⟨rest, pathRest⟩ := ih
      exact ⟨_, .step ((hang_parent_of_ne same).trans under) pathRest⟩

/-- Hanging a node somewhere that is not under it keeps a forest formed. -/
theorem Formed.hang (before : Option α)
    (off : ∀ above ∈ place, forest.Holds above ∧ ¬forest.Within node above) :
    (forest.hang node place before).Formed where
  nodup := formed.nodup_children_hang
  mem_children key _ := formed.mem_children_hang key
  path := by
    obtain ⟨own, pathOwn⟩ := formed.path_hang_self before off
    intro other holds
    rcases holds_hang.mp holds with same | held
    · rw [same]
      exact ⟨own, pathOwn⟩
    · obtain ⟨way, path⟩ := formed.path other held
      exact path.exists_hang pathOwn

/-- What is not at or under a node stays when the node is hung elsewhere. -/
theorem Formed.within_hang (holds : forest.Holds other) (apart : ¬forest.Within node other) :
    (forest.hang node place before).Within top other ↔ forest.Within top other := by
  obtain ⟨way, path⟩ := formed.path other holds
  have off : node ∉ way := fun member => apart (path.mem_iff.mp member)
  have hung : (forest.hang node place before).Path other way := path.hang off
  rw [← path.mem_iff, ← hung.mem_iff]

/-- What is under a node stays under it when it is hung elsewhere. -/
theorem Formed.within_hang_below (within : forest.Within node other) :
    (forest.hang node place before).Within node other := by
  induction within with
  | refl => exact .refl
  | @tail above below upper child ih =>
    have different : below ≠ node := by
      rintro rfl
      exact formed.not_within_parent child upper
    exact ih.step ((hang_parent_of_ne different).trans child)

end

/-- Where a node hangs, and how many nodes stand in front of it there. -/
def position (forest : Hierarchy α) (node : α) : Option (Option α × Nat) :=
  (forest.parent node).map fun place => (place, (forest.children place).idxOf node)

theorem position_congr {forest' : Hierarchy α} (hangs : forest.parent node = some key)
    (hangs' : forest'.parent node = some key)
    (children : forest'.children key = forest.children key) :
    forest'.position node = forest.position node := by
  rw [position, position, hangs, hangs', Option.map_some, Option.map_some, children]

theorem position_isSome : (forest.position node).isSome ↔ forest.Holds node := by
  rw [position, Option.isSome_map, Holds]

/-- Hanging a node shifts only what hangs where it comes to hang or hung before. -/
theorem Formed.position_hang
    (formed : forest.Formed)
    (different : other ≠ node)
    (hangs : forest.parent other = some key)
    (notFilled : key ≠ place)
    (notLeft : forest.parent node ≠ some key) :
    (forest.hang node place before).position other = forest.position other := by
  refine position_congr hangs ((hang_parent_of_ne different).trans hangs) ?_
  rw [Hierarchy.hang]
  dsimp only
  rw [if_neg notFilled]
  exact erase_of_not_mem fun member => notLeft ((formed.mem_children _ _).mp member)

end Hanging

section Pruning

open Classical in
/-- The forest without a node and everything under it. -/
noncomputable def prune (forest : Hierarchy α) (node : α) : Hierarchy α where
  parent other := if forest.Within node other then none else forest.parent other
  children key := (forest.children key).filter fun other => ¬forest.Within node other

theorem prune_parent_of_within (within : forest.Within node other) :
    (forest.prune node).parent other = none :=
  if_pos within

theorem prune_parent_of_not_within (apart : ¬forest.Within node other) :
    (forest.prune node).parent other = forest.parent other :=
  if_neg apart

/-- Pruning takes the subtree alone. -/
theorem holds_prune :
    (forest.prune node).Holds other ↔ forest.Holds other ∧ ¬forest.Within node other := by
  by_cases within : forest.Within node other
  · rw [Holds, prune_parent_of_within within]
    simp [within]
  · rw [Holds, prune_parent_of_not_within within]
    simp [within, Holds]

theorem mem_children_prune :
    other ∈ (forest.prune node).children key ↔
      other ∈ forest.children key ∧ ¬forest.Within node other := by
  simp [prune]

/-- A way up whose first node is not pruned is not changed. -/
theorem Path.prune (path : forest.Path other way) (apart : ¬forest.Within node other) :
    (forest.prune node).Path other way := by
  induction path with
  | root atTop => exact .root ((prune_parent_of_not_within apart).trans atTop)
  | step under rest ih =>
    refine .step ((prune_parent_of_not_within apart).trans under) (ih ?_)
    exact fun within => apart (within.step under)

/-- Pruning keeps a forest formed. -/
theorem Formed.prune (formed : forest.Formed) (node : α) : (forest.prune node).Formed where
  nodup key := (formed.nodup key).filter _
  mem_children key other := by
    rw [mem_children_prune, formed.mem_children]
    by_cases within : forest.Within node other
    · simp [prune_parent_of_within within, within]
    · simp [prune_parent_of_not_within within, within]
  path other holds := by
    obtain ⟨held, apart⟩ := holds_prune.mp holds
    obtain ⟨way, path⟩ := formed.path other held
    exact ⟨way, path.prune apart⟩

theorem Formed.within_prune (formed : forest.Formed) (holds : forest.Holds other)
    (apart : ¬forest.Within node other) :
    (forest.prune node).Within top other ↔ forest.Within top other := by
  obtain ⟨way, path⟩ := formed.path other holds
  rw [← path.mem_iff, ← (path.prune apart).mem_iff]

/-- Pruning a node shifts only what hangs where it hung. -/
theorem Formed.position_prune
    [DecidableEq α]
    (formed : forest.Formed)
    (apart : ¬forest.Within node other)
    (hangs : forest.parent other = some key)
    (notLeft : forest.parent node ≠ some key) :
    (forest.prune node).position other = forest.position other := by
  refine position_congr hangs ((prune_parent_of_not_within apart).trans hangs) ?_
  classical
  refine List.filter_eq_self.mpr fun sibling member => ?_
  rw [decide_eq_true_eq]
  intro within
  have beside : forest.parent sibling = some key := (formed.mem_children _ _).mp member
  have different : node ≠ sibling := by
    rintro rfl
    exact notLeft beside
  obtain ⟨above, child, upper⟩ := within.parent different
  rw [Child, beside] at child
  cases child
  exact apart (upper.step hangs)

end Pruning

/-- One forest is another with its nodes renamed. -/
structure Renames {β : Type*} (name : α → β) (forest : Hierarchy α) (image : Hierarchy β) :
    Prop where
  injective : ∀ {one other}, forest.Holds one → forest.Holds other → name one = name other →
    one = other
  holds : ∀ label, image.Holds label ↔ ∃ one, forest.Holds one ∧ name one = label
  parent : ∀ one, forest.Holds one →
    image.parent (name one) = (forest.parent one).map (Option.map name)
  children : ∀ place, (∀ one ∈ place, forest.Holds one) →
    image.children (place.map name) = (forest.children place).map name

section Renaming

variable {β : Type*} {name rename : α → β} {image : Hierarchy β} {before : Option α}

/-- Places that are held and have one name are one. -/
theorem place_injective
    {place place' : Option α}
    (injective : ∀ {one other}, forest.Holds one → forest.Holds other → name one = name other →
      one = other)
    (held : ∀ one ∈ place, forest.Holds one)
    (held' : ∀ one ∈ place', forest.Holds one)
    (same : place.map name = place'.map name) : place = place' := by
  cases place with
  | none =>
    cases place' with
    | none => rfl
    | some other => cases same
  | some one =>
    cases place' with
    | none => cases same
    | some other => rw [injective (held one rfl) (held' other rfl) (Option.some.inj same)]

namespace Renames

section

variable (renames : Renames name forest image)

include renames

theorem holds_name (holds : forest.Holds node) : image.Holds (name node) :=
  (renames.holds _).mpr ⟨node, holds, rfl⟩

/-- What hangs under a label is the name of something that hangs under it. -/
theorem exists_within
    (formed : forest.Formed)
    {label bottom : β}
    (within : image.Within label bottom)
    (holds : forest.Holds node)
    (named : name node = bottom) :
    ∃ top, name top = label ∧ forest.Within top node := by
  induction within generalizing node with
  | refl => exact ⟨node, named, .refl⟩
  | tail _ child ih =>
    rw [Child, ← named, renames.parent node holds] at child
    obtain ⟨place, hangs, isPlace⟩ := Option.map_eq_some_iff.mp child
    obtain ⟨above, rfl, isAbove⟩ := Option.map_eq_some_iff.mp isPlace
    obtain ⟨top, isTop, lower⟩ := ih (formed.holds_above hangs) isAbove
    exact ⟨top, isTop, lower.step hangs⟩

/-- Renaming keeps what is under what. -/
theorem within_iff (formed : forest.Formed) (holdsTop : forest.Holds top)
    (holds : forest.Holds node) : image.Within (name top) (name node) ↔ forest.Within top node := by
  constructor
  · intro within
    obtain ⟨one, sameName, lower⟩ := renames.exists_within formed within holds rfl
    rwa [← renames.injective (formed.holds_of_within lower holds) holdsTop sameName]
  intro within
  induction within with
  | refl => exact .refl
  | tail _ child ih =>
    refine (ih (formed.holds_above child)).step ?_
    rw [Child, renames.parent _ holds, child]
    rfl

end

/-- A renaming may differ on what is not held. -/
theorem congr (renames : Renames name forest image) (formed : forest.Formed)
    (agree : ∀ one, forest.Holds one → rename one = name one) : Renames rename forest image where
  injective holdsOne holdsOther same := by
    rw [agree _ holdsOne, agree _ holdsOther] at same
    exact renames.injective holdsOne holdsOther same
  holds label := by
    rw [renames.holds]
    exact exists_congr fun one => and_congr_right fun holds => by rw [agree one holds]
  parent one holds := by
    rw [agree one holds, renames.parent one holds]
    refine Option.map_congr fun above isAbove => Option.map_congr fun upper isUpper => ?_
    rw [isUpper] at isAbove
    exact (agree upper (formed.holds_above isAbove)).symm
  children place held := by
    have samePlace : place.map rename = place.map name :=
      Option.map_congr fun one isOne => agree one (held one isOne)
    rw [samePlace, renames.children place held]
    refine map_congr_left fun one member => (agree one ?_).symm
    exact holds_of_parent ((formed.mem_children _ _).mp member)

/-- Erasing commutes with renaming where no other element has the name. -/
theorem map_erase [DecidableEq α] [DecidableEq β] (elements : List α)
    (unlike : ∀ one ∈ elements, one ≠ node → name one ≠ name node) :
    (elements.erase node).map name = (elements.map name).erase (name node) := by
  induction elements with
  | nil => rfl
  | cons first rest ih =>
    have later := ih fun one member => unlike one (mem_cons_of_mem _ member)
    rw [map_cons]
    by_cases same : first = node
    · rw [same, erase_cons_head, erase_cons_head]
    · have different := unlike first mem_cons_self same
      rw [erase_cons_tail (by simpa using same),
        erase_cons_tail (by simpa using different), map_cons, later]

variable (renames : Renames name forest image) (formed : forest.Formed)

include renames formed

/-- Hanging a node commutes with renaming, whether the node is new or moves. -/
theorem hang
    [DecidableEq α]
    [DecidableEq β]
    (formedImage : image.Formed)
    (fresh : ∀ one, forest.Holds one → one ≠ node → name one ≠ name node)
    (placed : ∀ above ∈ place, forest.Holds above)
    (sibling : ∀ one ∈ before, forest.Holds one) :
    Renames name (forest.hang node place before)
      (image.hang (name node) (place.map name) (before.map name)) := by
  have injective : ∀ {one other}, (forest.hang node place before).Holds one →
      (forest.hang node place before).Holds other → name one = name other → one = other := by
    intro one other holdsOne holdsOther same
    by_contra different
    rcases holds_hang.mp holdsOne with rfl | held <;>
      rcases holds_hang.mp holdsOther with rfl | heldOther
    · exact different rfl
    · exact fresh other heldOther (Ne.symm different) same.symm
    · exact fresh one held different same
    · exact different (renames.injective held heldOther same)
  constructor
  case injective => exact injective
  case holds =>
    intro label
    simp only [holds_hang, renames.holds, or_and_right, exists_or, exists_eq_left]
    exact or_congr_left eq_comm
  case parent =>
    intro one holds
    by_cases isNode : one = node
    · rw [isNode, hang_parent_self, hang_parent_self]
      rfl
    have held := (holds_hang.mp holds).resolve_left isNode
    rw [hang_parent_of_ne isNode, hang_parent_of_ne (fresh one held isNode),
      renames.parent one held]
  case children =>
    intro key held
    have placeOf : key.map name = place.map name ↔ key = place := by
      refine ⟨place_injective injective held fun above isAbove => ?_, fun same => by rw [same]⟩
      exact holds_hang.mpr (.inr (placed above isAbove))
    have lists : image.children (key.map name) = (forest.children key).map name := by
      by_cases heldKey : ∀ one ∈ key, forest.Holds one
      · exact renames.children key heldKey
      simp only [not_forall] at heldKey
      obtain ⟨one, rfl, absent⟩ := heldKey
      have isNode := (holds_hang.mp (held one rfl)).resolve_right absent
      rw [formed.children_of_not_holds absent]
      refine formedImage.children_of_not_holds fun holdsLabel => ?_
      obtain ⟨other, heldOther, sameName⟩ := (renames.holds _).mp holdsLabel
      rw [isNode] at sameName absent
      exact fresh other heldOther (fun isOther => absent (isOther ▸ heldOther)) sameName
    have erased : (image.children (key.map name)).erase (name node) =
        ((forest.children key).erase node).map name := by
      rw [lists, map_erase]
      intro one member
      exact fresh one (holds_of_parent ((formed.mem_children _ _).mp member))
    rw [Hierarchy.hang, Hierarchy.hang]
    dsimp only
    by_cases here : key = place
    · rw [if_pos (placeOf.mpr here), if_pos here, erased, map_insertBefore]
      intro one isBefore other member
      have heldOther := holds_of_parent ((formed.mem_children _ _).mp (mem_of_mem_erase member))
      exact injective (holds_hang.mpr (.inr (sibling one isBefore)))
        (holds_hang.mpr (.inr heldOther))
    · rw [if_neg (placeOf.not.mpr here), if_neg here, erased]

/-- Pruning commutes with renaming. -/
theorem prune (holds : forest.Holds node) :
    Renames name (forest.prune node) (image.prune (name node)) := by
  have within : ∀ {one}, forest.Holds one →
      (image.Within (name node) (name one) ↔ forest.Within node one) :=
    fun heldOne => renames.within_iff formed holds heldOne
  constructor
  case injective =>
    intro one other heldOne heldOther
    exact renames.injective (holds_prune.mp heldOne).1 (holds_prune.mp heldOther).1
  case holds =>
    intro label
    rw [holds_prune, renames.holds]
    constructor
    · rintro ⟨⟨one, heldOne, rfl⟩, apart⟩
      rw [within heldOne] at apart
      exact ⟨one, holds_prune.mpr ⟨heldOne, apart⟩, rfl⟩
    · rintro ⟨one, heldOne, rfl⟩
      obtain ⟨heldOne, apart⟩ := holds_prune.mp heldOne
      rw [within heldOne]
      exact ⟨⟨one, heldOne, rfl⟩, apart⟩
  case parent =>
    intro one heldOne
    obtain ⟨heldOne, apart⟩ := holds_prune.mp heldOne
    rw [prune_parent_of_not_within apart,
      prune_parent_of_not_within ((within heldOne).not.mpr apart), renames.parent one heldOne]
  case children =>
    intro key held
    classical
    rw [Hierarchy.prune, Hierarchy.prune]
    dsimp only
    rw [renames.children key fun one isOne => (holds_prune.mp (held one isOne)).1, filter_map]
    refine congrArg _ (filter_congr fun one member => ?_)
    rw [Function.comp_apply, decide_eq_decide,
      within (holds_of_parent ((formed.mem_children _ _).mp member))]

end Renames

end Renaming

end Hierarchy

end FSystem
