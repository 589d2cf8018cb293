import FSystem.Scene.Arena
import FSystem.Library.Hierarchy
import Mathlib.Data.Set.Card

/-!
# What a scene is

The scene a client edits: a forest of node identifiers, the kind of each node and what it is
drawn with.  A delta edits it or is refused; a limit bounds the nodes there may be.
-/

namespace FSystem.Scene

/-- What a node is drawn with. -/
structure Drawn where
  transform : Option SetTransform := none
  path : Option SetPath := none
  paint : Option SetPaint := none
  deriving DecidableEq

/-- The scene as its client knows it. -/
@[ext] structure Picture where
  forest : Hierarchy UInt32
  kind : UInt32 → Option Kind
  drawn : UInt32 → Drawn

/-- The place an identifier of the wire names: the top, or a node. -/
def placeOf (node : UInt32) : Option UInt32 := if node = noNode then none else some node

namespace Picture

/-- The scene without nodes. -/
def empty : Picture := ⟨⟨fun _ => none, fun _ => []⟩, fun _ => none, fun _ => {}⟩

variable (picture : Picture)

/-- The nodes there are. -/
def nodes : Set UInt32 := {node | picture.forest.Holds node}

/-- The nodes at or under a node. -/
def subtree (node : UInt32) : Set UInt32 :=
  {other | picture.forest.Within node other}

/-- The picture with a node hung at a place, as new. -/
def make (kind : Kind) (entry : CreateNode) : Picture where
  forest := picture.forest.hang entry.node (placeOf entry.parent) (placeOf entry.before)
  kind := Function.update picture.kind entry.node (some kind)
  drawn := Function.update picture.drawn entry.node {}

/-- The picture with a node moved to a place. -/
def move (entry : CreateNode) : Picture :=
  { picture with
    forest := picture.forest.hang entry.node (placeOf entry.parent) (placeOf entry.before) }

open Classical in
/-- Move a node, unless that changes its kind or hangs it under itself. -/
noncomputable def rehang (kind : Kind) (entry : CreateNode) : Except Refusal Hung × Picture :=
  if picture.kind entry.node ≠ some kind then (.error (.kindChanged entry.node), picture)
  else if ∃ above ∈ placeOf entry.parent, picture.forest.Within entry.node above then
    (.error (.cycle entry.node), picture)
  else (.ok .moved, picture.move entry)

open Classical in
/-- Create a node that is not there, unless there are as many as there may be. -/
noncomputable def create (limit : ℕ∞) (picture : Picture) (kind : Kind) (entry : CreateNode) :
    Except Refusal Hung × Picture :=
  if ¬picture.nodes.encard < limit then (.error .capacity, picture)
  else (.ok .created, picture.make kind entry)

open Classical in
/-- Create a node, or move it with what is under it. -/
noncomputable def hang (limit : ℕ∞) (picture : Picture) (kind : Kind) (entry : CreateNode) :
    Except Refusal Hung × Picture :=
  if entry.before = entry.node then (.error (.notASibling entry.before), picture)
  else if ∃ above ∈ placeOf entry.parent, ¬picture.forest.Holds above then
    (.error (.noSuchParent entry.parent), picture)
  else if ∃ sibling ∈ placeOf entry.before,
      picture.forest.parent sibling ≠ some (placeOf entry.parent) then
    (.error (.notASibling entry.before), picture)
  else if picture.forest.Holds entry.node then picture.rehang kind entry
  else picture.create limit kind entry

open Classical in
/-- The picture without a node and what is under it. -/
noncomputable def prune (picture : Picture) (node : UInt32) : Picture where
  forest := picture.forest.prune node
  kind other := if picture.forest.Within node other then none else picture.kind other
  drawn other := if picture.forest.Within node other then {} else picture.drawn other

open Classical in
noncomputable def remove (node : UInt32) : Except Refusal Nat × Picture :=
  if ¬picture.forest.Holds node then (.error (.noSuchNode node), picture)
  else (.ok (picture.subtree node).ncard, picture.prune node)

open Classical in
/-- Change what a node is drawn with. -/
noncomputable def store (node : UInt32) (change : Drawn → Drawn) :
    Except Refusal Applied × Picture :=
  if ¬picture.forest.Holds node then (.error (.noSuchNode node), picture)
  else (.ok (.set node), { picture with
    drawn := Function.update picture.drawn node (change (picture.drawn node)) })

/-- Edit the scene. -/
noncomputable def apply (limit : ℕ∞) (picture : Picture) (delta : Delta) :
    Except Refusal Applied × Picture :=
  match Change.of delta with
  | .error refusal => (.error (.wire refusal), picture)
  | .ok change =>
    match delta.body, change with
    | .createNode entry, .created created =>
      (picture.hang limit created.kind entry).map (Except.map .hung) id
    | .removeNode entry, .removed _ => (picture.remove entry.node).map (Except.map .removed) id
    | .createNode _, _ | .removeNode _, _ => (.error .mismatched, picture)
    | .setTransform record, _ => picture.store record.node ({ · with transform := some record })
    | .setPath record, _ => picture.store record.node ({ · with path := some record })
    | .setPaint record, _ => picture.store record.node ({ · with paint := some record })
    | .setEffect record, _ => picture.store record.node id
    | .commit commit, _ => (.ok (.closes commit.frameToken), picture)

/-- Edit the scene with deltas one after the other, refused or not. -/
noncomputable def applyAll (limit : ℕ∞) (picture : Picture) (deltas : List Delta) : Picture :=
  deltas.foldl (fun earlier delta => (earlier.apply limit delta).2) picture

/-- A place is there, and the node to hang in front of is another one that hangs there. -/
structure Placeable (picture : Picture) (entry : CreateNode) : Prop where
  aside : entry.before ≠ entry.node
  under : ∀ above ∈ placeOf entry.parent, picture.forest.Holds above
  behind : ∀ sibling ∈ placeOf entry.before,
    picture.forest.parent sibling = some (placeOf entry.parent)

/-- The node an entry draws, and how. -/
def drawing : Entry → Option (UInt32 × (Drawn → Drawn))
  | .setTransform record => some (record.node, ({ · with transform := some record }))
  | .setPath record => some (record.node, ({ · with path := some record }))
  | .setPaint record => some (record.node, ({ · with paint := some record }))
  | .setEffect record => some (record.node, id)
  | .createNode _ | .removeNode _ | .commit _ => none

/-- The picture with a node drawn in another way. -/
def draw (node : UInt32) (look : Drawn → Drawn) : Picture :=
  { picture with drawn := Function.update picture.drawn node (look (picture.drawn node)) }

/-- An edit is refused, hangs, removes or draws a node, or closes a frame. -/
inductive Edits (limit : ℕ∞) (picture : Picture) (delta : Delta) :
    Except Refusal Applied × Picture → Prop
  | refused (refusal : Refusal)
      (full : refusal = .capacity → ¬picture.nodes.encard < limit) :
      Edits limit picture delta (.error refusal, picture)
  | created {entry : CreateNode} {kind : Kind}
      (body : delta.body = .createNode entry) (isKind : kind.wire = entry.kind)
      (named : entry.node ≠ noNode) (placeable : picture.Placeable entry)
      (fresh : ¬picture.forest.Holds entry.node) (room : picture.nodes.encard < limit) :
      Edits limit picture delta (.ok (.hung .created), picture.make kind entry)
  | moved {entry : CreateNode} {kind : Kind}
      (body : delta.body = .createNode entry) (isKind : kind.wire = entry.kind)
      (placeable : picture.Placeable entry) (holds : picture.forest.Holds entry.node)
      (sameKind : picture.kind entry.node = some kind)
      (apart : ∀ above ∈ placeOf entry.parent, ¬picture.forest.Within entry.node above) :
      Edits limit picture delta (.ok (.hung .moved), picture.move entry)
  | removed {entry : RemoveNode}
      (body : delta.body = .removeNode entry) (holds : picture.forest.Holds entry.node) :
      Edits limit picture delta
        (.ok (.removed (picture.subtree entry.node).ncard), picture.prune entry.node)
  | drawn {node : UInt32} {look : Drawn → Drawn}
      (body : drawing delta.body = some (node, look)) (holds : picture.forest.Holds node) :
      Edits limit picture delta (.ok (.set node), picture.draw node look)
  | closed {commit : Commit} (body : delta.body = .commit commit) :
      Edits limit picture delta (.ok (.closes commit.frameToken), picture)

section Edits

variable {limit : ℕ∞} {picture : Picture} {delta : Delta}

theorem edits_hang
    {created : Created}
    {entry : CreateNode}
    (body : delta.body = .createNode entry)
    (isNode : created.node = entry.node)
    (isKind : created.kind.wire = entry.kind) :
    picture.Edits limit delta
      ((picture.hang limit created.kind entry).map (Except.map .hung) id) := by
  fun_cases hang with
  | case1 | case2 | case3 => exact .refused _ nofun
  | case4 aside under behind holds =>
    push Not at under behind
    fun_cases rehang with
    | case1 | case2 => exact .refused _ nofun
    | case3 sameKind apart =>
      push Not at apart
      exact .moved body isKind ⟨aside, under, behind⟩ holds (not_not.mp sameKind) apart
  | case5 aside under behind fresh =>
    push Not at under behind
    rw [create]
    split
    next full => exact .refused _ fun _ => full
    next room =>
      exact .created body isKind (isNode ▸ created.named) ⟨aside, under, behind⟩ fresh
        (not_not.mp room)

theorem edits_store {node : UInt32} {look : Drawn → Drawn}
    (body : drawing delta.body = some (node, look)) :
    picture.Edits limit delta (picture.store node look) := by
  rw [store]
  split
  · exact .refused _ nofun
  next holds => exact .drawn body (not_not.mp holds)

/-- Every edit does one of these. -/
theorem edits_apply (limit : ℕ∞) (picture : Picture) (delta : Delta) :
    picture.Edits limit delta (picture.apply limit delta) := by
  rw [apply]
  cases changes : Change.of delta with
  | error refusal => exact .refused _ nofun
  | ok change =>
    cases body : delta.body with
    | createNode entry =>
      cases change with
      | created created =>
        obtain ⟨isNode, isKind⟩ := Change.created_of changes body
        exact edits_hang body isNode isKind
      | removed removal | untouched => exact .refused _ nofun
    | removeNode entry =>
      cases change with
      | removed removal =>
        dsimp only
        rw [remove]
        split
        · exact .refused _ nofun
        next holds => exact .removed body (not_not.mp holds)
      | created created | untouched => exact .refused _ nofun
    | setTransform record | setPath record | setPaint record | setEffect record =>
      exact edits_store (congrArg drawing body)
    | commit commit => exact .closed body

end Edits

end Picture

end FSystem.Scene
