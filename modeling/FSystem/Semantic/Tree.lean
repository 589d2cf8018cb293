import FSystem.Semantic.Session
import Mathlib.Data.List.ReduceOption

/-!
# The remote tree

The far side of a semantic channel stages the edits of a frame and, at its commit, applies
them to a copy of the tree it holds, which replaces the tree only if every edit succeeds.
-/

namespace FSystem.Semantic

/-- The most nodes a receiver holds. -/
def nodesMax : Nat := 16

/-- The most entries of one frame a receiver stages. -/
def frameEntriesMax : Nat := 24

/-- A node as it was declared, with its place among its siblings and how it stands. -/
structure Node where
  id : UInt64
  parent : UInt64
  rank : UInt32
  role : Ordinal .role
  intent : UInt32
  state : Option StateBits
  deriving DecidableEq

/-- How many edits of each kind a frame made. -/
structure Applied where
  declared : Nat
  stated : Nat
  removed : Nat
  agreements : Nat
  deriving DecidableEq

/-- A frame that made no edits yet. -/
def Applied.zero : Applied := ⟨0, 0, 0, 0⟩

/-- Why a frame is rejected. -/
inductive Rejected
  | full
  | notAnEdit
  | declared (node : UInt64)
  | noSuchNode (node : UInt64)
  | noSuchParent (node : UInt64)
  | notASibling (node : UInt64)
  | capacity
  | notStored (node : UInt64)
  deriving DecidableEq

/-- The edits of the frame being assembled. -/
structure Staged where
  entries : List Delta
  bounded : entries.length ≤ frameEntriesMax
  deriving DecidableEq

namespace Staged

/-- No edits. -/
def empty : Staged := ⟨[], Nat.zero_le _⟩

/-- Stage one more edit. -/
def offer (self : Staged) (delta : Delta) : Except Rejected Staged :=
  if delta.body.op = .commit then .error .notAnEdit
  else if room : self.entries.length < frameEntriesMax then
    .ok ⟨self.entries ++ [delta], by rw [List.length_append]; exact room⟩
  else .error .full

end Staged

/-- The slots nodes are held in. -/
abbrev Slots := Vector (Option Node) nodesMax

namespace Slots

/-- No nodes. -/
def empty : Slots := .replicate nodesMax none

variable (self : Slots)

/-- The nodes held, in slot order. -/
def held : List Node := self.toList.reduceOption

/-- The node with an identifier. -/
def node (id : UInt64) : Option Node := self.held.find? (·.id = id)

/-- Where a new child of a parent sits, with room made for it if it is inserted. -/
def rankFor (parent before : UInt64) : Except Rejected (UInt32 × Slots) :=
  if before = noNode then
    let ranks := (self.held.filter (·.parent = parent)).map (·.rank)
    .ok ((ranks.max?.map saturatingSucc).getD 0, self)
  else
    match self.node before with
    | none => .error (.noSuchNode before)
    | some sibling =>
      if sibling.parent ≠ parent then .error (.notASibling before)
      else
        .ok (sibling.rank, self.map fun slot => slot.map fun node =>
          if node.parent = parent ∧ node.rank ≥ sibling.rank then
            { node with rank := saturatingSucc node.rank }
          else node)

/-- Declare a node in the first slot that holds none. -/
def declare (self : Slots) (declare : DeclareNode) : Except Rejected Slots :=
  if (self.node declare.node).isSome then .error (.declared declare.node)
  else if declare.parent ≠ noNode ∧ (self.node declare.parent).isNone then
    .error (.noSuchParent declare.parent)
  else
    match self.rankFor declare.parent declare.before with
    | .error rejected => .error rejected
    | .ok (rank, slots) =>
      match slots.finIdxOf? none with
      | none => .error .capacity
      | some index =>
        .ok (slots.set index
          (some ⟨declare.node, declare.parent, rank, declare.role, declare.intent, none⟩))

/-- Say how the first node with an identifier stands. -/
def setState (set : SetState) : Except Rejected Slots :=
  match self.findFinIdx? fun slot => slot.any (·.id = set.node) with
  | none => .error (.noSuchNode set.node)
  | some index =>
    .ok (self.set index (self[index].map fun node => { node with state := some set.state }))

/-- Whether a node falls in a pass over the slots as they stood before it. -/
def falls (standing : Slots) (id : UInt64) (node : Node) : Bool :=
  node.id = id ∨ node.parent ≠ noNode ∧ (standing.node node.parent).isNone

/-- Passes that take the named node, or what the pass before orphaned, until one takes none;
their number is carried along. -/
def sweep (id : UInt64) : Nat → Slots → Nat → Slots × Nat
  | 0, slots, gone => (slots, gone)
  | passes + 1, slots, gone =>
    let left : Slots := slots.map fun slot => slot.filter fun node => !slots.falls id node
    let fell := slots.held.countP (slots.falls id)
    if fell = 0 then (left, gone) else sweep id passes left (gone + fell)

/-- Remove a node and everything under it, and answer how many left. -/
def remove (id : UInt64) : Except Rejected (Slots × Nat) :=
  if (self.node id).isNone then .error (.noSuchNode id) else .ok (self.sweep id nodesMax 0)

/-- Make one edit. -/
def one (delta : Delta) (applied : Applied) : Except Rejected (Slots × Applied) :=
  match delta.body with
  | .declareVocabulary _ => .ok (self, { applied with agreements := applied.agreements + 1 })
  | .declareNode declare =>
    match self.declare declare with
    | .error rejected => .error rejected
    | .ok slots => .ok (slots, { applied with declared := applied.declared + 1 })
  | .setState set =>
    match self.setState set with
    | .error rejected => .error rejected
    | .ok slots => .ok (slots, { applied with stated := applied.stated + 1 })
  | .remove remove =>
    match self.remove remove.node with
    | .error rejected => .error rejected
    | .ok (slots, gone) => .ok (slots, { applied with removed := applied.removed + gone })
  | .setContent set => .error (.notStored set.node)
  | .setRelations set => .error (.notStored set.node)
  | .commit _ => .error .notAnEdit

/-- Make edits one after another, up to the first that is rejected. -/
def each (self : Slots) (applied : Applied) :
    List Delta → Except Rejected (Slots × Applied)
  | [] => .ok (self, applied)
  | delta :: rest =>
    match self.one delta applied with
    | .error rejected => .error rejected
    | .ok (slots, applied) => slots.each applied rest

end Slots

/-- The tree a receiver holds, with its counters. -/
structure Tree where
  nodes : Slots
  frames : Nat
  edits : Nat
  refused : Nat
  deriving DecidableEq

namespace Tree

/-- A tree without nodes. -/
def empty : Tree := ⟨Slots.empty, 0, 0, 0⟩

/-- Apply a whole frame, or none of it. -/
def apply (self : Tree) (staged : Staged) : Except Rejected Applied × Tree :=
  match self.nodes.each Applied.zero staged.entries with
  | .error rejected => (.error rejected, { self with refused := self.refused + 1 })
  | .ok (nodes, applied) =>
    (.ok applied,
      { self with
        nodes := nodes
        frames := self.frames + 1
        edits := self.edits + staged.entries.length })

end Tree

/-- The roles of the vocabulary. -/
inductive Role
  | surface | group | list | tree | item | table | row | cell | separator
  | label | text | image | status
  | command | toggle | entry | choice | number
  | canvas | track | clip | marker
  deriving DecidableEq

namespace Role

/-- The roles in the order of their ordinals. -/
def all : List Role :=
  [surface, group, list, tree, item, table, row, cell, separator, label, text, image, status,
    command, toggle, entry, choice, number, canvas, track, clip, marker]

/-- The role of an index. -/
def fromIndex (index : Nat) : Option Role := all[index]?

/-- The version a role has been in the vocabulary since. -/
def since : Role → UInt16 := fun _ => 1

end Role

namespace Interface

/-- The version an ordinal has been named since, if it is named. -/
def since (field : Closed) (ordinal : UInt16) : Option UInt16 :=
  match field with
  | .role => (Role.fromIndex ordinal.toNat).map Role.since
  | .relation | .content => if ordinal < 4 then some vocabularyVersionMin else none

/-- The vocabulary a remote admits entries by. -/
def vocabulary : Vocabulary where
  names field ordinal agreed :=
    match since field ordinal with
    | some since => since ≤ agreed.version
    | none => false
  stateBits _ := 0x1F

end Interface

/-- Why an entry was lost: the session's refusal, or the tree's. -/
inductive Lost
  | session (fault : Fault)
  | tree (rejected : Rejected)
  deriving DecidableEq

/-- The far side: a session, a frame under assembly, and the tree it lands in. -/
structure Remote where
  session : Session
  staged : Staged
  tree : Tree
  frames : Nat
  deriving DecidableEq

namespace Remote

/-- A far side with nothing agreed and nothing held. -/
def opening (epoch : UInt32) : Remote :=
  ⟨Session.opening epoch, Staged.empty, Tree.empty, 0⟩

/-- Take one entry off the link. -/
def receive (self : Remote) (entry : Sqe) (payload : Payload) :
    Except Lost (Option Applied) × Remote :=
  match self.session.accept entry payload Interface.vocabulary with
  | (.error fault, session) => (.error (.session fault), { self with session := session })
  | (.ok (.staged delta), session) =>
    match self.staged.offer delta with
    | .error rejected => (.error (.tree rejected), { self with session := session })
    | .ok staged => (.ok none, { self with session := session, staged := staged })
  | (.ok (.frame _), session) =>
    match self.tree.apply self.staged with
    | (.error rejected, tree) =>
      (.error (.tree rejected), { self with session := session, tree := tree })
    | (.ok applied, tree) => (.ok (some applied), ⟨session, Staged.empty, tree, self.frames + 1⟩)

end Remote

end FSystem.Semantic
