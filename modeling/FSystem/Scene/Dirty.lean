import FSystem.Scene.Arena
import Mathlib.Order.Lattice.Nat

/-!
# What a frame dirties

While the deltas of a frame are applied, the roots of the subtrees they change are marked:
before each delta the place it fills and the place it leaves, or the node it sets.  A node
under a marked one is not marked again, marks under a new one are shed, and a set that is full
marks the whole scene.  When the frame is closed the marked subtrees are walked in pre-order.

As in the arena, `none` says that a loop did not end.
-/

namespace FSystem.Scene

/-- The most subtree roots one frame marks. -/
def marksMax : Nat := 64

/-- What a delta dirties. -/
inductive Reach
  | subtree
  | enclosing
  | placement
  | nothing
  deriving DecidableEq

namespace Reach

/-- What each opcode dirties. -/
def table : List (UInt8 × Reach) :=
  [(Op.createNode.code, placement), (Op.setTransform.code, subtree), (Op.setPath.code, subtree),
    (Op.setPaint.code, subtree), (Op.removeNode.code, enclosing), (Op.commit.code, nothing),
    (Op.setEffect.code, subtree)]

end Reach

/-- How far an opcode reaches. -/
def reachOf (opcode : UInt8) : Option Reach :=
  (Reach.table.find? (·.1 = opcode)).map (·.2)

/-- What marking a node did. -/
inductive Marked
  | nothing
  | subsumed
  | added
  | whole
  deriving DecidableEq

namespace Marked

/-- How much a marking did. -/
def rank : Marked → Nat
  | nothing => 0
  | subsumed => 1
  | added => 2
  | whole => 3

/-- The one that did more. -/
def max (first second : Marked) : Marked := if first.rank ≤ second.rank then second else first

end Marked

/-- How a node stands to another one above it. -/
inductive Ancestry
  | covers
  | separate
  | broken
  deriving DecidableEq

/-- Walk up from a node to see whether another one is at or above it. -/
def ancestryAfter (arena : Arena) (ancestor : UInt32) (left : Nat) (node : UInt32) : Ancestry :=
  if node = ancestor then .covers
  else
    match left with
    | 0 => .broken
    | left + 1 =>
      match arena.parentOf node with
      | .error _ => .separate
      | .ok parent =>
        if parent = noNode then .separate else ancestryAfter arena ancestor left parent

/-- Whether a node is at or under another. -/
def ancestry (arena : Arena) (ancestor node : UInt32) : Ancestry :=
  ancestryAfter arena ancestor nodesMax node

/-- The subtree roots that were marked, or the whole scene. -/
structure Marks where
  roots : List UInt32
  whole : Bool
  bound : roots.length ≤ marksMax

namespace Marks

/-- No marks. -/
def clean : Marks := ⟨[], false, Nat.zero_le _⟩

/-- Add a root, if there is room. -/
def push (self : Marks) (node : UInt32) : Option Marks :=
  if room : self.roots.length < marksMax then
    some ⟨self.roots ++ [node], self.whole, by rw [List.length_append]; exact room⟩
  else none

/-- Whether a root is at or above a node. -/
def covered (self : Marks) (arena : Arena) (node : UInt32) : Ancestry :=
  if self.roots.any (ancestry arena · node = .covers) then .covers
  else if self.roots.any (ancestry arena · node = .broken) then .broken
  else .separate

/-- Drop the roots at or under a node, and say whether some way up was too long. -/
def shed (self : Marks) (arena : Arena) (ancestor : UInt32) : Bool × Marks :=
  (self.roots.any (ancestry arena ancestor · = .broken), ⟨self.roots.filter (ancestry arena ancestor
    · = .separate), self.whole, (List.length_filter_le _ _).trans self.bound⟩)

/-- Walk up from a root to another one, or to the same one marked before. -/
def shadowedAfter (self : Marks) (arena : Arena) (index left steps : Nat) (cursor : UInt32) :
    Bool :=
  if self.roots.zipIdx.any fun (root, other) =>
      root = cursor ∧ other ≠ index ∧ (steps > 0 ∨ other < index) then true
  else
    match left with
    | 0 => true
    | left + 1 =>
      match arena.parentOf cursor with
      | .error _ => false
      | .ok parent =>
        if parent = noNode then false
        else shadowedAfter self arena index left (steps + 1) parent

/-- Whether a mark lies under another one. -/
def shadowed (self : Marks) (arena : Arena) (index : Nat) : Bool :=
  match self.roots[index]? with
  | none => true
  | some node => self.shadowedAfter arena index nodesMax 0 node

end Marks

/-- The marks of a frame that is open. -/
structure Dirty where
  marks : Marks

namespace Dirty

/-- Nothing is dirty. -/
def clean : Dirty := ⟨.clean⟩

/-- Mark the whole scene. -/
def everything (_self : Dirty) : Marked × Dirty := (.whole, ⟨⟨[], true, Nat.zero_le _⟩⟩)

/-- Mark the subtree of a node, or the whole scene for the top. -/
def mark (self : Dirty) (arena : Arena) (node : UInt32) : Marked × Dirty :=
  if node = noNode then self.everything
  else if self.marks.whole then (.whole, self)
  else if !arena.holds node then (.nothing, self)
  else
    match self.marks.covered arena node with
    | .covers => (.subsumed, self)
    | .broken => self.everything
    | .separate =>
      let (broken, marks) := self.marks.shed arena node
      if broken then (⟨marks⟩ : Dirty).everything
      else
        match marks.push node with
        | some marks => (.added, ⟨marks⟩)
        | none => (⟨marks⟩ : Dirty).everything

/-- The node a delta names, and the parent a creation names. -/
def named (body : Entry) : UInt32 × Option UInt32 :=
  match body with
  | .createNode entry => (entry.node, some entry.parent)
  | .setTransform record => (record.node, none)
  | .setPath record => (record.node, none)
  | .setPaint record => (record.node, none)
  | .removeNode remove => (remove.node, none)
  | .commit _ => (noNode, none)
  | .setEffect record => (record.node, none)

/-- Mark the place where a node hangs, if it does. -/
def markParent (self : Dirty) (arena : Arena) (node : UInt32) : Marked × Dirty :=
  match arena.parentOf node with
  | .ok parent => self.mark arena parent
  | .error _ => (.nothing, self)

/-- Mark what a delta is about to change. -/
def record (self : Dirty) (arena : Arena) (delta : Delta) : Marked × Dirty :=
  match reachOf delta.opcode with
  | none => self.everything
  | some reach =>
    let (node, placedUnder) := named delta.body
    match reach with
    | .nothing => (.nothing, self)
    | .subtree => self.mark arena node
    | .enclosing => self.markParent arena node
    | .placement =>
      let (fill, filled) :=
        match placedUnder with
        | some parent => self.mark arena parent
        | none => self.everything
      let (hole, both) := filled.markParent arena node
      (fill.max hole, both)

/-- Mark what a delta changes, and apply it. -/
def apply (self : Dirty) (arena : Arena) (delta : Delta) :
    Option (Except Refusal Applied × Arena × Dirty) :=
  (arena.apply delta).map fun (answer, after) => (answer, after, (self.record arena delta).2)

/-- Drive the deltas of a frame, whether they are accepted or refused. -/
def applyAll (self : Dirty) (arena : Arena) : List Delta → Option (Arena × Dirty)
  | [] => some (arena, self)
  | delta :: rest =>
    (self.apply arena delta).bind fun (_, after, dirty) => dirty.applyAll after rest

end Dirty

/-- A node that is handed over: what it is, and how deep under the marked root. -/
structure Visit where
  node : UInt32
  kind : Kind
  depth : Nat
  deriving DecidableEq

/-- How a walk went. -/
structure Visited where
  nodes : Nat
  subtrees : Nat
  halted : Bool
  deriving DecidableEq

/-- What a walk has handed over so far, and its tally. -/
abbrev Walk := List Visit × Visited

/-- The first child of a node. -/
def firstChild (arena : Arena) (node : UInt32) : Option UInt32 :=
  match arena.children node with
  | .error _ => none
  | .ok cursor => (arena.childrenNext cursor).1

/-- The sibling after a node. -/
def nextSibling (arena : Arena) (node : UInt32) : Option (Option UInt32) :=
  match arena.parentOf node with
  | .error _ => some none
  | .ok parent =>
    if parent = noNode then arena.siblingAfter node nodesMax arena.roots
    else
      match arena.children parent with
      | .error _ => some none
      | .ok cursor => arena.siblingAfter node nodesMax cursor

/-- The loops of a walk: visit a node and go down, or climb to a next sibling. -/
def walkFrom (arena : Arena) (root : UInt32) :
    Nat → Bool → UInt32 → Nat → Walk → Option Walk
  | 0, _, _, _, _ => none
  | fuel + 1, false, node, depth, (seen, tally) =>
    if nodesMax ≤ tally.nodes then some (seen, { tally with halted := true })
    else
      match arena.kindOf node with
      | none => some (seen, tally)
      | some kind =>
        let walk := (seen ++ [⟨node, kind, depth⟩], { tally with nodes := tally.nodes + 1 })
        match firstChild arena node with
        | some child => walkFrom arena root fuel false child (depth + 1) walk
        | none => walkFrom arena root fuel true node depth walk
  | fuel + 1, true, node, depth, walk =>
    if node = root then some walk
    else
      match nextSibling arena node with
      | none => none
      | some (some sibling) => walkFrom arena root fuel false sibling depth walk
      | some none =>
        match arena.parentOf node with
        | .error _ => some walk
        | .ok parent =>
          if parent = noNode then some walk
          else walkFrom arena root fuel true parent (depth - 1) walk

/-- Walk what is at or under a node. -/
def walkSubtree (arena : Arena) (walk : Walk) (root : UInt32) : Option Walk :=
  if (arena.kindOf root).isNone then some walk
  else
    walkFrom arena root (2 * nodesMax) false root 0
      (walk.1, { walk.2 with subtrees := walk.2.subtrees + 1 })

/-- Walk the whole scene, one root after the other. -/
def walkRoots (arena : Arena) (fuel : Nat) (cursor : Option SlotIx) (walk : Walk) : Option Walk :=
  match arena.childrenNext cursor with
  | (none, _) => some walk
  | (some root, rest) =>
    match fuel with
    | 0 => none
    | fuel + 1 => (walkSubtree arena walk root).bind (walkRoots arena fuel rest)

/-- The marks of a frame that was closed. -/
structure Sealed where
  marks : Marks
  frameToken : UInt64

/-- The marks as a frame is committed. -/
def Dirty.atCommit (self : Dirty) (frameToken : UInt64) : Sealed := ⟨self.marks, frameToken⟩

/-- Hand over every node at or under a mark. -/
def Sealed.walk (self : Sealed) (arena : Arena) : Option Walk :=
  let start : Walk := ([], ⟨0, 0, false⟩)
  if self.marks.whole then walkRoots arena nodesMax arena.roots start
  else
    self.marks.roots.zipIdx.foldlM
      (fun walk (root, index) =>
        if self.marks.shadowed arena index then some walk else walkSubtree arena walk root)
      start

end FSystem.Scene
