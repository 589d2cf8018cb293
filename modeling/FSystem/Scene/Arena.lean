import Mathlib.Algebra.Ring.Nat
import FSystem.Scene.Wire

/-!
# The scene arena

The nodes of a scene stand in the slots of one fixed table, linked to their parents, first
children and next siblings; slots that were given back are linked into a free list.  A delta
creates or moves a node, sets what it is drawn with, or removes it with everything under it.
Tearing a subtree down threads its work list through the sibling links.

The loops follow links, so each is given fuel; `none` says that a loop did not end.
-/

namespace FSystem.Scene

/-- The most nodes a scene holds. -/
@[irreducible] def nodesMax : Nat := 1024

/-- A slot of the table. -/
abbrev SlotIx := Fin nodesMax

/-- Why the arena refuses a delta. -/
inductive Refusal
  | capacity
  | noSuchNode (node : UInt32)
  | noSuchParent (node : UInt32)
  | notASibling (node : UInt32)
  | cycle (node : UInt32)
  | kindChanged (node : UInt32)
  | mismatched
  | wire (refusal : WireRefusal)
  deriving DecidableEq

/-- Whether hanging a node made it or moved it. -/
inductive Hung
  | created
  | moved
  deriving DecidableEq

/-- What a delta did. -/
inductive Applied
  | hung (hung : Hung)
  | removed (gone : Nat)
  | set (node : UInt32)
  | closes (frameToken : UInt64)
  deriving DecidableEq

/-- A node that an entry creates; its identifier names a node. -/
structure Created where
  node : UInt32
  kind : Kind
  named : node ≠ noNode
  deriving DecidableEq

/-- The node an entry removes, with what is under it. -/
structure Removal where
  root : UInt32
  named : root ≠ noNode
  deriving DecidableEq

namespace Created

/-- The kind of a node that is the root of a removal, or the node again. -/
def removedBy (self : Created) (removal : Removal) : Except Created Kind :=
  if removal.root = self.node then .ok self.kind else .error self

/-- The kind a node had when its ancestor was removed. -/
def removedUnder (self : Created) (_removal : Removal) : Kind := self.kind

/-- The kind of a node that goes with a removal, as its root or from under it. -/
def kindRemoved (self : Created) (removal : Removal) : Kind :=
  match self.removedBy removal with
  | .ok kind => kind
  | .error beneath => beneath.removedUnder removal

end Created

/-- What a delta does to the nodes there are. -/
inductive Change
  | created (created : Created)
  | removed (removal : Removal)
  | untouched
  deriving DecidableEq

namespace Change

/-- The change a delta asks for. -/
def of (delta : Delta) : Except WireRefusal Change :=
  match delta.check with
  | .error refusal => .error refusal
  | .ok () =>
    match delta.body with
    | .createNode create =>
      if named : create.node ≠ noNode then
        match Kind.fromWire create.kind with
        | none => .error .value
        | some kind => .ok (.created ⟨create.node, kind, named⟩)
      else .error .noNode
    | .removeNode remove =>
      if named : remove.node ≠ noNode then .ok (.removed ⟨remove.node, named⟩)
      else .error .noNode
    | .setTransform _ | .setPath _ | .setPaint _ | .setEffect _ | .commit _ => .ok .untouched

theorem created_of
    {delta : Delta}
    {entry : CreateNode}
    {made : Created}
    (isChange : of delta = .ok (.created made))
    (body : delta.body = .createNode entry) :
    made.node = entry.node ∧ made.kind.wire = entry.kind := by
  revert isChange
  fun_cases of delta with
  | case3 _ create isCreate _ kind isKind =>
    rintro ⟨⟩
    cases isCreate.symm.trans body
    exact ⟨rfl, Kind.fromWire_eq_some.mp isKind⟩
  | _ => nofun

theorem removed_of
    {delta : Delta}
    {entry : RemoveNode}
    {removal : Removal}
    (isChange : of delta = .ok (.removed removal))
    (body : delta.body = .removeNode entry) :
    removal.root = entry.node := by
  revert isChange
  fun_cases of delta with
  | case5 _ remove isRemove =>
    rintro ⟨⟩
    cases isRemove.symm.trans body
    rfl
  | _ => nofun

end Change

/-- One slot: the node it holds, its links, and what the node is drawn with. -/
structure Slot where
  held : Option Created
  parent : Option SlotIx
  firstChild : Option SlotIx
  next : Option SlotIx
  transform : Option SetTransform
  path : Option SetPath
  paint : Option SetPaint
  deriving DecidableEq

/-- A slot nobody holds. -/
def Slot.empty : Slot := ⟨none, none, none, none, none, none, none⟩

/-- The slots: the first root, the first free one, how many were ever used, and the nodes of
each kind. -/
structure Arena where
  slots : SlotIx → Slot
  roots : Option SlotIx
  free : Option SlotIx
  bumped : Nat
  census : Kind → Nat

namespace Arena

/-- An arena without nodes. -/
def empty : Arena := ⟨fun _ => Slot.empty, none, none, 0, fun _ => 0⟩

variable (self : Arena)

/-- How many nodes there are. -/
def live : Nat := (Kind.all.map self.census).sum

/-- The slot that holds a node. -/
def find (self : Arena) (node : UInt32) : Option SlotIx :=
  (List.finRange nodesMax).find? fun ix => (self.slots ix).held.any (·.node = node)

/-- Whether a node is there. -/
def holds (node : UInt32) : Bool := (self.find node).isSome

/-- The kind of a node. -/
def kindOf (node : UInt32) : Option Kind :=
  (self.find node).bind fun ix => (self.slots ix).held.map Created.kind

/-- The node in a slot. -/
def nodeAt (ix : SlotIx) : UInt32 :=
  match (self.slots ix).held with
  | some held => held.node
  | none => noNode

/-- The parent of a node. -/
def parentOf (node : UInt32) : Except Refusal UInt32 :=
  match self.find node with
  | none => .error (.noSuchNode node)
  | some ix =>
    match (self.slots ix).parent with
    | some parent => .ok (self.nodeAt parent)
    | none => .ok noNode

/-- Where the list of a node's children begins. -/
def children (node : UInt32) : Except Refusal (Option SlotIx) :=
  match self.find node with
  | none => .error (.noSuchNode node)
  | some ix => .ok (self.slots ix).firstChild

/-- The next node of a list of siblings, and where the list goes on. -/
def childrenNext (cursor : Option SlotIx) : Option UInt32 × Option SlotIx :=
  match cursor with
  | none => (none, none)
  | some one => ((self.slots one).held.map Created.node, (self.slots one).next)

/-- Look along a list of siblings for a node; the answer is what stands behind it. -/
def siblingAfter (self : Arena) (node : UInt32) (fuel : Nat) (cursor : Option SlotIx) :
    Option (Option UInt32) :=
  match self.childrenNext cursor with
  | (none, _) => some none
  | (some one, rest) =>
    if one = node then some (self.childrenNext rest).1
    else
      match fuel with
      | 0 => none
      | fuel + 1 => siblingAfter self node fuel rest

/-- Change one slot. -/
def modify (ix : SlotIx) (change : Slot → Slot) : Arena :=
  { self with slots := Function.update self.slots ix (change (self.slots ix)) }

/-- Set the link to the next sibling. -/
def setNext (ix : SlotIx) (link : Option SlotIx) : Arena :=
  self.modify ix ({ · with next := link })

/-- The first node of a place. -/
def head (parent : Option SlotIx) : Option SlotIx :=
  match parent with
  | some one => (self.slots one).firstChild
  | none => self.roots

/-- Set the link to the first child. -/
def setHead (parent link : Option SlotIx) : Arena :=
  match parent with
  | some one => self.modify one ({ · with firstChild := link })
  | none => { self with roots := link }

/-- A slot that holds no node, taken off the free list or used for the first time. -/
def takeFree : Option (SlotIx × Arena) :=
  match self.free with
  | some ix => some (ix, { self with free := (self.slots ix).next }.modify ix fun _ => Slot.empty)
  | none =>
    if room : self.bumped < nodesMax then
      some (⟨self.bumped, room⟩, { self with bumped := self.bumped + 1 })
    else none

/-- Give a slot back; the answer is the kind of the node it held. -/
def release (ix : SlotIx) (removal : Removal) : Option Kind × Arena :=
  let held := (self.slots ix).held
  let given := { self.modify ix fun _ => { Slot.empty with next := self.free } with
    free := some ix }
  match held with
  | none => (none, given)
  | some token =>
    let kind := token.kindRemoved removal
    (some kind, { given with
      census := Function.update given.census kind (given.census kind - 1) })

/-- Look for the sibling before a slot, and lead its link past the slot. -/
def unlinkAfter (self : Arena) (ix : SlotIx) (after : Option SlotIx) :
    Nat → Option SlotIx → Option Arena
  | _, none => some self
  | 0, some _ => none
  | fuel + 1, some one =>
    let next := (self.slots one).next
    if next = some ix then some (self.setNext one after)
    else unlinkAfter self ix after fuel next

/-- Lead the link to a slot, a sibling's or the head of its list, past it. -/
def leadPast (ix : SlotIx) : Option Arena :=
  let parent := (self.slots ix).parent
  let after := (self.slots ix).next
  if self.head parent = some ix then some (self.setHead parent after)
  else self.unlinkAfter ix after nodesMax (self.head parent)

/-- Take a slot out of its list of siblings. -/
def unlink (ix : SlotIx) : Option Arena :=
  (self.leadPast ix).map fun led => led.modify ix ({ · with parent := none, next := none })

/-- Look along a list of siblings for the place in front of a slot, or the end. -/
def linkAfter (self : Arena) (ix : SlotIx) (before : Option SlotIx) :
    Nat → Option SlotIx → Option Arena
  | _, none => some self
  | 0, some _ => none
  | fuel + 1, some one =>
    let next := (self.slots one).next
    if next = before ∨ next = none then some ((self.setNext ix next).setNext one (some ix))
    else linkAfter self ix before fuel next

/-- Put a slot into a list of siblings, in front of another slot or last. -/
def link (ix : SlotIx) (parent before : Option SlotIx) : Option Arena :=
  let self := self.modify ix ({ · with parent := parent, next := none })
  let head := self.head parent
  if head = none ∨ head = before then some ((self.setNext ix head).setHead parent (some ix))
  else self.linkAfter ix before nodesMax head

/-- Whether the way up from a slot meets another one, or is too long. -/
def descendsAfter (self : Arena) (ancestor : SlotIx) (left : Nat) (cursor : Option SlotIx) :
    Bool :=
  match cursor with
  | none => false
  | some one =>
    if one = ancestor then true
    else
      match left with
      | 0 => true
      | left + 1 => descendsAfter self ancestor left (self.slots one).parent

/-- Whether a slot is at or under another. -/
def descendsFrom (candidate ancestor : SlotIx) : Bool :=
  self.descendsAfter ancestor nodesMax (some candidate)

/-- Add one to a count of nodes, which sticks at its largest value. -/
def counted (count : Nat) : Nat := min (count + 1) (2 ^ 16 - 1)

/-- The place an entry names. -/
def placeUnder (parent : UInt32) : Except Refusal (Option SlotIx) :=
  if parent = noNode then .ok none
  else
    match self.find parent with
    | none => .error (.noSuchParent parent)
    | some ix => .ok (some ix)

/-- The sibling an entry names, which has to stand at the place. -/
def placeBefore (parent : Option SlotIx) (before : UInt32) : Except Refusal (Option SlotIx) :=
  if before = noNode then .ok none
  else
    match self.find before with
    | none => .error (.notASibling before)
    | some sibling =>
      if (self.slots sibling).parent ≠ parent then .error (.notASibling before)
      else .ok (some sibling)

/-- Move a slot with what is under it, unless that would hang it under itself. -/
def move (created : Created) (ix : SlotIx) (parent before : Option SlotIx) :
    Option (Except Refusal Hung × Arena) :=
  if (self.slots ix).held.map Created.kind ≠ some created.kind then
    some (.error (.kindChanged created.node), self)
  else if parent.any (self.descendsFrom · ix) then some (.error (.cycle created.node), self)
  else do
    let unlinked ← self.unlink ix
    let linked ← unlinked.link ix parent before
    return (.ok .moved, linked)

/-- Put a node into a slot that was taken. -/
def fill (ix : SlotIx) (created : Created) : Arena :=
  { self.modify ix ({ · with held := some created }) with
    census := Function.update self.census created.kind (counted (self.census created.kind)) }

/-- Hang a new node, if there is a slot for it. -/
def make (created : Created) (parent before : Option SlotIx) :
    Option (Except Refusal Hung × Arena) :=
  match self.takeFree with
  | none => some (.error .capacity, self)
  | some (ix, taken) => do
      let linked ← (taken.fill ix created).link ix parent before
      return (.ok .created, linked)

/-- Create a node, or move it with what is under it. -/
def hang (created : Created) (place : CreateNode) : Option (Except Refusal Hung × Arena) :=
  if created.node ≠ place.node ∨ created.kind.wire ≠ place.kind then
    some (.error .mismatched, self)
  else if place.before = created.node then some (.error (.notASibling place.before), self)
  else
    match self.placeUnder place.parent with
    | .error refusal => some (.error refusal, self)
    | .ok parent =>
      match self.placeBefore parent place.before with
      | .error refusal => some (.error refusal, self)
      | .ok before =>
        match self.find created.node with
        | some ix => self.move created ix parent before
        | none => self.make created parent before

/-- Store a record with the node it names. -/
def store (node : UInt32) (change : Slot → Slot) : Except Refusal Unit × Arena :=
  match self.find node with
  | none => (.error (.noSuchNode node), self)
  | some ix => (.ok (), self.modify ix change)

/-- Give a node its transform. -/
def setTransform (record : SetTransform) : Except Refusal Unit × Arena :=
  self.store record.node ({ · with transform := some record })

/-- Give a node its path. -/
def setPath (record : SetPath) : Except Refusal Unit × Arena :=
  self.store record.node ({ · with path := some record })

/-- Give a node its paint. -/
def setPaint (record : SetPaint) : Except Refusal Unit × Arena :=
  self.store record.node ({ · with paint := some record })

/-- An effect changes nothing in the arena. -/
def setEffect (record : SetEffect) : Except Refusal Unit × Arena :=
  self.store record.node id

/-- Move a list of siblings, one by one, onto the front of the work list. -/
def pushChildren : Nat → Arena → Option SlotIx → Option SlotIx →
    Option (Arena × Option SlotIx)
  | _, self, pending, none => some (self, pending)
  | 0, _, _, some _ => none
  | fuel + 1, self, pending, some one =>
    pushChildren fuel (self.setNext one pending) (some one) (self.slots one).next

/-- Give back the slots of the work list and of everything under them. -/
def tearDown (removal : Removal) : Nat → Arena → Option SlotIx → Nat → Option (Nat × Arena)
  | _, self, none, gone => some (gone, self)
  | 0, _, some _, _ => none
  | fuel + 1, self, some one, gone => do
      let (pushed, pending) ←
        pushChildren nodesMax self (self.slots one).next (self.slots one).firstChild
      let (kind, released) := pushed.release one removal
      tearDown removal fuel released pending (if kind.isSome then gone + 1 else gone)

/-- Remove a node and what is under it; the answer is how many nodes went. -/
def remove (removal : Removal) : Option (Except Refusal Nat × Arena) :=
  match self.find removal.root with
  | none => some (.error (.noSuchNode removal.root), self)
  | some root => do
      let unlinked ← self.unlink root
      let (gone, torn) ← tearDown removal nodesMax unlinked (some root) 0
      return (.ok gone, torn)

/-- Apply a delta. -/
def apply (delta : Delta) : Option (Except Refusal Applied × Arena) :=
  match Change.of delta with
  | .error refusal => some (.error (.wire refusal), self)
  | .ok change =>
    match delta.body with
    | .createNode place =>
      match change with
      | .created created =>
        (self.hang created place).map fun (result, after) => (result.map .hung, after)
      | .removed _ | .untouched => some (.error .mismatched, self)
    | .removeNode _ =>
      match change with
      | .removed removal =>
        (self.remove removal).map fun (result, after) => (result.map .removed, after)
      | .created _ | .untouched => some (.error .mismatched, self)
    | .setTransform record =>
      let (result, after) := self.setTransform record
      some (result.map fun _ => .set record.node, after)
    | .setPath record =>
      let (result, after) := self.setPath record
      some (result.map fun _ => .set record.node, after)
    | .setPaint record =>
      let (result, after) := self.setPaint record
      some (result.map fun _ => .set record.node, after)
    | .setEffect record =>
      let (result, after) := self.setEffect record
      some (result.map fun _ => .set record.node, after)
    | .commit commit => some (.ok (.closes commit.frameToken), self)

/-- Apply deltas one after the other, whether they are accepted or refused. -/
def applyAll (self : Arena) : List Delta → Option Arena
  | [] => some self
  | delta :: rest => (self.apply delta).bind fun (_, after) => after.applyAll rest

end Arena

end FSystem.Scene
