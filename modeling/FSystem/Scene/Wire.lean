import Mathlib.Logic.Function.Basic

/-!
# The scene wire

A client edits a scene with submission entries, each with a payload of one width: entries
that create or re-hang a node, set what a node is drawn with, remove a node, and close a
frame.  A decoded entry is a delta; its envelope is checked again where it is applied.
-/

namespace FSystem.Scene

/-- The identifier that names no node. -/
def noNode : UInt32 := 0

/-- The deadline of an entry that carries none. -/
def noDeadline : UInt64 := 0

/-- The flag that asks for no completion, the only one a delta may carry. -/
def flagsAccepted : UInt8 := 8

/-- Why an entry is not believed. -/
inductive WireRefusal
  | unknownOpcode
  | unknownFlag
  | reserved
  | malformed
  | value
  | noNode
  | notScheduled
  deriving DecidableEq

/-- What a node is. -/
inductive Kind
  | transform
  | clip
  | layer
  | draw
  | effect
  | semantic
  deriving DecidableEq

namespace Kind

/-- A kind on the wire. -/
def wire : Kind → UInt16
  | transform => 1
  | clip => 2
  | layer => 3
  | draw => 4
  | effect => 5
  | semantic => 6

/-- Every kind. -/
def all : List Kind := [transform, clip, layer, draw, effect, semantic]

/-- The kind a number stands for. -/
def fromWire (raw : UInt16) : Option Kind := all.find? (·.wire = raw)

theorem fromWire_eq_some {raw : UInt16} {kind : Kind} :
    fromWire raw = some kind ↔ kind.wire = raw := by
  constructor
  · intro found
    simpa using List.find?_some found
  · rintro rfl
    cases kind <;> rfl

end Kind

/-- Create a node under a parent, before a sibling or last, or re-hang it there. -/
structure CreateNode where
  node : UInt32
  parent : UInt32
  before : UInt32
  kind : UInt16
  deriving DecidableEq

/-- Place a node and what is under it. -/
structure SetTransform where
  node : UInt32
  aX65536 : Int64
  bX65536 : Int64
  cX65536 : Int64
  dX65536 : Int64
  txX65536 : Int64
  tyX65536 : Int64
  deriving DecidableEq

/-- Give a node its outline. -/
structure SetPath where
  node : UInt32
  geometryOffset : UInt32
  geometryBytes : UInt32
  fillRule : UInt16
  deriving DecidableEq

/-- Give a node its colour and stroke. -/
structure SetPaint where
  node : UInt32
  redX65535 : UInt16
  greenX65535 : UInt16
  blueX65535 : UInt16
  alphaX65535 : UInt16
  strokeWidthX65536 : UInt32
  deriving DecidableEq

/-- Remove a node and what is under it. -/
structure RemoveNode where
  node : UInt32
  deriving DecidableEq

/-- Close a frame. -/
structure Commit where
  frameToken : UInt64
  deriving DecidableEq

/-- Declare what an effect costs, and what leaving it out saves. -/
structure SetEffect where
  node : UInt32
  estimateUsX100 : UInt32
  savingUsX100 : UInt32
  deriving DecidableEq

/-- The seven opcodes. -/
inductive Op
  | createNode
  | setTransform
  | setPath
  | setPaint
  | removeNode
  | commit
  | setEffect
  deriving DecidableEq

namespace Op

/-- An operation on the wire. -/
def code : Op → UInt8
  | createNode => 0x01
  | setTransform => 0x02
  | setPath => 0x03
  | setPaint => 0x04
  | removeNode => 0x05
  | commit => 0x06
  | setEffect => 0x07

/-- The opcode a number stands for. -/
def ofCode (code : UInt8) : Option Op :=
  [createNode, setTransform, setPath, setPaint, removeNode, commit, setEffect].find? (·.code = code)

/-- Whether entries of this opcode carry a deadline; none for no opcode at all. -/
def carriesDeadline (code : UInt8) : Option Bool := (ofCode code).map (· = commit)

end Op

/-- What an entry says. -/
inductive Entry
  | createNode (create : CreateNode)
  | setTransform (record : SetTransform)
  | setPath (record : SetPath)
  | setPaint (record : SetPaint)
  | removeNode (remove : RemoveNode)
  | commit (commit : Commit)
  | setEffect (record : SetEffect)
  deriving DecidableEq

namespace Entry

/-- The operation of an entry. -/
def op : Entry → Op
  | createNode _ => .createNode
  | setTransform _ => .setTransform
  | setPath _ => .setPath
  | setPaint _ => .setPaint
  | removeNode _ => .removeNode
  | commit _ => .commit
  | setEffect _ => .setEffect

/-- An entry's opcode. -/
def opcode (self : Entry) : UInt8 := self.op.code

end Entry

/-- The rules of an envelope, before its payload is read. -/
def envelopeRules (opcode flags : UInt8) (deadline : UInt64) : Except WireRefusal Unit :=
  match Op.carriesDeadline opcode with
  | none => .error .unknownOpcode
  | some scheduled =>
    if flags &&& ~~~flagsAccepted ≠ 0 then .error .unknownFlag
    else if scheduled then
      if deadline = noDeadline then .error .notScheduled else .ok ()
    else if deadline ≠ noDeadline then .error .reserved
    else .ok ()

/-- A decoded entry. -/
structure Delta where
  userData : UInt64
  classField : UInt16
  deadline : UInt64
  payloadOffset : UInt32
  flags : UInt8
  body : Entry
  deriving DecidableEq

namespace Delta

/-- A delta's opcode. -/
def opcode (self : Delta) : UInt8 := self.body.opcode

/-- The rules of the envelope. -/
def check (self : Delta) : Except WireRefusal Unit :=
  envelopeRules self.opcode self.flags self.deadline

end Delta

end FSystem.Scene
