import FSystem.Abi.Records

/-!
# The semantic wire

A semantic channel carries submission entries, each with a payload of one width.  The first
entry agrees a version of the vocabulary; the others declare nodes, set what nodes hold,
remove them, and commit a frame.  An entry decodes only if every field its opcode does not
read is zero and every ordinal it carries is one the agreed vocabulary names.
-/

namespace FSystem.Semantic

open Abi

/-- A submission entry of a ring. -/
structure Sqe where
  opcode : UInt8
  flags : UInt8
  classField : UInt16
  cap : UInt32
  userData : UInt64
  deadline : UInt64
  offset : UInt64
  bufSet : UInt32
  bufIndex : UInt32
  len : UInt32
  reserved : UInt32
  ext : UInt64 × UInt64
  deriving DecidableEq

/-- The width of every payload. -/
def payloadBytes : Nat := 56

/-- The payload of an entry. -/
@[ext] structure Payload where
  bytes : Bytes
  width : bytes.length = payloadBytes
  deriving DecidableEq

/-- The identifier that names no node. -/
def noNode : UInt64 := 0

/-- The most relations one entry sets. -/
def relationsMax : Nat := 4

/-- The flag that asks for no completion, the only one an entry may carry. -/
def flagsAccepted : UInt8 := 8

/-- The newest vocabulary this build speaks. -/
def vocabularyVersion : UInt16 := 1

/-- The oldest vocabulary this build speaks. -/
def vocabularyVersionMin : UInt16 := 1

/-- The closed sets whose ordinals cross the wire. -/
inductive Closed
  | role
  | relation
  | content
  deriving DecidableEq

/-- Why an entry is not believed. -/
inductive Refusal
  | unknownOpcode
  | unknownFlag
  | reserved
  | malformed
  | value
  | noNode
  | unnamed (field : Closed) (ordinal : UInt16)
  | unknownState (bits : UInt8)
  | notNegotiated
  | renegotiated
  | versionUnsupported (offered : UInt16)
  deriving DecidableEq

/-- A version both sides speak. -/
structure Agreed where
  version : UInt16
  deriving DecidableEq

/-- State bits a vocabulary admitted. -/
structure StateBits where
  bits : UInt8
  deriving DecidableEq

/-- An ordinal of one of the closed sets that a vocabulary admitted. -/
structure Ordinal (field : Closed) where
  ordinal : UInt16
  deriving DecidableEq

/-- What a receiver knows of the vocabulary. -/
structure Vocabulary where
  names : Closed → UInt16 → Agreed → Bool
  stateBits : Agreed → UInt8

namespace Agreed

/-- Admit state bits the vocabulary knows. -/
def admitState (self : Agreed) (bits : UInt8) (vocabulary : Vocabulary) :
    Except Refusal StateBits :=
  if bits &&& ~~~(vocabulary.stateBits self) = 0 then .ok ⟨bits⟩ else .error (.unknownState bits)

/-- Admit an ordinal the vocabulary names. -/
def admitOrdinal (field : Closed) (self : Agreed) (ordinal : UInt16) (vocabulary : Vocabulary) :
    Except Refusal (Ordinal field) :=
  if vocabulary.names field ordinal self then .ok ⟨ordinal⟩ else .error (.unnamed field ordinal)

def admitRole := admitOrdinal .role
def admitRelation := admitOrdinal .relation
def admitContent := admitOrdinal .content

end Agreed

/-- A peer's offer: the newest version it speaks and the oldest. -/
structure Handshake where
  highest : UInt16
  floor : UInt16
  deriving DecidableEq

/-- The newest version both sides speak. -/
def Handshake.negotiate (self : Handshake) : Except Refusal Agreed :=
  if self.floor > self.highest then .error .malformed
  else
    let version := if self.highest < vocabularyVersion then self.highest else vocabularyVersion
    if version < self.floor ∨ version < vocabularyVersionMin then
      .error (.versionUnsupported vocabularyVersion)
    else .ok ⟨version⟩

section Reading

/-- A pass over a payload: the bytes, and how many have been read. -/
abbrev Reader := ReaderT Bytes (StateT Nat (Except Refusal))

namespace Reader

/-- Move past some bytes, and answer where they began. -/
def take (bytes : Nat) : Reader Nat := do
  let start ← get
  set (start + bytes)
  return start

/-- The next little-endian number of some width. -/
def number (width : Nat) : Reader Nat := do
  let start ← take width
  return Bytes.toNat (Bytes.slice (← read) start width)

def u8 : Reader UInt8 := UInt8.ofNat <$> number 1
def u16 : Reader UInt16 := UInt16.ofNat <$> number 2
def u32 : Reader UInt32 := UInt32.ofNat <$> number 4
def u64 : Reader UInt64 := UInt64.ofNat <$> number 8

/-- What is left of the payload is zero. -/
def finish : Reader Unit := do
  if ((← read).drop (← get)).any (· ≠ 0) then throw .reserved

end Reader

/-- What admits a record: the agreement, if there is one, and the vocabulary. -/
structure Admission where
  agreement : Option Agreed
  vocabulary : Vocabulary

/-- The agreement, which every ordinal needs. -/
def Admission.agreed (self : Admission) : Reader Agreed :=
  match self.agreement with
  | none => throw .notNegotiated
  | some agreed => return agreed

/-- A check that is not a read. -/
def check (result : Except Refusal α) : Reader α :=
  match result with
  | .error refusal => throw refusal
  | .ok value => return value

end Reading

/-- Read a handshake. -/
def Handshake.read : Reader Handshake := do
  let highest ← Reader.u16
  let floor ← Reader.u16
  if highest = 0 ∨ floor > highest then throw .malformed
  return ⟨highest, floor⟩

/-- Declare a node under a parent, before a sibling or last. -/
structure DeclareNode where
  node : UInt64
  parent : UInt64
  before : UInt64
  role : Ordinal .role
  intent : UInt32
  deriving DecidableEq

variable (admission : Admission)

/-- Read a declaration. -/
def DeclareNode.read : Reader DeclareNode := do
  let node ← Reader.u64
  let parent ← Reader.u64
  let before ← Reader.u64
  let ordinal ← Reader.u16
  let intent ← Reader.u32
  if node = noNode then throw .noNode
  if parent = node ∨ before = node then throw .value
  let role ← check ((← admission.agreed).admitRole ordinal admission.vocabulary)
  return ⟨node, parent, before, role, intent⟩

/-- Say how a node stands. -/
structure SetState where
  node : UInt64
  state : StateBits
  deriving DecidableEq

/-- Read a state. -/
def SetState.read : Reader SetState := do
  let node ← Reader.u64
  let bits ← Reader.u8
  if node = noNode then throw .noNode
  let state ← check ((← admission.agreed).admitState bits admission.vocabulary)
  return ⟨node, state⟩

/-- Say what a node holds. -/
structure SetContent where
  node : UInt64
  kind : Ordinal .content
  bodyOffset : UInt32
  bodyLen : UInt32
  deriving DecidableEq

/-- Read a content. -/
def SetContent.read : Reader SetContent := do
  let node ← Reader.u64
  let ordinal ← Reader.u16
  let bodyOffset ← Reader.u32
  let bodyLen ← Reader.u32
  if node = noNode then throw .noNode
  let kind ← check ((← admission.agreed).admitContent ordinal admission.vocabulary)
  return ⟨node, kind, bodyOffset, bodyLen⟩

/-- An edge of a kind to another node. -/
structure Edge where
  kind : Ordinal .relation
  target : UInt64
  deriving DecidableEq

/-- Say which nodes a node is related to. -/
structure SetRelations where
  node : UInt64
  edges : List Edge
  deriving DecidableEq

/-- The next edges of a node. -/
def SetRelations.readEdges (node : UInt64) (agreed : Agreed) (admission : Admission) :
    Nat → Reader (List Edge)
  | 0 => return []
  | count + 1 => do
      let ordinal ← Reader.u16
      let target ← Reader.u64
      if target = noNode then throw .noNode
      if target = node then throw .value
      let kind ← check (agreed.admitRelation ordinal admission.vocabulary)
      let rest ← readEdges node agreed admission count
      return ⟨kind, target⟩ :: rest

/-- Read relations. -/
def SetRelations.read : Reader SetRelations := do
  let node ← Reader.u64
  let count ← Reader.u16
  if node = noNode then throw .noNode
  if count.toNat > relationsMax then throw .value
  let edges ← readEdges node (← admission.agreed) admission count.toNat
  return ⟨node, edges⟩

/-- Remove a node and what is under it. -/
structure Remove where
  node : UInt64
  deriving DecidableEq

/-- Read a removal. -/
def Remove.read : Reader Remove := do
  let node ← Reader.u64
  if node = noNode then throw .noNode
  return ⟨node⟩

/-- Close a frame. -/
structure Commit where
  frameToken : UInt64
  deriving DecidableEq

/-- Read a commit. -/
def Commit.read : Reader Commit := do
  let frameToken ← Reader.u64
  if frameToken = 0 then throw .value
  return ⟨frameToken⟩

/-- The seven opcodes. -/
inductive Op
  | declareVocabulary
  | declareNode
  | setState
  | setContent
  | setRelations
  | remove
  | commit
  deriving DecidableEq

namespace Op

/-- An operation on the wire. -/
def code : Op → UInt8
  | declareVocabulary => 0x01
  | declareNode => 0x02
  | setState => 0x03
  | setContent => 0x04
  | setRelations => 0x05
  | remove => 0x06
  | commit => 0x07

/-- The opcode a number stands for. -/
def ofCode (code : UInt8) : Option Op :=
  [declareVocabulary, declareNode, setState, setContent, setRelations, remove, commit].find?
    (·.code = code)

/-- Whether a number is the opcode that agrees the vocabulary; none for no opcode. -/
def isHandshake (code : UInt8) : Option Bool :=
  (ofCode code).map (· = declareVocabulary)

end Op

/-- What an entry says. -/
inductive Entry
  | declareVocabulary (handshake : Handshake)
  | declareNode (declare : DeclareNode)
  | setState (set : SetState)
  | setContent (set : SetContent)
  | setRelations (set : SetRelations)
  | remove (remove : Remove)
  | commit (commit : Commit)
  deriving DecidableEq

namespace Entry

/-- The operation of an entry. -/
def op : Entry → Op
  | declareVocabulary _ => .declareVocabulary
  | declareNode _ => .declareNode
  | setState _ => .setState
  | setContent _ => .setContent
  | setRelations _ => .setRelations
  | remove _ => .remove
  | commit _ => .commit

/-- An entry's opcode. -/
def opcode (self : Entry) : UInt8 := self.op.code

/-- The reader of an opcode's record. -/
def record : Op → Reader Entry
  | .declareVocabulary => declareVocabulary <$> Handshake.read
  | .declareNode => declareNode <$> DeclareNode.read admission
  | .setState => setState <$> SetState.read admission
  | .setContent => setContent <$> SetContent.read admission
  | .setRelations => setRelations <$> SetRelations.read admission
  | .remove => remove <$> Remove.read
  | .commit => commit <$> Commit.read

/-- Read a record, and then nothing but zeros. -/
def fromPayload (op : Op) : Reader Entry := do
  let value ← record admission op
  Reader.finish
  return value

/-- Decode a payload under the opcode of its entry. -/
def read (opcode : UInt8) (payload : Payload) (admission : Admission) : Except Refusal Entry :=
  match Op.ofCode opcode with
  | none => .error .unknownOpcode
  | some op =>
    if op = .declareVocabulary ∧ admission.agreement.isSome then .error .renegotiated
    else if op ≠ .declareVocabulary ∧ admission.agreement.isNone then .error .notNegotiated
    else ((fromPayload admission op).run payload.bytes).run' 0

end Entry

/-- The rules of an envelope, before its payload is read. -/
def envelopeRules (opcode flags : UInt8) : Except Refusal Unit :=
  match Op.isHandshake opcode with
  | none => .error .unknownOpcode
  | some handshake =>
    if flags &&& ~~~flagsAccepted ≠ 0 then .error .unknownFlag
    else if handshake ∧ flags &&& flagsAccepted ≠ 0 then .error .malformed
    else .ok ()

/-- A decoded entry. -/
structure Delta where
  userData : UInt64
  classField : UInt16
  payloadOffset : UInt32
  flags : UInt8
  body : Entry
  deriving DecidableEq

namespace Delta

/-- The one envelope that carries a delta. -/
def envelope (self : Delta) : Sqe where
  opcode := self.body.opcode
  flags := self.flags
  classField := self.classField
  cap := 0
  userData := self.userData
  deadline := 0
  offset := self.payloadOffset.toUInt64
  bufSet := 0
  bufIndex := 0
  len := UInt32.ofNat payloadBytes
  reserved := 0
  ext := (0, 0)

/-- Decode an entry and its payload. -/
def decode (entry : Sqe) (payload : Payload) (agreement : Option Agreed)
    (vocabulary : Vocabulary) : Except Refusal Delta :=
  match envelopeRules entry.opcode entry.flags with
  | .error refusal => .error refusal
  | .ok () =>
    if entry.len.toNat ≠ payloadBytes then .error .malformed
    else if entry.offset.toNat > 2 ^ 32 - 1 then .error .malformed
    else
      match Entry.read entry.opcode payload ⟨agreement, vocabulary⟩ with
      | .error refusal => .error refusal
      | .ok body =>
        let delta : Delta :=
          ⟨entry.userData, entry.classField, entry.offset.toUInt32, entry.flags, body⟩
        if delta.envelope ≠ entry then .error .reserved else .ok delta

section

variable {entry : Sqe} {payload : Payload} {agreement : Option Agreed} {vocabulary : Vocabulary}
  {delta : Delta} (ok : decode entry payload agreement vocabulary = .ok delta)

include ok

/-- A delta is decoded only from the entry it would be carried by. -/
theorem envelope_of_decode : delta.envelope = entry := by
  revert ok
  fun_cases decode with
  | case6 _ _ _ _ _ _ same =>
    intro ok
    obtain rfl := Except.ok.inj ok
    exact not_not.mp same
  | _ => nofun

/-- A decoded entry is a commit exactly if its opcode says so. -/
theorem isCommit_of_decode : delta.body.op = .commit ↔ entry.opcode = Op.commit.code := by
  rw [← envelope_of_decode ok]
  change _ ↔ delta.body.op.code = _
  cases delta.body.op <;> decide

end

end Delta

end FSystem.Semantic
