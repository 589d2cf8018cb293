import FSystem.Hash.Sha256

/-!
# The store's on-disk records

The superblock, the blob header, the two list heads and the root record, with
their byte encodings, and the refusals every layer above answers with.
-/

namespace FSystem.Abi

open Hash Bytes

/-- The refusals of the store's interface. -/
inductive Refusal
  | malformed
  | unknown
  | address
  | full
  | shortBuffer
  | content
  deriving DecidableEq

/-- What a blob's content is. -/
inductive Kind
  | chunk
  | object
  | extent
  | generation
  deriving DecidableEq

namespace Kind

/-- The number a kind has on disk. -/
def code : Kind → UInt16
  | chunk => 1
  | object => 2
  | extent => 3
  | generation => 4

/-- The kind a number on disk names. -/
def ofCode (value : UInt16) : Option Kind :=
  if value = 1 then some chunk
  else if value = 2 then some object
  else if value = 3 then some extent
  else if value = 4 then some generation
  else none

@[simp] theorem ofCode_code (kind : Kind) : ofCode kind.code = some kind := by
  cases kind <;> decide

end Kind

/-- The magic number of a superblock. -/
def superblockMagic : UInt32 := 0x42535f46

/-- The magic number of a blob header. -/
def blobMagic : UInt32 := 0x48425f46

/-- The magic number of a root record. -/
def rootMagic : UInt32 := 0x52525f46

/-- The schema this build writes and reads. -/
def schema : UInt32 := 1

/-- The most chunks one object names. -/
def chunksMax : Nat := 2 ^ 20

/-- The most pieces one extent names. -/
def piecesMax : Nat := 2 ^ 20

/-- Two little-endian bytes at an offset. -/
def short (raw : Bytes) (offset : Nat) : UInt16 :=
  UInt16.ofNat (toNat (slice raw offset 2))

/-- Four little-endian bytes at an offset. -/
def word (raw : Bytes) (offset : Nat) : UInt32 :=
  UInt32.ofNat (toNat (slice raw offset 4))

/-- Eight little-endian bytes at an offset. -/
def long (raw : Bytes) (offset : Nat) : UInt64 :=
  UInt64.ofNat (toNat (slice raw offset 8))

/-- Thirty-two bytes at an offset. -/
def digest (raw : Bytes) (offset : Nat) : Digest :=
  Digest.ofBytes (slice raw offset 32)

/-- The bytes of a 16-bit field. -/
def shortBytes (value : UInt16) : Bytes := ofNat 2 value.toNat

/-- The bytes of a 32-bit field. -/
def wordBytes (value : UInt32) : Bytes := ofNat 4 value.toNat

/-- The bytes of a 64-bit field. -/
def longBytes (value : UInt64) : Bytes := ofNat 8 value.toNat

@[simp] theorem length_shortBytes (value : UInt16) :
    (shortBytes value).length = 2 := by simp [shortBytes]

@[simp] theorem length_wordBytes (value : UInt32) :
    (wordBytes value).length = 4 := by simp [wordBytes]

@[simp] theorem length_longBytes (value : UInt64) :
    (longBytes value).length = 8 := by simp [longBytes]

@[simp] theorem ofNat_toNat_shortBytes (value : UInt16) :
    UInt16.ofNat (toNat (shortBytes value)) = value := by
  rw [shortBytes, toNat_ofNat _ _ value.toNat_lt]
  exact UInt16.ofNat_toNat

@[simp] theorem ofNat_toNat_wordBytes (value : UInt32) :
    UInt32.ofNat (toNat (wordBytes value)) = value := by
  rw [wordBytes, toNat_ofNat _ _ value.toNat_lt]
  exact UInt32.ofNat_toNat

@[simp] theorem ofNat_toNat_longBytes (value : UInt64) :
    UInt64.ofNat (toNat (longBytes value)) = value := by
  rw [longBytes, toNat_ofNat _ _ value.toNat_lt]
  exact UInt64.ofNat_toNat

section Field

variable {raw : Bytes} {offset : Nat}

/-- A 16-bit field is encoded by the bytes it was decoded from. -/
theorem shortBytes_short (inside : offset + 2 ≤ raw.length) :
    shortBytes (short raw offset) = slice raw offset 2 := by
  have width := length_slice raw offset 2 inside
  have small := toNat_lt (slice raw offset 2)
  rw [width] at small
  have read : (UInt16.ofNat (toNat (slice raw offset 2))).toNat =
      toNat (slice raw offset 2) := UInt16.toNat_ofNat_of_lt small
  rw [shortBytes, short, read, ofNat_toNat _ _ width]

/-- A 32-bit field is encoded by the bytes it was decoded from. -/
theorem wordBytes_word (inside : offset + 4 ≤ raw.length) :
    wordBytes (word raw offset) = slice raw offset 4 := by
  have width := length_slice raw offset 4 inside
  have small := toNat_lt (slice raw offset 4)
  rw [width] at small
  have read : (UInt32.ofNat (toNat (slice raw offset 4))).toNat =
      toNat (slice raw offset 4) := UInt32.toNat_ofNat_of_lt small
  rw [wordBytes, word, read, ofNat_toNat _ _ width]

/-- A 64-bit field is encoded by the bytes it was decoded from. -/
theorem longBytes_long (inside : offset + 8 ≤ raw.length) :
    longBytes (long raw offset) = slice raw offset 8 := by
  have width := length_slice raw offset 8 inside
  have small := toNat_lt (slice raw offset 8)
  rw [width] at small
  have read : (UInt64.ofNat (toNat (slice raw offset 8))).toNat =
      toNat (slice raw offset 8) := UInt64.toNat_ofNat_of_lt small
  rw [longBytes, long, read, ofNat_toNat _ _ width]

/-- A digest is encoded by the bytes it was decoded from. -/
theorem digest_bytes (inside : offset + 32 ≤ raw.length) :
    (digest raw offset).bytes = slice raw offset 32 := by
  have width := length_slice raw offset 32 inside
  simp only [digest, Digest.ofBytes]
  rw [List.take_append_of_le_length (by omega), List.take_of_length_le (by omega)]

end Field

theorem shortBytes_injective {first second : UInt16}
    (same : shortBytes first = shortBytes second) : first = second := by
  rw [← ofNat_toNat_shortBytes first, same, ofNat_toNat_shortBytes]

/-- Every record opens with its magic and its own length. -/
def prologue (raw : Bytes) (magic : UInt32) (bytes : Nat) : Except Refusal Unit :=
  if raw.length < 8 ∨ word raw 0 ≠ magic ∨ (word raw 4).toNat ≠ bytes then
    .error .malformed
  else
    .ok ()

/-- A record that opens with its magic and its length passes the prologue. -/
theorem prologue_ok (magic : UInt32) (bytes : Nat) (rest : Bytes) (fits : bytes < 2 ^ 32) :
    prologue (wordBytes magic ++ (wordBytes (UInt32.ofNat bytes) ++ rest))
      magic bytes = .ok () := by
  have lengthRead : (UInt32.ofNat bytes).toNat = bytes := UInt32.toNat_ofNat_of_lt fits
  rw [prologue, if_neg]
  simp (disch := simp) only [word, slice_append_head,
    slice_append_right, length_wordBytes, Nat.sub_self,
    ofNat_toNat_wordBytes, lengthRead, ne_eq, not_true_eq_false, or_false,
    List.length_append]
  omega

/-- The device's geometry and the chunker's identity. -/
structure Superblock where
  schema : UInt32
  blockBytes : UInt32
  zones : UInt32
  rootZoneA : UInt32
  rootZoneB : UInt32
  chunkMinBytes : UInt32
  chunkTargetBytes : UInt32
  chunkMaxBytes : UInt32
  maskBits : UInt32
  zoneBytes : UInt64
  gearLabel : UInt64
  maskLabel : UInt64
  deriving DecidableEq

namespace Superblock

/-- The encoded length. -/
def bytes : Nat := 68

/-- The superblock, as the device holds it. -/
def toBytes (self : Superblock) : Bytes :=
  wordBytes superblockMagic ++ (wordBytes (UInt32.ofNat bytes) ++
    (wordBytes self.schema ++ (wordBytes self.blockBytes ++
    (wordBytes self.zones ++ (wordBytes self.rootZoneA ++
    (wordBytes self.rootZoneB ++ (wordBytes self.chunkMinBytes ++
    (wordBytes self.chunkTargetBytes ++ (wordBytes self.chunkMaxBytes ++
    (wordBytes self.maskBits ++ (longBytes self.zoneBytes ++
    (longBytes self.gearLabel ++ longBytes self.maskLabel))))))))))))

/-- Decode a superblock, refusing a foreign schema and a zero block size. -/
def fromBytes (raw : Bytes) : Except Refusal Superblock :=
  match prologue raw superblockMagic bytes with
  | .error refusal => .error refusal
  | .ok () =>
    if word raw 8 ≠ Abi.schema then .error .unknown
    else if word raw 12 = 0 then .error .malformed
    else .ok {
      schema := word raw 8
      blockBytes := word raw 12
      zones := word raw 16
      rootZoneA := word raw 20
      rootZoneB := word raw 24
      chunkMinBytes := word raw 28
      chunkTargetBytes := word raw 32
      chunkMaxBytes := word raw 36
      maskBits := word raw 40
      zoneBytes := long raw 44
      gearLabel := long raw 52
      maskLabel := long raw 60 }

end Superblock

/-- What stands in front of a blob's content. -/
structure Header where
  kind : Kind
  flags : UInt16
  contentBytes : UInt64
  hash : Digest
  deriving DecidableEq

namespace Header

/-- The encoded length. -/
def bytes : Nat := 52

/-- The header, as the device holds it. -/
def toBytes (self : Header) : Bytes :=
  wordBytes blobMagic ++ (wordBytes (UInt32.ofNat bytes) ++
    (shortBytes self.kind.code ++ (shortBytes self.flags ++
    (longBytes self.contentBytes ++ self.hash.bytes))))

/-- Decode a header, refusing a kind or a flag this build does not know. -/
def fromBytes (raw : Bytes) : Except Refusal Header :=
  match prologue raw blobMagic bytes with
  | .error refusal => .error refusal
  | .ok () =>
    match Kind.ofCode (short raw 8) with
    | none => .error .unknown
    | some kind =>
      if short raw 10 ≠ 0 then .error .unknown
      else .ok {
        kind := kind
        flags := short raw 10
        contentBytes := long raw 12
        hash := digest raw 20 }

@[simp] theorem length_toBytes (self : Header) : self.toBytes.length = bytes := by
  simp [toBytes, bytes, self.hash.length_eq]

/-- A header without flags survives the encoding. -/
theorem fromBytes_toBytes (self : Header) (plain : self.flags = 0) :
    fromBytes self.toBytes = .ok self := by
  have opened := fun rest => prologue_ok blobMagic bytes rest (by decide)
  simp (disch := simp [Digest.length_eq]) [fromBytes, toBytes,
    opened, short, long, digest, slice_append_head,
    slice_append_right, slice_all, plain]
  rw [← plain]

end Header

/-- The head of an object's content: its length and how many chunks follow. -/
structure ObjectHead where
  objectBytes : UInt64
  chunks : UInt32
  deriving DecidableEq

/-- The head of an extent's content: its length and how many pieces follow. -/
structure ExtentHead where
  extentBytes : UInt64
  pieces : UInt32
  deriving DecidableEq

/-- The bytes in front of an object's or an extent's list of hashes. -/
def headBytes : Nat := 12

/-- Both list heads are a length, then a bounded count; only both together may be zero. -/
def headFromBytes (raw : Bytes) (most : Nat) : Except Refusal (UInt64 × UInt32) :=
  if most < (word raw 8).toNat then .error .unknown
  else if (long raw 0 == 0) != (word raw 8 == 0) then .error .malformed
  else .ok (long raw 0, word raw 8)

/-- A head with a count in bounds, and no length without one, is decoded to itself. -/
theorem headFromBytes_encoded
    {length : UInt64}
    {count : UInt32}
    {most : Nat}
    (few : count.toNat ≤ most)
    (both : length = 0 ↔ count = 0) :
    headFromBytes (longBytes length ++ wordBytes count) most = .ok (length, count) := by
  have lengthRead : long (longBytes length ++ wordBytes count) 0 = length := by
    rw [long, slice_append_head _ _ _ (length_longBytes length), ofNat_toNat_longBytes]
  have countRead : word (longBytes length ++ wordBytes count) 8 = count := by
    rw [word, slice_append_right _ _ _ _ (by simp), length_longBytes,
      slice_all _ _ (length_wordBytes count), ofNat_toNat_wordBytes]
  have agree : ((length == 0) != (count == 0)) = false := by
    rw [bne_eq_false_iff_eq, Bool.eq_iff_iff, beq_iff_eq, beq_iff_eq]
    exact both
  rw [headFromBytes, lengthRead, countRead, if_neg (Nat.not_lt.mpr few), agree,
    if_neg Bool.false_ne_true]

namespace ObjectHead

/-- The bytes of an object's content: the head, then its hashes. -/
def bytes (self : ObjectHead) : Nat := headBytes + self.chunks.toNat * 32

/-- The head, as the content holds it. -/
def toBytes (self : ObjectHead) : Bytes :=
  longBytes self.objectBytes ++ wordBytes self.chunks

/-- Decode an object's head. -/
def fromBytes (raw : Bytes) : Except Refusal ObjectHead :=
  match headFromBytes raw chunksMax with
  | .error refusal => .error refusal
  | .ok (objectBytes, chunks) => .ok ⟨objectBytes, chunks⟩

end ObjectHead

namespace ExtentHead

/-- The bytes of an extent's content: the head, then its hashes. -/
def bytes (self : ExtentHead) : Nat := headBytes + self.pieces.toNat * 32

/-- The head, as the content holds it. -/
def toBytes (self : ExtentHead) : Bytes :=
  longBytes self.extentBytes ++ wordBytes self.pieces

/-- Decode an extent's head. -/
def fromBytes (raw : Bytes) : Except Refusal ExtentHead :=
  match headFromBytes raw piecesMax with
  | .error refusal => .error refusal
  | .ok (extentBytes, pieces) => .ok ⟨extentBytes, pieces⟩

end ExtentHead

/-- What a publish appends: the generation, its root, and a check over both. -/
structure RootRecord where
  generation : UInt64
  root : Digest
  frame : Digest
  module : Digest
  previous : Digest
  check : Digest
  deriving DecidableEq

namespace RootRecord

/-- The encoded length. -/
def bytes : Nat := 176

/-- How many of those bytes the check covers. -/
def checkedBytes : Nat := 144

variable (self : RootRecord)

/-- The bytes the check is computed over. -/
def checked : Bytes :=
  wordBytes rootMagic ++ (wordBytes (UInt32.ofNat bytes) ++
    (longBytes self.generation ++ (self.root.bytes ++
    (self.frame.bytes ++ (self.module.bytes ++ self.previous.bytes)))))

/-- The record, as a root zone holds it. -/
def toBytes : Bytes := self.checked ++ self.check.bytes

/-- Decode a record against the check computed over its bytes. -/
def fromBytes (raw : Bytes) (computed : Digest) : Except Refusal RootRecord :=
  match prologue raw rootMagic bytes with
  | .error refusal => .error refusal
  | .ok () =>
    if slice raw checkedBytes 32 ≠ computed.bytes then .error .malformed
    else if long raw 8 = 0 then .error .malformed
    else .ok {
      generation := long raw 8
      root := digest raw 16
      frame := digest raw 48
      module := digest raw 80
      previous := digest raw 112
      check := digest raw 144 }

@[simp] theorem length_checked : self.checked.length = checkedBytes := by
  simp [checked, checkedBytes, Digest.length_eq]

@[simp] theorem length_toBytes : self.toBytes.length = bytes := by
  simp [toBytes, bytes, checkedBytes, Digest.length_eq]

/-- A record of a generation survives the encoding, given its own check. -/
theorem fromBytes_toBytes (numbered : self.generation ≠ 0) :
    fromBytes self.toBytes self.check = .ok self := by
  have opened := fun rest => prologue_ok rootMagic bytes rest (by decide)
  simp (disch := simp [Digest.length_eq]) [fromBytes, toBytes, checked,
    opened, checkedBytes, long, digest, slice_append_head,
    slice_append_right, slice_all, numbered, Digest.length_eq]

/-- A record is encoded by the bytes it was decoded from. -/
theorem toBytes_fromBytes
    {raw : Bytes}
    {computed : Digest}
    {record : RootRecord}
    (width : raw.length = bytes)
    (ok : fromBytes raw computed = .ok record) :
    record.toBytes = raw := by
  revert ok
  fun_cases fromBytes raw computed with
  | case4 opens _ _ =>
    rintro ⟨⟩
    unfold bytes at width
    rw [prologue] at opens
    split at opens
    · cases opens
    rename_i opened
    simp only [not_or, not_not] at opened
    have length : UInt32.ofNat bytes = word raw 4 := by
      rw [← opened.2.2, UInt32.ofNat_toNat]
    rw [toBytes, checked, ← opened.2.1, length]
    simp (disch := omega) only [wordBytes_word, longBytes_long, digest_bytes, List.append_assoc]
    rw [slice_append_slice raw 112 32 32, slice_append_slice raw 80 32 64,
      slice_append_slice raw 48 32 96, slice_append_slice raw 16 32 128,
      slice_append_slice raw 8 8 160, slice_append_slice raw 4 4 168,
      slice_append_slice raw 0 4 172]
    exact slice_all _ _ width
  | _ => nofun

end RootRecord

end FSystem.Abi
