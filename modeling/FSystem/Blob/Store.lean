import FSystem.Blob.Device
import FSystem.Blob.Chunk
import Std.Data.TreeMap

/-!
# The content-addressed store

Records laid end to end on a block device from block one on, a superblock in
block zero, and a table from content address to the block a record starts at.
The table is not on the device: a mount rebuilds it by scanning the headers.
-/

namespace FSystem.Blob

open Abi Hash

/-- The identity of the gear table. -/
def gearIdentity : UInt64 := Env.label gearName

/-- The identity of the mask. -/
def maskIdentity : UInt64 := Env.label maskName

/-- The smallest block a device may be formatted with. -/
def minBlockBytes : Nat := 512

/-- The superblock this build writes for a geometry. -/
def superblockForThisBuild (blockBytes zones : UInt32) (zoneBytes : UInt64)
    (rootZoneA rootZoneB : UInt32) : Superblock where
  schema := Abi.schema
  blockBytes := blockBytes
  zones := zones
  rootZoneA := rootZoneA
  rootZoneB := rootZoneB
  chunkMinBytes := UInt32.ofNat chunkMinBytes
  chunkTargetBytes := UInt32.ofNat chunkTargetBytes
  chunkMaxBytes := UInt32.ofNat chunkMaxBytes
  maskBits := UInt32.ofNat maskBits
  zoneBytes := zoneBytes
  gearLabel := gearIdentity
  maskLabel := maskIdentity

/-- Refuse a device whose chunks were cut by another chunker. -/
def refuseAChunkerThatMoved (found : Superblock) : Except Refusal Unit :=
  let mine := superblockForThisBuild found.blockBytes found.zones found.zoneBytes
    found.rootZoneA found.rootZoneB
  if found.chunkMinBytes ≠ mine.chunkMinBytes ∨
      found.chunkTargetBytes ≠ mine.chunkTargetBytes ∨
      found.chunkMaxBytes ≠ mine.chunkMaxBytes ∨
      found.maskBits ≠ mine.maskBits ∨
      found.gearLabel ≠ mine.gearLabel ∨
      found.maskLabel ≠ mine.maskLabel then
    .error .unknown
  else
    .ok ()

/-- How many blocks a record of `contentBytes` bytes of content takes. -/
def span (blockBytes contentBytes : Nat) : Nat :=
  (Header.bytes + contentBytes + (blockBytes - 1)) / blockBytes

/-- The hashes that follow a list head in an object's or an extent's content. -/
def hashesAfter (content : Bytes) (offset count : Nat) : List Digest :=
  (List.range count).map fun index => digest content (offset + index * 32)

/-- A mounted store. -/
structure Store (D : Type) where
  device : D
  superblock : Superblock
  /-- The first block no record occupies. -/
  free : Nat
  /-- Where each content address starts. -/
  located : Std.TreeMap Digest Nat

namespace Store

variable {D : Type} [Device D]

/-- The block size every read and write of the store moves. -/
def blockBytes (self : Store D) : Nat := self.superblock.blockBytes.toNat

/-- Lay a superblock down and start an empty store. -/
def format (device : D) (layout : Superblock) : Except Refusal (Store D) :=
  if layout.blockBytes.toNat < minBlockBytes ∨
      layout.blockBytes.toNat ≠ Device.blockBytes device then
    .error .malformed
  else if Device.blocks device < 2 then .error .full
  else
    match refuseAChunkerThatMoved layout with
    | .error refusal => .error refusal
    | .ok () =>
      let block := Bytes.overwrite layout.toBytes
        (Bytes.zeros layout.blockBytes.toNat)
      match Device.write device 0 block with
      | (.error refusal, _) => .error refusal
      | (.ok (), device) =>
        match Device.flush device with
        | (.error refusal, _) => .error refusal
        | (.ok (), device) =>
          .ok { device := device, superblock := layout, free := 1, located := ∅ }

/-- The header at the front of a block. -/
def headerAt (block : Bytes) : Except Refusal Header :=
  if block.length < Header.bytes then .error .malformed
  else Header.fromBytes (block.take Header.bytes)

/-- Scan the headers from `block` on: the free pointer and the table.  A header is stepped over
with the content it declares, anything else as one block. -/
def scan (device : D) :
    Nat → Nat → Nat → Std.TreeMap Digest Nat → Nat × Std.TreeMap Digest Nat
  | 0, _, free, located => (free, located)
  | fuel + 1, block, free, located =>
    if block < Device.blocks device then
      match Device.read device block (Device.blockBytes device) with
      | .error _ => scan device fuel (block + 1) free located
      | .ok bytes =>
        match headerAt bytes with
        | .error _ => scan device fuel (block + 1) free located
        | .ok header =>
          if 2 ^ 64 ≤ Header.bytes + header.contentBytes.toNat then
            scan device fuel (block + 1) free located
          else
            let next := min (2 ^ 64 - 1) (block +
              span (Device.blockBytes device) header.contentBytes.toNat)
            scan device fuel next (min next (Device.blocks device))
              (located.insertIfNew header.hash block)
    else (free, located)

/-- Open a formatted device. -/
def mount (device : D) : Except Refusal (Store D) :=
  match Device.read device 0 (Device.blockBytes device) with
  | .error refusal => .error refusal
  | .ok block =>
    if block.length < Superblock.bytes then .error .malformed
    else
      match Superblock.fromBytes (block.take Superblock.bytes) with
      | .error refusal => .error refusal
      | .ok superblock =>
        if superblock.blockBytes.toNat ≠ Device.blockBytes device then
          .error .malformed
        else
          match refuseAChunkerThatMoved superblock with
          | .error refusal => .error refusal
          | .ok () =>
            let found := scan device (Device.blocks device) 1 1 ∅
            .ok {
              device := device
              superblock := superblock
              free := found.1
              located := found.2 }

variable (self : Store D)

/-- How many records the store knows. -/
def records : Nat := self.located.size

/-- The block a content address starts at. -/
def address (hash : Digest) : Option Nat := self.located[hash]?

/-- The barrier. -/
def barrier : Except Refusal Unit × Store D :=
  let flushed := Device.flush self.device
  (flushed.1, { self with device := flushed.2 })

/-- Write consecutive blocks, stopping at the first refusal. -/
def writeBlocks (device : D) : Nat → List Bytes → Except Refusal Unit × D
  | _, [] => (.ok (), device)
  | block, one :: rest =>
    match Device.write device block one with
    | (.error refusal, device) => (.error refusal, device)
    | (.ok (), device) => writeBlocks device (block + 1) rest

/-- The header a blob is stored with. -/
def headerOf (kind : Kind) (content : Bytes) : Header where
  kind := kind
  flags := 0
  contentBytes := UInt64.ofNat content.length
  hash := sha256 content

/-- The bytes of a record, padded to whole blocks. -/
def record (blockBytes : Nat) (kind : Kind) (content : Bytes) : Bytes :=
  Bytes.overwrite ((headerOf kind content).toBytes ++ content)
    (Bytes.zeros (span blockBytes content.length * blockBytes))

/-- Store one blob.  Content the table already knows is not written again. -/
def put (kind : UInt16) (content : Bytes) : Except Refusal Digest × Store D :=
  match Kind.ofCode kind with
  | none => (.error .unknown, self)
  | some kind =>
    let hash := sha256 content
    if self.located.contains hash then (.ok hash, self)
    else
      let blocks := span self.blockBytes content.length
      if Device.blocks self.device < self.free + blocks then (.error .full, self)
      else
        let pieces := Bytes.blocks self.blockBytes
          (record self.blockBytes kind content) blocks
        match writeBlocks self.device self.free pieces with
        | (.error refusal, device) => (.error refusal, { self with device := device })
        | (.ok (), device) =>
          (.ok hash, { self with
            device := device
            located := self.located.insert hash self.free
            free := self.free + blocks })

/-- The header at the front of a block, which must be the header of `hash`. -/
def headerIn (block : Bytes) (hash : Digest) : Except Refusal Header :=
  if block.length < Header.bytes then .error .malformed
  else
    match Header.fromBytes (block.take Header.bytes) with
    | .error refusal => .error refusal
    | .ok header => if header.hash ≠ hash then .error .content else .ok header

/-- The header of a blob. -/
def head (hash : Digest) : Except Refusal Header :=
  match self.located[hash]? with
  | none => .error .address
  | some block =>
    match Device.read self.device block self.blockBytes with
    | .error refusal => .error refusal
    | .ok first => headerIn first hash

/-- Read the `remaining` bytes behind a record's first block; each block brings one at least. -/
def readRest (device : D) (blockBytes : Nat) :
    Nat → Nat → Nat → Except Refusal Bytes
  | 0, _, _ => .ok []
  | fuel + 1, block, remaining =>
    if remaining = 0 then .ok []
    else
      match Device.read device block blockBytes with
      | .error refusal => .error refusal
      | .ok one =>
        let take := min blockBytes remaining
        match readRest device blockBytes fuel (block + 1) (remaining - take) with
        | .error refusal => .error refusal
        | .ok rest => .ok (one.take take ++ rest)

/-- Read a blob into a buffer of `room` bytes, checking its hash. -/
def get (hash : Digest) (room : Nat) : Except Refusal Bytes :=
  match self.located[hash]? with
  | none => .error .address
  | some block =>
    match Device.read self.device block self.blockBytes with
    | .error refusal => .error refusal
    | .ok one =>
      match headerIn one hash with
      | .error refusal => .error refusal
      | .ok header =>
        let contentBytes := header.contentBytes.toNat
        if room < contentBytes then .error .shortBuffer
        else
          let first := min (self.blockBytes - Header.bytes) contentBytes
          match readRest self.device self.blockBytes (contentBytes - first)
              (block + 1) (contentBytes - first) with
          | .error refusal => .error refusal
          | .ok rest =>
            let content := Bytes.slice one Header.bytes first ++ rest
            if sha256 content ≠ hash then .error .content
            else .ok content

/-- Store a list of chunks, stopping at the first refusal. -/
def putChunks (self : Store D) : List Bytes → Except Refusal (List Digest) × Store D
  | [] => (.ok [], self)
  | piece :: rest =>
    match self.put Kind.chunk.code piece with
    | (.error refusal, store) => (.error refusal, store)
    | (.ok hash, store) =>
      match store.putChunks rest with
      | (.error refusal, store) => (.error refusal, store)
      | (.ok hashes, store) => (.ok (hash :: hashes), store)

/-- The chunks between consecutive cuts from `start` on; what is behind the last cut is a chunk
when `tail` says so. -/
def chunksBetween (bytes : Bytes) (tail : Nat) : Nat → List Nat → List Bytes
  | start, [] => if 0 < tail then [bytes.drop start] else []
  | start, cut :: cuts => Bytes.slice bytes start (cut - start) :: chunksBetween bytes tail cut cuts

/-- The chunks an object is stored as. -/
def chunksOf (bytes : Bytes) : List Bytes :=
  let fed := Chunker.new.feed 0 bytes
  chunksBetween bytes fed.2.finish 0 fed.1

/-- The content of an object: its head, then the hashes of its chunks. -/
def objectContent (objectBytes : Nat) (hashes : List Digest) : Bytes :=
  let head : ObjectHead :=
    { objectBytes := UInt64.ofNat objectBytes
      chunks := UInt32.ofNat hashes.length }
  head.toBytes ++ hashes.flatMap Digest.bytes

/-- Store some bytes as an object: its chunks, then the list of them. -/
def putObject (bytes : Bytes) : Except Refusal Digest × Store D :=
  match self.putChunks (chunksOf bytes) with
  | (.error refusal, store) => (.error refusal, store)
  | (.ok hashes, store) =>
    if chunksMax < hashes.length then (.error .unknown, store)
    else store.put Kind.object.code (objectContent bytes.length hashes)

/-- Read chunks one after another into a buffer of `room` bytes. -/
def getChunks (self : Store D) : Nat → List Digest → Except Refusal Bytes
  | _, [] => .ok []
  | room, chunk :: rest =>
    match self.get chunk room with
    | .error refusal => .error refusal
    | .ok moved =>
      match self.getChunks (room - moved.length) rest with
      | .error refusal => .error refusal
      | .ok others => .ok (moved ++ others)

/-- Read an object back into a buffer of `room` bytes. -/
def getObject (hash : Digest) (room : Nat) : Except Refusal Bytes :=
  match self.head hash with
  | .error refusal => .error refusal
  | .ok header =>
    if header.kind ≠ .object then .error .unknown
    else
      match self.get hash header.contentBytes.toNat with
      | .error refusal => .error refusal
      | .ok content =>
        if content.length < headBytes then .error .malformed
        else
          match ObjectHead.fromBytes (content.take headBytes) with
          | .error refusal => .error refusal
          | .ok head =>
            if head.bytes ≠ content.length then .error .malformed
            else if room < head.objectBytes.toNat then .error .shortBuffer
            else
              match self.getChunks head.objectBytes.toNat
                  (hashesAfter content headBytes head.chunks.toNat) with
              | .error refusal => .error refusal
              | .ok bytes =>
                if bytes.length ≠ head.objectBytes.toNat then
                  .error .malformed
                else .ok bytes

end Store

end FSystem.Blob
