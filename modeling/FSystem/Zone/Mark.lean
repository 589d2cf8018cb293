import FSystem.Blob.Store
import FSystem.Zone.Map
import FSystem.Zone.Roots

/-!
# The mark

A walk from the pinned roots through the objects they name, and a bitmap of the
physical blocks the records it meets occupy.  The walk descends only into
objects.
-/

namespace FSystem.Zone

open Abi Hash Blob

/-- One bit for each block of the device. -/
structure Bitmap where
  bits : Nat
  words : Nat

namespace Bitmap

/-- No bit set. -/
def new (bits : Nat) : Bitmap := ⟨bits, 0⟩

/-- Whether a bit is set. -/
def get (self : Bitmap) (block : Nat) : Bool :=
  decide (block < self.bits) && self.words.testBit block

/-- Set a bit, and say whether it was set; a bit outside the map counts as set. -/
def set (self : Bitmap) (block : Nat) : Bool × Bitmap :=
  if self.bits ≤ block then (true, self)
  else (self.words.testBit block, { self with words := self.words ||| 2 ^ block })

/-- Clear every bit. -/
def clear (self : Bitmap) : Bitmap := { self with words := 0 }

/-- Whether any bit of a range is set. -/
def any (self : Bitmap) (first last : Nat) : Bool :=
  (List.range' first (min last self.bits - first)).any self.get

end Bitmap

/-- The run of logical blocks a record occupies. -/
structure Occupied where
  start : Nat
  blocks : Nat
  hash : Digest

/-- A mark in progress. -/
structure Mark where
  bits : Bitmap
  /-- The hashes the walk is done with. -/
  roots : Std.TreeSet Digest
  /-- The records the walk met, by the block they start at. -/
  live : Std.TreeMap Nat Occupied
  liveBytes : Std.TreeMap Nat Nat
  /-- The hashes still to be walked, the next one first. -/
  pending : List Digest
  seen : Std.TreeSet Digest
  unresolved : Nat

namespace Mark

variable {g : Geometry}

/-- A mark over a device of some blocks. -/
def new (blocks : Nat) : Mark := ⟨Bitmap.new blocks, ∅, ∅, ∅, [], ∅, 0⟩

/-- How much of a zone is live. -/
def liveBytesOf (self : Mark) (zone : Nat) : Nat := self.liveBytes[zone]?.getD 0

/-- Whether anything is left to be walked. -/
def walking (self : Mark) : Bool := !self.pending.isEmpty

/-- Forget everything. -/
def restart (self : Mark) : Mark := ⟨self.bits.clear, ∅, ∅, ∅, [], ∅, 0⟩

/-- Ask for a hash to be walked. -/
def walk (self : Mark) (root : Digest) : Mark :=
  if self.seen.contains root then self
  else { self with pending := root :: self.pending }

variable (store : Store (ZoneMap g))

/-- Mark the block a logical block is at. -/
def occupyBlock (self : Mark) (logical : Nat) : Mark :=
  match store.device.physical[logical]? with
  | none => self
  | some place =>
    let set := self.bits.set place
    if set.1 then self
    else
      let zone := place / g.zoneBlocks
      { self with
        bits := set.2
        liveBytes := self.liveBytes.insert zone (self.liveBytesOf zone + store.blockBytes) }

/-- Mark the blocks of a record. -/
def occupy (self : Mark) (extent : Occupied) : Mark :=
  (List.range' extent.start extent.blocks).foldl (occupyBlock store)
    { self with live := self.live.insert extent.start extent }

/-- Mark the blocks of the open write sets. -/
def occupyTransient (self : Mark) (blocks : Std.TreeSet Nat) : Mark :=
  blocks.toList.foldl (occupyBlock store) self

/-- The hashes an object names. -/
def childrenOf (hash : Digest) (header : Header) : Except Refusal (List Digest) :=
  match store.get hash header.contentBytes.toNat with
  | .error refusal => .error refusal
  | .ok content =>
    if content.length < headBytes then .error .malformed
    else
      match ObjectHead.fromBytes (content.take headBytes) with
      | .error refusal => .error refusal
      | .ok head =>
        if head.bytes ≠ content.length then .error .malformed
        else .ok (hashesAfter content headBytes head.chunks.toNat)

/-- Ask for every hash an object names to be walked. -/
def children (self : Mark) (hash : Digest) (header : Header) : Except Refusal Mark :=
  match childrenOf store hash header with
  | .error refusal => .error refusal
  | .ok hashes => .ok (hashes.foldl walk self)

/-- Walk one hash. -/
def step (self : Mark) : Except Refusal Bool × Mark :=
  match self.pending with
  | [] => (.ok false, self)
  | hash :: rest =>
    if self.seen.contains hash then (.ok true, { self with pending := rest })
    else
      let met := { self with pending := rest, seen := self.seen.insert hash }
      match store.address hash with
      | none =>
        (.ok true, { met with
          unresolved := met.unresolved + 1
          roots := met.roots.insert hash })
      | some start =>
        match store.head hash with
        | .error refusal => (.error refusal, met)
        | .ok header =>
          let occupied := met.occupy store
            ⟨start, span store.blockBytes header.contentBytes.toNat, hash⟩
          if header.kind = .object then
            match occupied.children store hash header with
            | .error refusal => (.error refusal, occupied)
            | .ok walked => (.ok true, { walked with roots := walked.roots.insert hash })
          else
            (.ok true, { occupied with roots := occupied.roots.insert hash })

/-- Recompute the bitmap from the records met and the open write sets. -/
def rebuild (self : Mark) (roots : Roots) : Mark :=
  let cleared := { self with bits := self.bits.clear, liveBytes := ∅ }
  let occupied := (self.live.toList.map Prod.snd).foldl (occupy store) cleared
  occupied.occupyTransient store roots.transientBlocks

/-- Tell the map how much of each zone is live. -/
def publishZones (self : Mark) : List Nat → ZoneMap g → Except Refusal (ZoneMap g)
  | [], map => .ok map
  | zone :: rest, map =>
    match map.setLiveBytes zone (self.liveBytesOf zone) with
    | .error refusal => .error refusal
    | .ok map => self.publishZones rest map

/-- Tell the map how much of every zone is live. -/
def publish (self : Mark) (map : ZoneMap g) : Except Refusal (ZoneMap g) :=
  self.publishZones (map.zoneList.map Zone.zone) map

end Mark

end FSystem.Zone
