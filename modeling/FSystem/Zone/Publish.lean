import FSystem.Blob.Store
import FSystem.Zone.Map
import FSystem.Zone.Roots

/-!
# Publishing a root

A publish writes its blobs, issues a barrier, appends a root record to the
active root zone, issues a second barrier, and turns its write set into a pinned
root.  When the active root zone runs short, its last records are carried to the
other one first.
-/

namespace FSystem.Zone

open Abi Hash Blob

/-- How many records are carried between root zones, and how much room one must have left. -/
def rootCarry : Nat := 16

section Records

variable {g : Geometry} (store : Store (ZoneMap g))

/-- The root record in a block of the device, when there is one that verifies. -/
def recordAt (block : Nat) : Option RootRecord :=
  if store.blockBytes < RootRecord.bytes then none
  else
    match store.device.device.read block store.blockBytes with
    | .error _ => none
    | .ok buffer =>
      let raw := buffer.take RootRecord.bytes
      match RootRecord.fromBytes raw (sha256 (raw.take RootRecord.checkedBytes)) with
      | .error _ => none
      | .ok record => some record

/-- The written blocks of a zone. -/
def writtenBlocks (report : Report) : List Nat :=
  List.range' report.start (report.writePointer - report.start)

/-- The root records of a zone, in the order they stand in. -/
def recordsIn (zone : Nat) : Except Refusal (List RootRecord) :=
  match store.device.device.report zone with
  | .error refusal => .error refusal
  | .ok report => .ok ((writtenBlocks report).filterMap (recordAt store))

/-- The highest generation in a zone. -/
def highestIn (zone : Nat) : Except Refusal Nat :=
  match recordsIn store zone with
  | .error refusal => .error refusal
  | .ok records => .ok (records.foldl (fun highest record => max highest record.generation.toNat) 0)

/-- A root record, padded to a block. -/
def rootBlock (blockBytes : Nat) (record : RootRecord) : Bytes :=
  Bytes.overwrite record.toBytes (Bytes.zeros blockBytes)

/-- Append a root record to a root zone. -/
def appendRecord (zone : Nat) (record : RootRecord) : Except Refusal Unit × Store (ZoneMap g) :=
  match store.device.appendReserved zone (rootBlock store.blockBytes record) with
  | (.error refusal, map) => (.error refusal, { store with device := map })
  | (.ok _, map) => (.ok (), { store with device := map })

/-- Append some root records, stopping at the first refusal. -/
def carry (zone : Nat) :
    List RootRecord → Store (ZoneMap g) → Except Refusal Unit × Store (ZoneMap g)
  | [], store => (.ok (), store)
  | record :: rest, store =>
    match appendRecord store zone record with
    | (.error refusal, store) => (.error refusal, store)
    | (.ok (), store) => carry zone rest store

/-- Change the device below the map. -/
def onDevice (device : ZonedMemory g) : Store (ZoneMap g) :=
  { store with device := { store.device with device := device } }

/-- The last records of a zone, newest first, as many as are carried. -/
def carried (report : Report) : List RootRecord :=
  ((writtenBlocks report).reverse.filterMap (recordAt store)).take rootCarry

/-- Move over to the other root zone, carrying the last records along. -/
def wrap (active other : Nat) : Except Refusal Nat × Store (ZoneMap g) :=
  match store.device.device.report other with
  | .error refusal => (.error refusal, store)
  | .ok destination =>
    if destination.blocks < 2 * rootCarry then (.error .full, store)
    else
      match store.device.device.report active with
      | .error refusal => (.error refusal, store)
      | .ok report =>
        match store.device.device.reset other with
        | .error refusal => (.error refusal, store)
        | .ok device =>
          match carry other (carried store report).reverse (onDevice store device) with
          | (.error refusal, store) => (.error refusal, store)
          | (.ok (), store) => (.ok other, { store with device := store.device.flush })

/-- Where the next record goes: the zone with the highest generation, or after a wrap the other
one, when that runs short. -/
def rootZoneForTheNextRecord : Except Refusal Nat × Store (ZoneMap g) :=
  let first := store.superblock.rootZoneA.toNat
  let second := store.superblock.rootZoneB.toNat
  match highestIn store first with
  | .error refusal => (.error refusal, store)
  | .ok topFirst =>
    match highestIn store second with
    | .error refusal => (.error refusal, store)
    | .ok topSecond =>
      let active := if topFirst < topSecond then second else first
      let other := if topFirst < topSecond then first else second
      match store.device.device.report active with
      | .error refusal => (.error refusal, store)
      | .ok report =>
        let remaining := report.blocks - (report.writePointer - report.start)
        if report.state ≠ .full ∧ rootCarry ≤ remaining then (.ok active, store)
        else wrap store active other

end Records

/-- An open publish: its write set, and the first block not yet in it. -/
structure Publisher where
  set : WriteSet
  next : Nat
  deriving DecidableEq

namespace Publisher

variable {g : Geometry}

/-- Open a publish. -/
def opened (roots : Roots) (store : Store (ZoneMap g)) : Publisher × Roots :=
  let set := roots.opened
  (⟨set.1, store.free⟩, set.2)

/-- Add some blocks to a write set. -/
def appendBlocks (set : WriteSet) : List Nat → Roots → Except Refusal Roots
  | [], roots => .ok roots
  | block :: rest, roots =>
    match roots.appended set block with
    | .error refusal => .error refusal
    | .ok roots => appendBlocks set rest roots

/-- Add everything the store wrote since the last call to the write set. -/
def appended (self : Publisher) (roots : Roots) (store : Store (ZoneMap g)) :
    Except Refusal (Publisher × Roots) :=
  match appendBlocks self.set (List.range' self.next (store.free - self.next)) roots with
  | .error refusal => .error refusal
  | .ok roots => .ok ({ self with next := store.free }, roots)

/-- The record as it is written: with its check. -/
def sealRecord (record : RootRecord) : RootRecord :=
  { record with check := sha256 record.checked }

/-- Make a root durable and adopt it. -/
def commit (self : Publisher) (store : Store (ZoneMap g)) (roots : Roots) (record : RootRecord) :
    Except Refusal RootRecord × Store (ZoneMap g) × Roots :=
  match self.appended roots store with
  | .error refusal => (.error refusal, store, roots)
  | .ok (_, roots) =>
    match store.barrier with
    | (.error refusal, store) => (.error refusal, store, roots)
    | (.ok (), store) =>
      let written := sealRecord record
      match rootZoneForTheNextRecord store with
      | (.error refusal, store) => (.error refusal, store, roots)
      | (.ok zone, store) =>
        match appendRecord store zone written with
        | (.error refusal, store) => (.error refusal, store, roots)
        | (.ok (), store) =>
          let store := { store with device := store.device.flush }
          match roots.adopt self.set written.root with
          | .error refusal => (.error refusal, store, roots)
          | .ok roots => (.ok written, store, roots)

/-- Give a publish up. -/
def abandon (self : Publisher) (roots : Roots) : Except Refusal Roots :=
  roots.abandon self.set

end Publisher

end FSystem.Zone
