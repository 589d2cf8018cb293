import FSystem.Zone.Device
import Std.Data.TreeMap

/-!
# The zone map

A block device over a zoned one: logical blocks are appended to an open data
zone and found again through a map, and a zone that is mostly dead is emptied
by copying what is live out of it, repointing the map and resetting it.
-/

namespace FSystem.Zone

open Abi

/-- The life of a data zone. -/
inductive State
  | free
  | opened
  | sealed
  | condemned
  deriving DecidableEq

set_option linter.dupNamespace false in
/-- What the map knows about a data zone. -/
structure Zone where
  zone : Nat
  state : State
  liveBytes : Nat
  readsOutstanding : Nat
  deriving DecidableEq

/-- A block device that appends. -/
structure ZoneMap (g : Geometry) where
  device : ZonedMemory g
  /-- The first data zone. -/
  dataFrom : Nat
  /-- Where each logical block is. -/
  physical : Std.TreeMap Nat Nat
  /-- Which logical block each mapped block holds. -/
  logical : Std.TreeMap Nat Nat
  /-- The data zones. -/
  zones : Std.TreeMap Nat Zone
  /-- The zone appends go to. -/
  opened : Option Nat
  /-- Copies written forward and not yet repointed. -/
  copies : Std.TreeMap Nat Nat
  dataFrom_pos : 0 < dataFrom
  dataFrom_lt : dataFrom < g.zoneCount
  zoneBlocks_pos : 0 < g.zoneBlocks

namespace ZoneMap

variable {g : Geometry}

/-- The zone numbers the map manages. -/
def dataZones (g : Geometry) (dataFrom : Nat) : List Nat :=
  List.range' dataFrom (g.zoneCount - dataFrom)

/-- A zone nothing was written to. -/
def freeZone (zone : Nat) : Zone := ⟨zone, .free, 0, 0⟩

/-- A map over a device without data: only block zero is mapped, onto itself. -/
def new (device : ZonedMemory g) (dataFrom : Nat) : Except Refusal (ZoneMap g) :=
  if inside : 0 < dataFrom ∧ dataFrom < g.zoneCount then
    if positive : 0 < g.zoneBlocks then
      .ok {
        device := device
        dataFrom := dataFrom
        physical := (∅ : Std.TreeMap Nat Nat).insert 0 0
        logical := (∅ : Std.TreeMap Nat Nat).insert 0 0
        zones := (dataZones g dataFrom).foldl
          (fun zones zone => zones.insert zone (freeZone zone)) ∅
        opened := none
        copies := ∅
        dataFrom_pos := inside.1
        dataFrom_lt := inside.2
        zoneBlocks_pos := positive }
    else .error .malformed
  else .error .malformed

/-- Map one block. -/
@[simps device dataFrom zones opened copies]
def insert (self : ZoneMap g) (logical block : Nat) : ZoneMap g :=
  { self with
    physical := self.physical.insert logical block
    logical := self.logical.insert block logical }

/-- Map `count` consecutive blocks to consecutive logical numbers. -/
def insertRun (self : ZoneMap g) : Nat → Nat → Nat → ZoneMap g
  | 0, _, _ => self
  | count + 1, logical, block =>
    (self.insert logical block).insertRun count (logical + 1) (block + 1)

/-- Number the written blocks of some zones from `logical` on. -/
def remountZones (self : ZoneMap g) : Nat → List Nat → Except Refusal (ZoneMap g)
  | _, [] => .ok self
  | logical, zone :: rest =>
    match self.device.report zone with
    | .error refusal => .error refusal
    | .ok report =>
      let count := report.writePointer - report.start
      let numbered := self.insertRun count logical report.start
      let marked :=
        if report.start < report.writePointer then
          { numbered with
            zones := numbered.zones.insert zone ⟨zone, .sealed, 0, 0⟩ }
        else numbered
      marked.remountZones (logical + count) rest

/-- A map over a device written before: its blocks are numbered as they stand. -/
def remount (device : ZonedMemory g) (dataFrom : Nat) : Except Refusal (ZoneMap g) :=
  match new device dataFrom with
  | .error refusal => .error refusal
  | .ok map => map.remountZones 1 (dataZones g dataFrom)

variable (self : ZoneMap g)

/-- The data zones in order. -/
def zoneList : List Zone := self.zones.toList.map Prod.snd

/-- The zone a logical block is in. -/
def zoneOf (logical : Nat) : Option Nat :=
  self.physical[logical]?.map fun block => block / g.zoneBlocks

/-- The mapped blocks of a zone and what they hold, as they stand. -/
def held (zone : Nat) : List (Nat × Nat) :=
  self.logical.toList.filter fun entry => g.inZone zone entry.1

/-- The logical blocks a zone holds. -/
def holds (zone : Nat) : List Nat :=
  (self.held zone).map Prod.snd

/-- Replace what the map knows about a zone. -/
@[simps device dataFrom physical logical opened copies]
def setZone (zone : Nat) (entry : Zone) :
    ZoneMap g :=
  { self with zones := self.zones.insert zone entry }

/-- Note that a reader is inside a zone. -/
def holdRead (zone : Nat) : Except Refusal (ZoneMap g) :=
  match self.zones[zone]? with
  | none => .error .address
  | some held => .ok (self.setZone zone { held with readsOutstanding := held.readsOutstanding + 1 })

/-- Note that a reader left a zone. -/
def releaseRead (zone : Nat) : Except Refusal (ZoneMap g) :=
  match self.zones[zone]? with
  | none => .error .address
  | some held =>
    if held.readsOutstanding = 0 then .error .address
    else
      .ok (self.setZone zone { held with readsOutstanding := held.readsOutstanding - 1 })

/-- Set how much of a zone is live. -/
def setLiveBytes (zone bytes : Nat) : Except Refusal (ZoneMap g) :=
  match self.zones[zone]? with
  | none => .error .address
  | some held => .ok (self.setZone zone { held with liveBytes := bytes })

/-- Choose a sealed zone to be emptied. -/
def condemn (zone : Nat) : Except Refusal (ZoneMap g) :=
  match self.zones[zone]? with
  | none => .error .address
  | some held =>
    if held.state ≠ .sealed then .error .malformed
    else .ok (self.setZone zone { held with state := .condemned })

/-- Set the state of a zone the map knows. -/
def setState (zone : Nat) (state : State) : ZoneMap g :=
  match self.zones[zone]? with
  | none => self
  | some held => self.setZone zone { held with state := state }

/-- Finish the open zone, when there is one. -/
def closeZone : Except Refusal Unit × ZoneMap g :=
  match self.opened with
  | none => (.ok (), self)
  | some zone =>
    match self.device.finish zone with
    | .error refusal => (.error refusal, { self with opened := none })
    | .ok device => (.ok (), { self with device := device, opened := none }.setState zone .sealed)

/-- Close the open zone and open the first free one. -/
def openZone : Except Refusal Nat × ZoneMap g :=
  match self.closeZone with
  | (.error refusal, map) => (.error refusal, map)
  | (.ok (), map) =>
    match map.zoneList.find? fun zone => zone.state = .free with
    | none => (.error .full, map)
    | some next => (.ok next.zone, { map.setState next.zone .opened with opened := some next.zone })

/-- Append to a zone of the device. -/
def deviceAppend (zone : Nat) (source : Bytes) : Except Refusal Nat × ZoneMap g :=
  match self.device.append zone source with
  | .error refusal => (.error refusal, self)
  | .ok (block, device) => (.ok block, { self with device := device })

/-- Append to a zone the map does not manage. -/
def appendReserved (zone : Nat) (source : Bytes) : Except Refusal Nat × ZoneMap g :=
  if zone = 0 ∨ self.dataFrom ≤ zone then (.error .address, self)
  else self.deviceAppend zone source

/-- Append to the open zone, moving on to the next one when it is full. -/
def appendOpened (source : Bytes) : Except Refusal Nat × ZoneMap g :=
  match self.opened with
  | none => (.error .full, self)
  | some zone =>
    match self.device.append zone source with
    | .error .full =>
      match self.openZone with
      | (.error refusal, map) => (.error refusal, map)
      | (.ok next, map) => map.deviceAppend next source
    | .error refusal => (.error refusal, self)
    | .ok (block, device) => (.ok block, { self with device := device })

/-- Append to the open zone, opening one first when none is. -/
def appendSomewhere (source : Bytes) : Except Refusal Nat × ZoneMap g :=
  if self.opened.isNone then
    match self.openZone with
    | (.error refusal, map) => (.error refusal, map)
    | (.ok _, map) => map.appendOpened source
  else self.appendOpened source

/-- Write a copy of a logical block to the open zone. -/
def copyForward (logical : Nat) : Except Refusal Nat × ZoneMap g :=
  match self.physical[logical]? with
  | none => (.error .address, self)
  | some block =>
    match self.device.read block g.blockBytes with
    | .error refusal => (.error refusal, self)
    | .ok bytes =>
      match self.appendSomewhere bytes with
      | (.error refusal, map) => (.error refusal, map)
      | (.ok copy, map) => (.ok copy, { map with copies := map.copies.insert logical copy })

/-- Repoint one logical block at its copy. -/
@[simps device dataFrom zones opened copies]
def repoint (logical copy : Nat) : ZoneMap g :=
  let stale :=
    match self.physical[logical]? with
    | none => self.logical
    | some block => self.logical.erase block
  { self with
    physical := self.physical.insert logical copy
    logical := stale.insert copy logical }

/-- Make the copies durable, then repoint every one of them. -/
def commitCopies : Except Refusal Nat × ZoneMap g :=
  if self.copies.isEmpty then (.ok 0, self)
  else
    let flushed := { self with device := self.device.flush, copies := ∅ }
    (.ok self.copies.size,
      self.copies.toList.foldl (fun map copy => map.repoint copy.1 copy.2) flushed)

/-- Forget one mapped block. -/
@[simps device dataFrom zones opened copies]
def forget (entry : Nat × Nat) : ZoneMap g :=
  { self with
    logical := self.logical.erase entry.1
    physical := self.physical.erase entry.2 }

/-- Reset a condemned zone and forget what it still holds. -/
def recycle (zone : Nat) : Except Refusal (ZoneMap g) :=
  match self.zones[zone]? with
  | none => .error .address
  | some held =>
    if held.state ≠ .condemned ∨ ¬self.copies.isEmpty then .error .malformed
    else
      match self.device.reset zone with
      | .error refusal => .error refusal
      | .ok device =>
        .ok (((self.held zone).foldl forget { self with device := device }).setZone
          zone (freeZone zone))

/-- Read a logical block. -/
def read (self : ZoneMap g) (block length : Nat) : Except Refusal Bytes :=
  match self.physical[block]? with
  | none => .error .address
  | some place => self.device.read place length

/-- Write a logical block: in place in the conventional zone, and at the end of the open zone
when it is not mapped. -/
def write (self : ZoneMap g) (block : Nat) (source : Bytes) :
    Except Refusal Unit × ZoneMap g :=
  match self.physical[block]? with
  | some place =>
    if kindOf (place / g.zoneBlocks) ≠ .conventional then (.error .address, self)
    else
      match self.device.write place source with
      | .error refusal => (.error refusal, self)
      | .ok device => (.ok (), { self with device := device })
  | none =>
    match self.appendSomewhere source with
    | (.error refusal, map) => (.error refusal, map)
    | (.ok place, map) => (.ok (), map.insert block place)

/-- The barrier of the device below. -/
def flush (self : ZoneMap g) : ZoneMap g := { self with device := self.device.flush }

instance : Blob.Device (ZoneMap g) where
  blockBytes _ := g.blockBytes
  blocks self := 1 + (g.zoneCount - self.dataFrom) * g.zoneBlocks
  read := ZoneMap.read
  write := ZoneMap.write
  flush self := (.ok (), self.flush)

end ZoneMap

end FSystem.Zone
