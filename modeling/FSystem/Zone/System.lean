import FSystem.Zone.Growth
import FSystem.Zone.Commit
import FSystem.Zone.Remount

/-!
# The store, its publishes and its collector, together

One state for everything that shares a device, and the operations programs
interleave on it: puts, alone or in a publish, commits, pins, readers and steps
of the collector.
-/

namespace FSystem.Zone

open Abi Hash Blob

/-- An open publish, the hashes its puts returned, and those that were in the table before. -/
structure Publish where
  publisher : Publisher
  stored : List Digest
  shared : List Digest
  deriving DecidableEq

/-- A store with its roots, its collector and its open publishes. -/
structure System (g : Geometry) where
  store : Store (ZoneMap g)
  roots : Roots
  collector : Collector
  publishes : Std.TreeMap WriteSet Publish

namespace System

variable {g : Geometry} (self : System g)

/-- Note what a publish has stored: the blocks written since last, and the hashes. -/
def noted (set : Option WriteSet) (before : Store (ZoneMap g)) (hashes : List Digest) : System g :=
  match set with
  | none => self
  | some set =>
    match self.publishes[set]? with
    | none => self
    | some publish =>
      match publish.publisher.appended self.roots self.store with
      | .error _ => self
      | .ok (publisher, roots) =>
        { self with
          roots := roots
          publishes := self.publishes.insert set
            ⟨publisher, publish.stored ++ hashes,
              publish.shared ++ hashes.filter before.located.contains⟩ }

/-- Store a blob, in a publish or outside any. -/
def put (self : System g) (set : Option WriteSet) (kind : UInt16) (content : Bytes) :
    Except Refusal Digest × System g :=
  match self.store.put kind content with
  | (.error refusal, store) => (.error refusal, { self with store := store })
  | (.ok hash, store) => (.ok hash, { self with store := store }.noted set self.store [hash])

/-- Store an object, in a publish or outside any. -/
def putObject (self : System g) (set : Option WriteSet) (bytes : Bytes) :
    Except Refusal Digest × System g :=
  match self.store.putObject bytes with
  | (.error refusal, store) => (.error refusal, { self with store := store })
  | (.ok hash, store) =>
    (.ok hash, { self with store := store }.noted set self.store ((objectParts bytes).map sha256))

/-- Open a publish. -/
def opened (self : System g) : System g :=
  let publish := Publisher.opened self.roots self.store
  { self with
    roots := publish.2
    publishes := self.publishes.insert publish.1.set ⟨publish.1, [], []⟩ }

/-- Commit a publish; it is over, refused or not. -/
def commit (self : System g) (set : WriteSet) (record : RootRecord) :
    Except Refusal RootRecord × System g :=
  match self.publishes[set]? with
  | none => (.error .address, self)
  | some publish =>
    let result := publish.publisher.commit self.store self.roots record
    (result.1, { self with
      store := result.2.1
      roots := result.2.2
      publishes := self.publishes.erase set })

/-- Give a publish up. -/
def abandon (self : System g) (set : WriteSet) : System g :=
  match self.publishes[set]? with
  | none => self
  | some publish =>
    match publish.publisher.abandon self.roots with
    | .error _ => { self with publishes := self.publishes.erase set }
    | .ok roots => { self with roots := roots, publishes := self.publishes.erase set }

/-- Replace the map by what an operation on it returned. -/
def remapped (result : Except Refusal (ZoneMap g)) : System g :=
  match result with
  | .error _ => self
  | .ok map => { self with store := { self.store with device := map } }

/-- Step the collector. -/
def stepCollector : System g :=
  let stepped := self.collector.step self.store self.roots
  { self with collector := stepped.2.1, store := stepped.2.2 }

/-- Begin a cycle. -/
def beginCycle : System g :=
  let begun := self.collector.begin self.roots
  { self with collector := begun.1, roots := begun.2 }

/-- Run a collection. -/
def collect (self : System g) (fuel : Nat) : System g :=
  let collected := Collector.collect fuel self.collector self.store self.roots
  { self with
    collector := collected.2.1
    store := collected.2.2.1
    roots := collected.2.2.2 }

/-- What programs do to the system. -/
inductive Op
  | put (set : Option WriteSet) (kind : UInt16) (content : Bytes)
  | putObject (set : Option WriteSet) (bytes : Bytes)
  | opened
  | commit (set : WriteSet) (record : RootRecord)
  | abandon (set : WriteSet)
  | pin (root : Digest)
  | unpin (root : Digest)
  | begin
  | step
  | collect (fuel : Nat)
  | holdRead (zone : Nat)
  | releaseRead (zone : Nat)
  /-- Other programs' reads pass through the queue. -/
  | requeue (queue : Queue)

/-- The contents an operation stores. -/
def Op.contents : Op → List Bytes
  | .put _ _ content => [content]
  | .putObject _ bytes => objectParts bytes
  | _ => []

/-- One operation, whatever it answers. -/
def step (self : System g) : Op → System g
  | .put set kind content => (self.put set kind content).2
  | .putObject set bytes => (self.putObject set bytes).2
  | .opened => self.opened
  | .commit set record => (self.commit set record).2
  | .abandon set => self.abandon set
  | .pin root => { self with roots := (self.roots.pin root).2 }
  | .unpin root => { self with roots := (self.roots.unpin root).2 }
  | .begin => self.beginCycle
  | .step => self.stepCollector
  | .collect fuel => self.collect fuel
  | .holdRead zone => self.remapped (self.store.device.holdRead zone)
  | .releaseRead zone => self.remapped (self.store.device.releaseRead zone)
  | .requeue queue => { self with collector := { self.collector with queue := queue } }

/-- A store with no root, no publish, and an idle collector with a bit for every block. -/
def around (store : Store (ZoneMap g)) : System g where
  store := store
  roots := Roots.new
  collector := Collector.new (g.zoneCount * g.zoneBlocks)
  publishes := ∅

/-- A system just started, on a formatted or mounted device with reserved root zones. -/
inductive Booted : System g → Prop
  | formatted (device : ZonedMemory g) (dataFrom : Nat) (map : ZoneMap g)
      (layout : Superblock) (store : Store (ZoneMap g))
      (created : ZoneMap.new device dataFrom = .ok map)
      (format : Store.format map layout = .ok store)
      (reserved : RootsReserved store) : Booted (around store)
  | mounted (sorting : Sorting) (device : ZonedMemory g) (dataFrom : Nat) (found : Mounted)
      (store : Store (ZoneMap g))
      (mount : mount sorting device dataFrom = .ok (found, store))
      (reserved : RootsReserved store) : Booted (around store)

end System

end FSystem.Zone
