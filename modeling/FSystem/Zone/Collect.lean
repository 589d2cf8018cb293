import FSystem.Zone.Mark
import FSystem.Zone.Queue
import Mathlib.Data.List.Sort

/-!
# The collector

Mark what is reachable, choose the zones that are mostly dead, and for each of
them copy the live blocks forward, repoint the map, and reset the zone once the
invariants of the sweep hold.
-/

namespace FSystem.Zone

open Abi Hash Blob

namespace Invariants

variable {g : Geometry} (map : ZoneMap g)

/-- Every pinned root was walked, open write sets are mapped and marked, and no block of the
zone is marked. -/
def nothingReachableIsSwept (mark : Mark) (roots : Roots) (zone : Nat) : Bool :=
  roots.pinned.toList.all (fun root => mark.roots.contains root) &&
    roots.transientBlocks.toList.all (fun logical =>
      match map.physical[logical]? with
      | none => false
      | some place => mark.bits.get place) &&
    !mark.bits.any (zone * g.zoneBlocks) (zone * g.zoneBlocks + g.zoneBlocks)

/-- No free zone holds a mapped block. -/
def aResetZoneHoldsNoLiveBlob : Bool :=
  (map.zoneList.filter fun zone => zone.state = .free).all fun zone => (map.holds zone.zone).isEmpty

/-- No reader is inside the zone. -/
def noReaderBelievesTheZone (zone : Nat) : Bool :=
  map.zones[zone]?.any fun held => held.readsOutstanding == 0

/-- No urgent read waited for more collector operations than allowed. -/
def collectionNeverStarvesAnUrgentRead (queue : Queue) : Bool :=
  decide (queue.opsAheadOfUrgentRead ≤ collectorOperationsAheadOfHardRead)

/-- The invariants a zone is reset under. -/
def allThree (mark : Mark) (roots : Roots) (queue : Queue) (zone : Nat) : Bool :=
  nothingReachableIsSwept map mark roots zone && aResetZoneHoldsNoLiveBlob map &&
    collectionNeverStarvesAnUrgentRead queue

end Invariants

/-- A zone is swept when less than one part in this many of it is live. -/
def sweepLiveFractionDenominator : Nat := 4

/-- What a collection is doing. -/
inductive Phase
  | idle
  | marking
  | selecting
  | sweeping
  deriving DecidableEq

/-- The zone being emptied. -/
structure Sweep where
  zone : Nat
  /-- The live blocks still to be copied, the next one first. -/
  remaining : List Nat
  committed : Bool
  deriving DecidableEq

/-- What one step did. -/
inductive Progress
  | marked
  | published
  | selected
  | copied
  | committed
  | reset
  | waiting
  | done
  deriving DecidableEq

/-- The collector. -/
structure Collector where
  mark : Mark
  queue : Queue
  phase : Phase
  /-- The zones still to be swept, the next one first. -/
  chosen : List Nat
  sweeping : Option Sweep
  cycle : Nat
  fullRemarks : Nat
  copiedBytes : Nat
  zonesCondemned : Nat

namespace Collector

variable {g : Geometry}

/-- A collector over a device of some blocks. -/
def new (blocks : Nat) : Collector :=
  ⟨Mark.new blocks, Queue.new, .idle, [], none, 0, 0, 0, 0⟩

variable (self : Collector)

/-- Start a cycle. -/
def begin (roots : Roots) : Collector × Roots :=
  ({ self with
      cycle := self.cycle + 1
      fullRemarks := self.fullRemarks + 1
      mark := roots.pinned.toList.foldl Mark.walk self.mark.restart
      chosen := []
      sweeping := none
      phase := .marking },
    roots.remarked)

/-- Walk the roots pinned since, and mark what was written since; a new root goes back to
marking. -/
def catchUp (store : Store (ZoneMap g)) (roots : Roots) : Collector :=
  let missing := roots.pinned.toList.filter fun root => !self.mark.roots.contains root
  { self with
    mark := (missing.foldl Mark.walk self.mark).occupyTransient store roots.transientBlocks
    phase := if missing.isEmpty then self.phase else .marking }

/-- One step of marking: walk one hash, or publish what was found. -/
def marking (store : Store (ZoneMap g)) (roots : Roots) :
    Except Refusal Progress × Collector × Store (ZoneMap g) :=
  if self.mark.walking then
    match self.queue.collectorOperation with
    | .error refusal => (.error refusal, self, store)
    | .ok queue =>
      match self.mark.step store with
      | (.error refusal, mark) =>
        (.error refusal, { self with queue := queue, mark := mark }, store)
      | (.ok _, mark) => (.ok .marked, { self with queue := queue, mark := mark }, store)
  else
    let mark := self.mark.occupyTransient store roots.transientBlocks
    match mark.publish store.device with
    | .error refusal => (.error refusal, { self with mark := mark }, store)
    | .ok map =>
      (.ok .published, { self with mark := mark, phase := .selecting },
        { store with device := map })

/-- The order zones are chosen in: least live first, then by number. -/
def lighter (left right : Nat × Nat) : Prop :=
  left.1 < right.1 ∨ (left.1 = right.1 ∧ left.2 ≤ right.2)

instance : DecidableRel lighter :=
  fun _ _ => inferInstanceAs (Decidable (_ ∨ _))

/-- The sealed zones that are mostly dead, least live first. -/
def candidates (store : Store (ZoneMap g)) : List Nat :=
  let zoneBytes := g.zoneBlocks * store.blockBytes
  let found := store.device.zoneList.filter fun zone =>
    zone.state = .sealed ∧ zone.liveBytes * sweepLiveFractionDenominator < zoneBytes
  ((found.map fun zone => (zone.liveBytes, zone.zone)).insertionSort lighter).map Prod.snd

/-- Choose the zones to sweep; the last chosen is swept first. -/
def selecting (store : Store (ZoneMap g)) : Progress × Collector :=
  let chosen := (candidates store).reverse
  if chosen.isEmpty then (.done, { self with chosen := chosen, phase := .idle })
  else (.selected, { self with chosen := chosen, phase := .sweeping })

/-- The live blocks of a zone, in the order they stand in. -/
def liveIn (store : Store (ZoneMap g)) (mark : Mark) (zone : Nat) : List Nat :=
  (store.device.holds zone).filter fun logical => store.device.physical[logical]?.any mark.bits.get

/-- Take the next chosen zone and condemn it. -/
def startSweep (store : Store (ZoneMap g)) :
    Except Refusal Progress × Collector × Store (ZoneMap g) :=
  match self.chosen with
  | [] => (.ok .selected, { self with phase := .selecting }, store)
  | zone :: rest =>
    match store.device.condemn zone with
    | .error refusal => (.error refusal, { self with chosen := rest }, store)
    | .ok map =>
      let store := { store with device := map }
      (.ok .selected,
        { self with
          chosen := rest
          sweeping := some ⟨zone, liveIn store self.mark zone, false⟩ },
        store)

/-- Copy the next live block of the condemned zone forward. -/
def copyNext (store : Store (ZoneMap g)) (sweep : Sweep) (logical : Nat) (rest : List Nat) :
    Except Refusal Progress × Collector × Store (ZoneMap g) :=
  let self := { self with sweeping := some { sweep with remaining := rest } }
  match self.queue.collectorOperation with
  | .error refusal => (.error refusal, self, store)
  | .ok queue =>
    let self := { self with queue := queue }
    match store.device.copyForward logical with
    | (.error refusal, map) => (.error refusal, self, { store with device := map })
    | (.ok _, map) =>
      (.ok .copied,
        { self with copiedBytes := self.copiedBytes + store.blockBytes },
        { store with device := map })

/-- Repoint the map at the copies and recompute the mark. -/
def commitSweep (store : Store (ZoneMap g)) (roots : Roots) (sweep : Sweep) :
    Except Refusal Progress × Collector × Store (ZoneMap g) :=
  let self := { self with sweeping := some { sweep with committed := true } }
  match self.queue.collectorOperation with
  | .error refusal => (.error refusal, self, store)
  | .ok queue =>
    let self := { self with queue := queue }
    match store.device.commitCopies with
    | (.error refusal, map) => (.error refusal, self, { store with device := map })
    | (.ok _, map) =>
      let store := { store with device := map }
      let mark := self.mark.rebuild store roots
      match mark.publish store.device with
      | .error refusal => (.error refusal, { self with mark := mark }, store)
      | .ok map => (.ok .committed, { self with mark := mark }, { store with device := map })

/-- Reset the condemned zone, when no reader is inside and the invariants hold. -/
def resetZone (store : Store (ZoneMap g)) (roots : Roots) (zone : Nat) :
    Except Refusal Progress × Collector × Store (ZoneMap g) :=
  if !Invariants.noReaderBelievesTheZone store.device zone then
    (.ok .waiting, self, store)
  else if !Invariants.allThree store.device self.mark roots self.queue zone then
    (.error .malformed, self, store)
  else
    match self.queue.collectorOperation with
    | .error refusal => (.error refusal, self, store)
    | .ok queue =>
      let self := { self with queue := queue }
      match store.device.recycle zone with
      | .error refusal => (.error refusal, self, store)
      | .ok map =>
        (.ok .reset,
          { self with zonesCondemned := self.zonesCondemned + 1, sweeping := none },
          { store with device := map })

/-- One step of a sweep. -/
def sweepStep (store : Store (ZoneMap g)) (roots : Roots) :
    Except Refusal Progress × Collector × Store (ZoneMap g) :=
  match self.sweeping with
  | none => self.startSweep store
  | some sweep =>
    match sweep.remaining with
    | logical :: rest => self.copyNext store sweep logical rest
    | [] =>
      if !sweep.committed then self.commitSweep store roots sweep
      else self.resetZone store roots sweep.zone

/-- One step of the collection. -/
def step (store : Store (ZoneMap g)) (roots : Roots) :
    Except Refusal Progress × Collector × Store (ZoneMap g) :=
  if self.phase = .idle then (.ok .done, self, store)
  else
    let self := self.catchUp store roots
    match self.phase with
    | .idle => (.ok .done, self, store)
    | .marking => self.marking store roots
    | .selecting =>
      let selected := self.selecting store
      (.ok selected.1, selected.2, store)
    | .sweeping => self.sweepStep store roots

/-- Settle the queue at the end of a collection. -/
def settled (steps : Nat) : Except Refusal Nat × Collector :=
  match self.queue.settle with
  | .error refusal => (.error refusal, self)
  | .ok queue => (.ok steps, { self with queue := queue })

/-- Step until done, waiting or refused; `none` when still at work after `fuel` steps. -/
def collectLoop (roots : Roots) :
    Nat → Nat → Collector → Store (ZoneMap g) →
      Option (Except Refusal Nat) × Collector × Store (ZoneMap g)
  | 0, _, self, store => (none, self, store)
  | fuel + 1, steps, self, store =>
    match self.step store roots with
    | (.error refusal, self, store) => (some (.error refusal), self, store)
    | (.ok .done, self, store) =>
      let ended := { self with phase := .idle }.settled steps
      (some ended.1, ended.2, store)
    | (.ok .waiting, self, store) =>
      let ended := self.settled steps
      (some ended.1, ended.2, store)
    | (.ok _, self, store) => collectLoop roots fuel (steps + 1) self store

/-- A whole collection. -/
def collect (fuel : Nat) (self : Collector) (store : Store (ZoneMap g)) (roots : Roots) :
    Option (Except Refusal Nat) × Collector × Store (ZoneMap g) × Roots :=
  let begun := self.begin roots
  let ended := collectLoop begun.2 fuel 0 begun.1 store
  (ended.1, ended.2.1, ended.2.2, begun.2)

end Collector

end FSystem.Zone
