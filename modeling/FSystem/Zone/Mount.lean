import FSystem.Zone.Publish
import FSystem.Library.Worklist
import Mathlib.Data.List.Destutter
import Mathlib.Data.List.Sort

/-!
# Mounting

A mount numbers what the data zones hold, rebuilds the table, and answers the
highest-numbered root record that verifies and whose whole tree can be read.
-/

namespace FSystem.Zone

open Abi Hash Blob

/-- What a mount found. -/
structure Mounted where
  root : Option RootRecord
  rootsRefusedCheck : Nat
  rootsRefusedUnresolved : Nat
  blobs : Nat
  deriving DecidableEq

section Walk

variable {g : Geometry}

/-- The hashes an object names, when its content is well formed. -/
def objectChildren (content : Bytes) : Option (List Digest) :=
  if content.length < headBytes then none
  else
    match ObjectHead.fromBytes (content.take headBytes) with
    | .error _ => none
    | .ok head =>
      if head.bytes ≠ content.length then none
      else some (hashesAfter content headBytes head.chunks.toNat)

/-- The hashes an extent names, when its content is well formed. -/
def extentChildren (content : Bytes) : Option (List Digest) :=
  if content.length < headBytes then none
  else
    match ExtentHead.fromBytes (content.take headBytes) with
    | .error _ => none
    | .ok head =>
      if head.bytes ≠ content.length then none
      else some (hashesAfter content headBytes head.pieces.toNat)

/-- The hashes a well-formed blob names; a chunk is a leaf. -/
def childrenIn (kind : Abi.Kind) (content : Bytes) : Option (List Digest) :=
  match kind with
  | .chunk => some []
  | .extent => extentChildren content
  | .object | .generation => objectChildren content

variable (store : Store (ZoneMap g))

/-- A blob and the hashes it names; `none` when unread or not well formed. -/
def visit (hash : Digest) : Option (List Digest) :=
  match store.head hash with
  | .error _ => none
  | .ok header =>
    match store.get hash header.contentBytes.toNat with
    | .error _ => none
    | .ok content => childrenIn header.kind content

/-- How many hashes the located records can name, and one for the root. -/
def walkFuel : Nat :=
  1 + (store.located.keys.map fun hash =>
    match store.head hash with
    | .error _ => 0
    | .ok header => header.contentBytes.toNat / 32).sum

/-- The walk from a root through everything its tree names. -/
def resolution (root : Digest) : Worklist.Outcome Digest :=
  Worklist.walk (visit store) (walkFuel store) ∅ [root]

/-- Whether everything reachable from a root can be read. -/
def resolves (root : Digest) : Bool :=
  match resolution store root with
  | .finished _ => true
  | .refused _ | .unfinished => false

end Walk

section Candidates

variable {g : Geometry}

/-- Records in the order of their generations. -/
def older (left right : RootRecord) : Prop := left.generation ≤ right.generation

/-- A way to sort records by generation; as in an unstable sort, ties are left open. -/
structure Sorting where
  sort : List RootRecord → List RootRecord
  perm : ∀ records, (sort records).Perm records
  sorted : ∀ records, (sort records).Pairwise older

section

variable {κ : Type} [LinearOrder κ] (key : RootRecord → κ)

theorem pairwise_keyed (records : List RootRecord) :
    (records.insertionSort (key · ≤ key ·)).Pairwise (key · ≤ key ·) := by
  have : Std.Total (key · ≤ key ·) := ⟨fun _ _ => le_total _ _⟩
  have : IsTrans RootRecord (key · ≤ key ·) := ⟨fun _ _ _ => le_trans⟩
  exact List.pairwise_insertionSort _ records

/-- The sorting by a key that is finer than the generation. -/
def Sorting.keyed (finer : ∀ {left right}, key left ≤ key right → older left right) : Sorting where
  sort := List.insertionSort (key · ≤ key ·)
  perm := List.perm_insertionSort _
  sorted records := (pairwise_keyed key records).imp finer

end

/-- The sorting that leaves the records of one generation in their order. -/
def Sorting.stable : Sorting := .keyed (·.generation.toNat) UInt64.le_iff_toNat_le.mpr

/-- Keep the first of neighbouring records of one generation. -/
def dedupGenerations (records : List RootRecord) : List RootRecord :=
  records.destutter fun left right => left.generation ≠ right.generation

variable (store : Store (ZoneMap g))

/-- The root records of both root zones, in the order they stand in. -/
def rootRecords : Except Refusal (List RootRecord) :=
  match recordsIn store store.superblock.rootZoneA.toNat with
  | .error refusal => .error refusal
  | .ok first =>
    match recordsIn store store.superblock.rootZoneB.toNat with
    | .error refusal => .error refusal
    | .ok second => .ok (first ++ second)

/-- The root records of both root zones, one for each generation, oldest first. -/
def rootCandidates (sorting : Sorting) : Except Refusal (List RootRecord) :=
  match rootRecords store with
  | .error refusal => .error refusal
  | .ok records => .ok (dedupGenerations (sorting.sort records))

/-- Whether a block opens like a root record and does not verify. -/
def torn (block : Nat) : Bool :=
  match store.device.device.read block store.blockBytes with
  | .error _ => false
  | .ok bytes =>
    decide (RootRecord.bytes ≤ bytes.length) && word bytes 0 == rootMagic &&
      (recordAt store block).isNone

/-- How many torn records a zone holds. -/
def tornIn (zone : Nat) : Except Refusal Nat :=
  match store.device.device.report zone with
  | .error refusal => .error refusal
  | .ok report => .ok ((writtenBlocks report).countP (torn store))

/-- How many torn records the root zones hold. -/
def tornRecords : Except Refusal Nat :=
  match tornIn store store.superblock.rootZoneA.toNat with
  | .error refusal => .error refusal
  | .ok first =>
    match tornIn store store.superblock.rootZoneB.toNat with
    | .error refusal => .error refusal
    | .ok second => .ok (first + second)

/-- The first of some records whose root resolves, and how many came before. -/
def firstResolving (store : Store (ZoneMap g)) :
    List RootRecord → Option RootRecord × Nat
  | [] => (none, 0)
  | record :: rest =>
    if resolves store record.root then (some record, 0)
    else
      let found := firstResolving store rest
      (found.1, found.2 + 1)

end Candidates

/-- Mount a device: what was found, and the store over it. -/
def mount {g : Geometry} (sorting : Sorting) (device : ZonedMemory g) (dataFrom : Nat) :
    Except Refusal (Mounted × Store (ZoneMap g)) :=
  match ZoneMap.remount device dataFrom with
  | .error refusal => .error refusal
  | .ok map =>
    match Store.mount map with
    | .error refusal => .error refusal
    | .ok store =>
      match rootCandidates store sorting with
      | .error refusal => .error refusal
      | .ok records =>
        match tornRecords store with
        | .error refusal => .error refusal
        | .ok torn =>
          let found := firstResolving store records.reverse
          .ok ({
              root := found.1
              rootsRefusedCheck := torn
              rootsRefusedUnresolved := found.2
              blobs := store.records }, store)

end FSystem.Zone
