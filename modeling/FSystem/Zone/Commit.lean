import FSystem.Zone.Quiescent

/-!
# Publishing leaves the data zones alone

A commit appends to the root zones, and may reset one of them.  As long as these
are zones the map does not manage, nothing the store reads is touched.
-/

namespace FSystem.Zone

open Abi Hash Blob

variable {g : Geometry}

/-- A zone that holds the superblock or data. -/
def Managed (dataFrom zone : Nat) : Prop := zone = 0 ∨ dataFrom ≤ zone

/-- A zone that lies between the superblock and the data. -/
def Reserved (dataFrom zone : Nat) : Prop := 0 < zone ∧ zone < dataFrom

theorem Reserved.ne_of_managed {dataFrom zone other : Nat} (reserved : Reserved dataFrom zone)
    (managed : Managed dataFrom other) : other ≠ zone := by
  unfold Reserved at reserved
  unfold Managed at managed
  omega

/-- Two maps that differ only in what the device's reserved zones hold. -/
structure Aside (before after : ZoneMap g) : Prop where
  dataFrom : after.dataFrom = before.dataFrom
  physical : after.physical = before.physical
  logical : after.logical = before.logical
  zones : after.zones = before.zones
  opened : after.opened = before.opened
  copies : after.copies = before.copies
  contents : ∀ block, Managed before.dataFrom (block / g.zoneBlocks) →
    after.device.contents block = before.device.contents block
  written : ∀ zone, Managed before.dataFrom zone →
    after.device.written zone = before.device.written zone
  sealed : ∀ zone, Managed before.dataFrom zone →
    after.device.sealed zone = before.device.sealed zone

namespace Aside

variable {before between after : ZoneMap g}

theorem refl (map : ZoneMap g) : Aside map map :=
  ⟨rfl, rfl, rfl, rfl, rfl, rfl, fun _ _ => rfl, fun _ _ => rfl, fun _ _ => rfl⟩

theorem trans (first : Aside before between) (second : Aside between after) :
    Aside before after where
  dataFrom := second.dataFrom.trans first.dataFrom
  physical := second.physical.trans first.physical
  logical := second.logical.trans first.logical
  zones := second.zones.trans first.zones
  opened := second.opened.trans first.opened
  copies := second.copies.trans first.copies
  contents := by
    intro block managed
    rw [second.contents block (by rw [first.dataFrom]; exact managed)]
    exact first.contents block managed
  written := by
    intro zone managed
    rw [second.written zone (by rw [first.dataFrom]; exact managed)]
    exact first.written zone managed
  sealed := by
    intro zone managed
    rw [second.sealed zone (by rw [first.dataFrom]; exact managed)]
    exact first.sealed zone managed

theorem deviceRead (aside : Aside before after) {block : Nat}
    (managed : Managed before.dataFrom (block / g.zoneBlocks)) :
    after.device.read block g.blockBytes = before.device.read block g.blockBytes :=
  ZonedMemory.read_congr (aside.contents block managed) (aside.written _ managed)

variable (sound : before.WellFormed)
include sound

/-- The zone a mapped block or a copy lies in is managed. -/
theorem managed_of_placed {block : Nat}
    (placed : before.Placed block) : Managed before.dataFrom (block / g.zoneBlocks) :=
  .inr (sound.dataFrom_le_of_placed placed).1

theorem managed_of_mapped {logical block : Nat} (mapped : before.physical[logical]? = some block) :
    Managed before.dataFrom (block / g.zoneBlocks) := by
  rcases sound.placed logical block mapped with ⟨-, rfl⟩ | placed
  · exact .inl (Nat.zero_div _)
  · exact managed_of_placed sound placed

variable (aside : Aside before after)
include aside

theorem placed_iff (block : Nat) : after.Placed block ↔ before.Placed block := by
  unfold ZoneMap.Placed
  rw [aside.zones]
  refine and_congr_right ?_
  rintro ⟨entry, present, inUse⟩
  have managed : Managed before.dataFrom (block / g.zoneBlocks) :=
    .inr ((sound.known _).mp ⟨entry, present⟩).1
  rw [aside.written _ managed, aside.sealed _ managed]

/-- What is done aside changes no read. -/
theorem read (logical : Nat) :
    after.read logical g.blockBytes = before.read logical g.blockBytes := by
  unfold ZoneMap.read
  rw [aside.physical]
  cases mapped : before.physical[logical]? with
  | none => rfl
  | some place => exact aside.deviceRead (managed_of_mapped sound mapped)

theorem wellFormed : after.WellFormed where
  inverse := by
    rw [aside.physical, aside.logical]
    exact sound.inverse
  known := by
    rw [aside.zones, aside.dataFrom]
    exact sound.known
  named := by
    rw [aside.zones]
    exact sound.named
  opened_iff := by
    rw [aside.opened, aside.zones]
    exact sound.opened_iff
  placed := by
    intro logical block mapped
    rw [aside.physical] at mapped
    rw [aside.placed_iff sound]
    exact sound.placed logical block mapped
  copied := by
    intro logical copy present
    rw [aside.copies] at present
    rw [aside.physical, aside.logical, aside.placed_iff sound]
    exact sound.copied logical copy present
  copies_injective := by
    rw [aside.copies]
    exact sound.copies_injective

theorem copiesAgree (agree : before.CopiesAgree) : after.CopiesAgree := by
  intro logical copy present
  rw [aside.copies] at present
  obtain ⟨-, placed, -⟩ := sound.copied logical copy present
  rw [aside.deviceRead (managed_of_placed sound placed), aside.read sound]
  exact agree logical copy present

end Aside

section Operations

variable {map after : ZoneMap g} {zone : Nat}

theorem flush_aside (map : ZoneMap g) : Aside map map.flush :=
  ⟨rfl, rfl, rfl, rfl, rfl, rfl, fun _ _ => rfl, fun _ _ => rfl, fun _ _ => rfl⟩

theorem appendReserved_aside (map : ZoneMap g) (zone : Nat) (source : Bytes) :
    Aside map (map.appendReserved zone source).2 := by
  unfold ZoneMap.appendReserved
  split
  next => exact .refl map
  next inside =>
    have reserved : Reserved map.dataFrom zone := by
      unfold Reserved
      omega
    unfold ZoneMap.deviceAppend
    cases appended : map.device.append zone source with
    | error refusal => exact .refl map
    | ok result =>
      obtain ⟨block, device⟩ := result
      obtain ⟨-, -, -, -, -, -, contents, written, sealed, -⟩ := ZonedMemory.append_ok appended
      refine ⟨rfl, rfl, rfl, rfl, rfl, rfl, ?_, ?_, ?_⟩
      · intro other managed
        have apart : other ≠ block := by
          rintro rfl
          rw [(ZonedMemory.append_place appended).1] at managed
          exact reserved.ne_of_managed managed rfl
        simp [contents, apart]
      · intro other managed
        simp [written, reserved.ne_of_managed managed]
      · intro other _
        simp [sealed]

theorem reset_aside {device : ZonedMemory g} (reserved : Reserved map.dataFrom zone)
    (ok : map.device.reset zone = .ok device) : Aside map { map with device := device } := by
  obtain ⟨contents, written, sealed, -⟩ := ZonedMemory.reset_ok ok
  refine ⟨rfl, rfl, rfl, rfl, rfl, rfl, ?_, ?_, ?_⟩
  · intro block managed
    have outside : ¬g.inZone zone block = true := by
      rw [g.inZone_eq_true zone block map.zoneBlocks_pos]
      exact reserved.ne_of_managed managed
    simp [contents, outside]
  · intro other managed
    simp [written, reserved.ne_of_managed managed]
  · intro other managed
    simp [sealed, reserved.ne_of_managed managed]

end Operations

/-- Two states of a store that differ only in the reserved zones. -/
structure StoreAside (before after : Store (ZoneMap g)) : Prop where
  superblock : after.superblock = before.superblock
  located : after.located = before.located
  free : after.free = before.free
  map : Aside before.device after.device

namespace StoreAside

variable {before between after : Store (ZoneMap g)}

theorem refl (store : Store (ZoneMap g)) : StoreAside store store :=
  ⟨rfl, rfl, rfl, .refl _⟩

theorem trans (first : StoreAside before between) (second : StoreAside between after) :
    StoreAside before after :=
  ⟨second.superblock.trans first.superblock, second.located.trans first.located,
    second.free.trans first.free, first.map.trans second.map⟩

theorem unchanged (aside : StoreAside before after) (wellFormed : before.device.WellFormed) :
    Unchanged before after :=
  { aside, aside.map with
    thins logical place mapped :=
      ⟨⟨place, aside.map.physical ▸ mapped⟩, aside.map.read wellFormed logical⟩
    read := aside.map.read wellFormed }

theorem grounded (aside : StoreAside before after) (grounded : Grounded before) : Grounded after :=
  (aside.unchanged grounded.wellFormed).toFades.grounded grounded (aside.map.wellFormed
    grounded.wellFormed) (aside.map.copiesAgree grounded.wellFormed grounded.agree)

end StoreAside

/-- The root zones of a store are zones its map does not manage. -/
structure RootsReserved (store : Store (ZoneMap g)) : Prop where
  first : Reserved store.device.dataFrom store.superblock.rootZoneA.toNat
  second : Reserved store.device.dataFrom store.superblock.rootZoneB.toNat

/-- Root zones stay reserved while the superblock and the map's bounds do. -/
theorem RootsReserved.of_same {before after : Store (ZoneMap g)} (reserved : RootsReserved before)
    (superblock : after.superblock = before.superblock)
    (dataFrom : after.device.dataFrom = before.device.dataFrom) : RootsReserved after := by
  constructor
  · rw [superblock, dataFrom]
    exact reserved.first
  · rw [superblock, dataFrom]
    exact reserved.second

section Publish

variable (store : Store (ZoneMap g))

/-- A root record touches no managed zone. -/
theorem appendRecord_aside (zone : Nat) (record : RootRecord) :
    StoreAside store (appendRecord store zone record).2 := by
  have aside := appendReserved_aside store.device zone (rootBlock store.blockBytes record)
  unfold appendRecord
  rcases result : store.device.appendReserved zone (rootBlock store.blockBytes record) with
    ⟨answer, map⟩
  rw [result] at aside
  cases answer with
  | error refusal | ok block => exact ⟨rfl, rfl, rfl, aside⟩

theorem carry_aside (zone : Nat) (records : List RootRecord) (store : Store (ZoneMap g)) :
    StoreAside store (carry zone records store).2 := by
  induction records generalizing store with
  | nil => exact .refl store
  | cons record rest ih =>
    have first := appendRecord_aside store zone record
    simp only [carry]
    rcases result : appendRecord store zone record with ⟨answer, next⟩
    rw [result] at first
    cases answer with
    | error refusal => exact first
    | ok done => exact first.trans (ih next)

theorem flush_storeAside : StoreAside store { store with device := store.device.flush } :=
  ⟨rfl, rfl, rfl, flush_aside store.device⟩

/-- Nor does a wrap. -/
theorem wrap_aside (active : Nat) {other : Nat} (reserved : Reserved store.device.dataFrom other) :
    StoreAside store (wrap store active other).2 := by
  have carries {report : Report} {device : ZonedMemory g} {answered : Except Refusal Unit × _}
      (reset : store.device.device.reset other = .ok device)
      (carried : carry other (carried store report).reverse (onDevice store device) = answered) :
      StoreAside store answered.2 := by
    have emptied : StoreAside store (onDevice store device) :=
      ⟨rfl, rfl, rfl, reset_aside reserved reset⟩
    exact carried ▸ emptied.trans (carry_aside other _ _)
  fun_cases wrap store active other with
  | case5 _ _ _ _ _ _ reset _ _ carried => exact carries reset carried
  | case6 _ _ _ _ _ _ reset next carried =>
    exact (carries reset carried).trans (flush_storeAside next)
  | _ => exact .refl store

variable {store}

theorem rootZoneForTheNextRecord_aside (reserved : RootsReserved store) :
    StoreAside store (rootZoneForTheNextRecord store).2 := by
  fun_cases rootZoneForTheNextRecord store with
  | case5 first second _ _ _ _ active other =>
    apply wrap_aside
    simp only [other]
    split
    · exact reserved.first
    · exact reserved.second
  | _ => exact .refl store

/-- A commit, refused or not, changes only the reserved zones of the store. -/
theorem commit_aside (reserved : RootsReserved store) (publisher : Publisher) (roots : Roots)
    (record : RootRecord) : StoreAside store (publisher.commit store roots record).2.1 := by
  unfold Publisher.commit
  cases publisher.appended roots store with
  | error refusal => exact .refl store
  | ok noted =>
    have flushed := flush_storeAside store
    have barrier : store.barrier = (.ok (), { store with device := store.device.flush }) := rfl
    simp only [barrier]
    have chosen := @rootZoneForTheNextRecord_aside g
      { store with device := store.device.flush } ⟨reserved.first, reserved.second⟩
    rcases result : rootZoneForTheNextRecord { store with device := store.device.flush } with
      ⟨answer, ready⟩
    rw [result] at chosen
    cases answer with
    | error refusal => exact flushed.trans chosen
    | ok zone =>
      have appended := appendRecord_aside ready zone (Publisher.sealRecord record)
      simp only
      rcases written : appendRecord ready zone (Publisher.sealRecord record) with
        ⟨answer, next⟩
      rw [written] at appended
      have aside := (flushed.trans chosen).trans appended
      cases answer with
      | error refusal => exact aside
      | ok done =>
        simp only
        split
        next => exact aside.trans (flush_storeAside next)
        next => exact aside.trans (flush_storeAside next)

/-- A commit notes what the publish wrote, if anything, and then, if not refused, adopts the
root. -/
theorem commit_roots (publisher : Publisher) (store : Store (ZoneMap g)) (roots : Roots)
    (record : RootRecord) :
    (∃ refusal, (publisher.commit store roots record).1 = .error refusal ∧
      (publisher.commit store roots record).2.2 = roots) ∨
      ∃ noted, publisher.appended roots store = .ok noted ∧
        ((∃ refusal, (publisher.commit store roots record).1 = .error refusal ∧
          (publisher.commit store roots record).2.2 = noted.2) ∨
        ((publisher.commit store roots record).1 = .ok (Publisher.sealRecord record) ∧
          noted.2.adopt publisher.set record.root =
            .ok (publisher.commit store roots record).2.2)) := by
  fun_cases Publisher.commit publisher store roots record with
  | case1 refusal => exact .inl ⟨refusal, rfl, rfl⟩
  | case6 next noted appended _ _ _ _ _ _ _ _ _ after adopted =>
    exact .inr ⟨(next, noted), appended, .inr ⟨rfl, adopted⟩⟩
  | _ next noted appended => exact .inr ⟨(next, noted), appended, .inl ⟨_, rfl, rfl⟩⟩

end Publish

end FSystem.Zone
