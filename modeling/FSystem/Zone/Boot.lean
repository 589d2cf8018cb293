import FSystem.Blob.Scan
import FSystem.Zone.SystemInvariant

/-!
# Where runs begin

A store that was formatted or mounted is grounded, so every state a booted
system reaches is sane.
-/

namespace FSystem.Zone

open Abi Hash Blob

variable {g : Geometry}

/-- A device's blocks are numbered below the largest block number. -/
theorem ZoneMap.blocks_lt
    (map : ZoneMap g) (positive : 0 < g.blockBytes) : Device.blocks map < 2 ^ 64 := by
  have first : 1 ≤ map.dataFrom * g.zoneBlocks := Nat.mul_pos map.dataFrom_pos map.zoneBlocks_pos
  have split : (g.zoneCount - map.dataFrom) * g.zoneBlocks + map.dataFrom * g.zoneBlocks =
      g.zoneCount * g.zoneBlocks := by
    rw [← Nat.add_mul, Nat.sub_add_cancel map.dataFrom_lt.le]
  calc Device.blocks map
      = 1 + (g.zoneCount - map.dataFrom) * g.zoneBlocks := rfl
    _ ≤ g.zoneCount * g.zoneBlocks := by omega
    _ = g.zoneBlocks * g.zoneCount := Nat.mul_comm _ _
    _ ≤ g.blockBytes * (g.zoneBlocks * g.zoneCount) := Nat.le_mul_of_pos_left _ positive
    _ < 2 ^ 64 := g.addressable

variable {store : Store (ZoneMap g)}

/-- A store a scan of its own device built is grounded. -/
theorem grounded_of_found
    {cursor : Cursor}
    (sound : Store.Sound store)
    (agree : store.device.CopiesAgree)
    (found : Store.Found store.device cursor)
    (free : store.free = cursor.free)
    (located : store.located = cursor.located) :
    Grounded store where
  sound := sound
  agree := agree
  free_pos := free ▸ found.free_pos
  below := by
    rw [free, located]
    exact found.below
  within := by
    intro hash start header known headed
    rw [located] at known
    obtain ⟨other, isHeader, -, bound⟩ := found.within hash start known
    obtain ⟨first, bytes, starts, read, decoded, -⟩ := Store.head_ok headed
    rw [located, known] at starts
    cases starts
    rw [sound.sized] at read
    have same : other = header := by
      simp only [Store.scanned, read, decoded] at isHeader
      split at isHeader
      · cases isHeader
      · exact (Option.some.inj isHeader).symm
    rw [free, sound.sized]
    exact same ▸ bound

/-- A store that was just mounted is grounded. -/
theorem mounted_grounded {map : ZoneMap g} (wellFormed : map.WellFormed)
    (agree : map.CopiesAgree) (mounted : Store.mount map = .ok store) : Grounded store := by
  obtain ⟨block, read, long, sized, isStore⟩ := Store.mount_ok mounted
  have device : store.device = map := congrArg Store.device isStore
  have length : block.length = Device.blockBytes map := LawfulDevice.length_read wellFormed read
  have blockBytes : store.blockBytes = Device.blockBytes map := sized
  have roomy : Header.bytes ≤ Device.blockBytes map := length ▸ Nat.le_trans (by decide) long
  have positive : 0 < Device.blockBytes map := Nat.lt_of_lt_of_le (by decide) roomy
  have addressable := map.blocks_lt positive
  obtain ⟨last, scans, scanned⟩ := Store.scan_scans map (Device.blocks map) Cursor.start
    positive addressable (by simp [Cursor.start])
  have found := Store.found_scans positive addressable scans (Store.found_start map)
  have answer : Store.scan map (Device.blocks map) 1 1 ∅ = (last.free, last.located) := scanned
  rw [answer] at isStore
  refine grounded_of_found ⟨?_, ?_, ?_⟩ ?_ (device ▸ found)
    (congrArg Store.free isStore) (congrArg Store.located isStore)
  · exact device ▸ wellFormed
  · rw [device]
    exact blockBytes
  · exact blockBytes ▸ roomy
  · exact device ▸ agree

/-- A store that was just formatted is grounded. -/
theorem formatted_grounded
    {device : ZonedMemory g}
    {dataFrom : Nat}
    {map : ZoneMap g}
    {layout : Superblock}
    (created : ZoneMap.Created device dataFrom map)
    (formatted : Store.format map layout = .ok store) : Grounded store := by
  obtain ⟨roomy, sized, block, rfl⟩ := Store.format_ok formatted
  have written : (map.write 0 block).2.CopiesAgree :=
    created.copiesAgree.write created.wellFormed block fun place _ _ => by simp [created.copies]
  obtain ⟨bookkept, flushed⟩ := ZoneMap.flush_bookkept (created.wellFormed.write 0 block)
  exact {
    sound := ⟨flushed, sized, Nat.le_trans (by decide) roomy⟩
    agree := bookkept.copiesAgree written
    free_pos := Nat.one_pos
    below := by simp
    within := by simp }

/-- What mounting a device goes through. -/
theorem mount_steps
    {sorting : Sorting}
    {device : ZonedMemory g}
    {dataFrom : Nat}
    {found : Mounted}
    (ok : mount sorting device dataFrom = .ok (found, store)) :
    ∃ map records torn, ZoneMap.Remounted device dataFrom map ∧
      Store.mount map = .ok store ∧ rootCandidates store sorting = .ok records ∧
      found = {
        root := (firstResolving store records.reverse).1
        rootsRefusedCheck := torn
        rootsRefusedUnresolved := (firstResolving store records.reverse).2
        blobs := store.records } := by
  revert ok
  fun_cases mount sorting device dataFrom with
  | case5 map remounted _ isMounted records candidates torn =>
    rintro ⟨⟩
    exact ⟨map, records, torn, ZoneMap.remount_ok remounted, isMounted, candidates, rfl⟩
  | _ => nofun

theorem mount_grounded
    {sorting : Sorting}
    {device : ZonedMemory g}
    {dataFrom : Nat}
    {answer : Mounted × Store (ZoneMap g)}
    (ok : mount sorting device dataFrom = .ok answer) :
    Grounded answer.2 := by
  obtain ⟨map, -, -, remounted, mounted, -⟩ := mount_steps ok
  exact mounted_grounded remounted.wellFormed remounted.copiesAgree mounted

namespace System

theorem around_sane {store : Store (ZoneMap g)} (grounded : Grounded store)
    (reserved : RootsReserved store) : Sane (around store) :=
  ⟨grounded, reserved, rfl⟩

/-- A booted system is sane. -/
theorem Booted.sane {system : System g} (booted : Booted system) : Sane system := by
  cases booted with
  | formatted device dataFrom map layout store created format reserved =>
    exact around_sane (formatted_grounded (ZoneMap.new_ok created) format) reserved
  | mounted sorting device dataFrom found store mount reserved =>
    exact around_sane (mount_grounded mount) reserved

/-- Five zones of sixteen blocks: the superblock's, two for roots, two for data. -/
def small : Geometry := ⟨512, 16, 5, by decide, by decide⟩

/-- The layout of the small device. -/
def smallLayout : Superblock := superblockForThisBuild 512 5 8192 1 2

/-- A map over it. -/
def smallMap : ZoneMap small :=
  (ZoneMap.new (ZonedMemory.new small) 3).toOption.get (by decide +kernel)

/-- The small device, formatted. -/
def smallStore : Store (ZoneMap small) :=
  (Store.format smallMap smallLayout).toOption.get (by decide +kernel)

/-- The small device after two chunks were stored on it. -/
def usedDevice : ZonedMemory small :=
  (Runs.run step (around smallStore)
    [.put none Abi.Kind.chunk.code [1], .put none Abi.Kind.chunk.code [2]]).store.device.device

/-- The used device, mounted: the zone of the two chunks is sealed. -/
def usedMount : Mounted × Store (ZoneMap small) :=
  (mount .stable usedDevice 3).toOption.get (by decide +kernel)

/-- The store it leaves. -/
def usedStore : Store (ZoneMap small) := usedMount.2

theorem mount_used : mount .stable usedDevice 3 = .ok (usedMount.1, usedStore) := by
  have mounted : mount .stable usedDevice 3 = .ok usedMount := Runs.eq_ok_get _
  rw [mounted, usedStore, Prod.mk.eta]

theorem booted_used : Booted (around usedStore) :=
  .mounted .stable usedDevice 3 usedMount.1 usedStore mount_used
    ⟨by unfold Reserved; decide +kernel, by unfold Reserved; decide +kernel⟩

/-- The run lemma: every state a booted system reaches is sane. -/
theorem run_sane {start : System g} (booted : Booted start) (ops : List Op) :
    Sane (Runs.run step start ops) :=
  Runs.invariant_of_step Sane (fun _ op sane => (step_sane sane op).1) booted.sane ops

end System

end FSystem.Zone
