import FSystem.Zone.Refinement

/-!
# The map a remount rebuilds

The written blocks of the data zones, zone after zone, are numbered from one on;
every zone that holds any is sealed, and none is open.
-/

namespace FSystem.Zone

open Abi Maps Std List

variable {g : Geometry}

/-- How many blocks of a zone are behind its write pointer. -/
def ZonedMemory.filled (self : ZonedMemory g) (zone : Nat) : Nat :=
  if self.sealed zone then g.zoneBlocks else self.written zone

variable {zone : Nat}

namespace ZonedMemory

variable (self : ZonedMemory g)

theorem filled_le (zone : Nat) : self.filled zone ≤ g.zoneBlocks := by
  unfold filled
  split
  · exact Nat.le_refl _
  · exact self.written_le zone

/-- What the device says about one of its zones. -/
theorem report_eq (inside : zone < g.zoneCount) :
    ∃ report, self.report zone = .ok report ∧ report.start = g.startOf zone ∧
      report.writePointer = g.startOf zone + self.filled zone := by
  unfold report filled
  rw [if_neg (Nat.not_le.mpr inside)]
  refine ⟨_, rfl, rfl, ?_⟩
  by_cases isSealed : self.sealed zone = true <;>
    by_cases atEnd : self.written zone = g.zoneBlocks <;> simp [isSealed, atEnd]

end ZonedMemory

namespace ZoneMap

section Run

variable (self : ZoneMap g) (count logical block other : Nat)

/-- Mapping a run of blocks changes only the two maps. -/
theorem insertRun_keeps (count logical block : Nat) :
    (self.insertRun count logical block).device = self.device ∧
      (self.insertRun count logical block).dataFrom = self.dataFrom ∧
      (self.insertRun count logical block).zones = self.zones ∧
      (self.insertRun count logical block).opened = self.opened ∧
      (self.insertRun count logical block).copies = self.copies := by
  induction count generalizing self logical block with
  | zero => exact ⟨rfl, rfl, rfl, rfl, rfl⟩
  | succ count ih => exact ih _ _ _

/-- A run is its first block and the run behind it. -/
theorem ite_run (first value count other : Nat) (rest : Option Nat) :
    (if first + 1 ≤ other ∧ other < first + 1 + count then
        some (value + 1 + (other - (first + 1)))
      else if first = other then some value else rest) =
      if first ≤ other ∧ other < first + (count + 1) then some (value + (other - first))
      else rest := by
  split_ifs <;> first | omega | rfl | (congr 1; omega)

/-- Where a run of blocks is mapped. -/
theorem insertRun_physical :
    (self.insertRun count logical block).physical[other]? =
      if logical ≤ other ∧ other < logical + count then some (block + (other - logical))
      else self.physical[other]? := by
  induction count generalizing self logical block with
  | zero =>
    rw [if_neg (by omega)]
    rfl
  | succ count ih =>
    rw [insertRun, ih]
    simp only [insert, TreeMap.getElem?_insert, Std.compare_eq_iff_eq]
    exact ite_run ..

/-- Which logical block each block of a run holds. -/
theorem insertRun_logical :
    (self.insertRun count logical block).logical[other]? =
      if block ≤ other ∧ other < block + count then some (logical + (other - block))
      else self.logical[other]? := by
  induction count generalizing self logical block with
  | zero =>
    rw [if_neg (by omega)]
    rfl
  | succ count ih =>
    rw [insertRun, ih]
    simp only [insert, TreeMap.getElem?_insert, Std.compare_eq_iff_eq]
    exact ite_run ..

/-- A run of fresh blocks keeps the maps inverse. -/
theorem insertRun_inverse (count logical block : Nat) (inverse : Inverse self.physical self.logical)
    (freshLogical : ∀ other : Nat, logical ≤ other → self.physical[other]? = none)
    (freshBlock : ∀ other : Nat, block ≤ other → other < block + count →
      self.logical[other]? = none) :
    Inverse (self.insertRun count logical block).physical
      (self.insertRun count logical block).logical := by
  induction count generalizing self logical block with
  | zero => exact inverse
  | succ count ih =>
    have first := inverse.insert (freshLogical logical (Nat.le_refl _))
      (freshBlock block (Nat.le_refl _) (by omega))
    refine ih (self.insert logical block) (logical + 1) (block + 1) first ?_ ?_
    · intro other above
      have apart : ¬logical = other := by omega
      simp only [insert, TreeMap.getElem?_insert, Std.compare_eq_iff_eq, apart, if_false]
      exact freshLogical other (by omega)
    · intro other above below
      have apart : ¬block = other := by omega
      simp only [insert, TreeMap.getElem?_insert, Std.compare_eq_iff_eq, apart, if_false]
      exact freshBlock other (by omega) (by omega)

end Run

/-- The blocks behind the write pointers of some zones, zone after zone. -/
def filledBlocks (device : ZonedMemory g) (zones : List Nat) : List Nat :=
  zones.flatMap fun zone => range' (g.startOf zone) (device.filled zone)

/-- What numbering the blocks of some zones does to a map. -/
structure Numbered (before : ZoneMap g) (first : Nat) (listed : List Nat)
    (after : ZoneMap g) : Prop where
  device : after.device = before.device
  dataFrom : after.dataFrom = before.dataFrom
  opened : after.opened = before.opened
  copies : after.copies = before.copies
  zones : ∀ zone : Nat, after.zones[zone]? =
    if zone ∈ listed ∧ 0 < before.device.filled zone then some ⟨zone, .sealed, 0, 0⟩
    else before.zones[zone]?
  physical : ∀ logical : Nat, after.physical[logical]? =
    if first ≤ logical ∧ logical < first + (filledBlocks before.device listed).length then
      (filledBlocks before.device listed)[logical - first]?
    else before.physical[logical]?
  inverse : Inverse after.physical after.logical

/-- What numbering the blocks of one zone does to a map. -/
def numberZone (self : ZoneMap g) (first zone : Nat) : ZoneMap g :=
  let numbered := self.insertRun (self.device.filled zone) first (g.startOf zone)
  if 0 < self.device.filled zone then numbered.setZone zone ⟨zone, .sealed, 0, 0⟩
  else numbered

theorem remountZones_cons (self : ZoneMap g) (first : Nat) (rest : List Nat)
    (inside : zone < g.zoneCount) :
    self.remountZones first (zone :: rest) =
      (self.numberZone first zone).remountZones (first + self.device.filled zone) rest := by
  obtain ⟨report, reported, start, pointer⟩ := self.device.report_eq inside
  have count : report.writePointer - g.startOf zone = self.device.filled zone := by
    rw [pointer, Nat.add_sub_cancel_left]
  have written : g.startOf zone < report.writePointer ↔ 0 < self.device.filled zone := by omega
  simp only [remountZones, reported, start, count, written]
  rfl

/-- Numbering one zone is numbering the blocks of that zone. -/
theorem numberZone_numbered
    (self : ZoneMap g)
    (first zone : Nat)
    (inverse : Inverse self.physical self.logical)
    (freshLogical : ∀ other : Nat, first ≤ other → self.physical[other]? = none)
    (freshBlock : ∀ other : Nat, other / g.zoneBlocks = zone → self.logical[other]? = none) :
    Numbered self first [zone] (self.numberZone first zone) ∧
      ∀ other : Nat, other / g.zoneBlocks ≠ zone →
        (self.numberZone first zone).logical[other]? = self.logical[other]? := by
  have bound := self.device.filled_le zone
  -- a block of the run lies in the zone
  have inZone : ∀ other, g.startOf zone ≤ other →
      other < g.startOf zone + self.device.filled zone → other / g.zoneBlocks = zone := by
    intro other above below
    have offset := g.startOf_add_div zone (other - g.startOf zone) (by omega)
    rw [Nat.add_sub_cancel' above] at offset
    exact offset
  obtain ⟨device, dataFrom, zones, opened, copies⟩ :=
    self.insertRun_keeps (self.device.filled zone) first (g.startOf zone)
  have mapsInverse := self.insertRun_inverse (self.device.filled zone) first
    (g.startOf zone) inverse freshLogical
    (fun other above below => freshBlock other (inZone other above below))
  have physical := self.insertRun_physical (self.device.filled zone) first (g.startOf zone)
  have logical := self.insertRun_logical (self.device.filled zone) first (g.startOf zone)
  unfold numberZone
  generalize self.insertRun (self.device.filled zone) first (g.startOf zone) = numbered at *
  have listed : ∀ logical : Nat, numbered.physical[logical]? =
      if first ≤ logical ∧ logical < first + (filledBlocks self.device [zone]).length then
        (filledBlocks self.device [zone])[logical - first]?
      else self.physical[logical]? := by
    intro other
    rw [physical]
    simp only [filledBlocks, flatMap_cons, flatMap_nil, append_nil, length_range']
    split
    next inside => rw [getElem?_range' (by omega), Nat.one_mul]
    next => rfl
  have others : ∀ other : Nat, other / g.zoneBlocks ≠ zone →
      numbered.logical[other]? = self.logical[other]? := by
    intro other apart
    rw [logical, if_neg]
    rintro ⟨above, below⟩
    exact apart (inZone other above below)
  by_cases written : 0 < self.device.filled zone
  · rw [if_pos written]
    refine ⟨⟨device, dataFrom, opened, copies, ?_, listed, mapsInverse⟩, others⟩
    intro other
    rw [getElem?_setZone, zones]
    by_cases same : zone = other
    · subst same
      simp [written]
    · simp [same, Ne.symm same]
  · rw [if_neg written]
    refine ⟨⟨device, dataFrom, opened, copies, ?_, listed, mapsInverse⟩, others⟩
    intro other
    rw [zones, if_neg]
    rintro ⟨member, positive⟩
    rw [mem_singleton] at member
    subst member
    exact written positive

/-- Numbering some zones and then some more is numbering all of them. -/
theorem Numbered.append
    {before between after : ZoneMap g}
    {first : Nat}
    {listed more : List Nat}
    (one : Numbered before first listed between)
    (other : Numbered between (first + (filledBlocks before.device listed).length) more after) :
    Numbered before first (listed ++ more) after where
  device := other.device.trans one.device
  dataFrom := other.dataFrom.trans one.dataFrom
  opened := other.opened.trans one.opened
  copies := other.copies.trans one.copies
  zones := by
    intro zone
    rw [other.zones, one.zones, one.device]
    by_cases written : 0 < before.device.filled zone
    · by_cases inMore : zone ∈ more
      · simp [written, inMore]
      · simp [written, inMore]
    · simp [written]
  physical := by
    intro logical
    have blocks : filledBlocks before.device (listed ++ more) =
        filledBlocks before.device listed ++ filledBlocks before.device more := by
      simp [filledBlocks]
    rw [other.physical, one.physical, one.device, blocks, length_append]
    rcases Nat.lt_or_ge logical (first + (filledBlocks before.device listed).length) with
      below | above
    · rw [if_neg (by omega)]
      by_cases started : first ≤ logical
      · rw [if_pos ⟨started, below⟩, if_pos (by omega), getElem?_append_left (by omega)]
      · rw [if_neg (by omega), if_neg (by omega)]
    · by_cases inside : logical < first + (filledBlocks before.device listed).length +
          (filledBlocks before.device more).length
      · rw [if_pos ⟨above, inside⟩, if_pos (by omega),
          getElem?_append_right (by omega)]
        congr 1
        omega
      · rw [if_neg (by omega), if_neg (by omega), if_neg (by omega)]
  inverse := other.inverse

theorem remountZones_numbered
    (zones : List Nat)
    (self : ZoneMap g)
    (first : Nat)
    (nodup : zones.Nodup)
    (inside : ∀ zone ∈ zones, zone < g.zoneCount)
    (inverse : Inverse self.physical self.logical)
    (freshLogical : ∀ other : Nat, first ≤ other → self.physical[other]? = none)
    (freshBlock : ∀ other : Nat, other / g.zoneBlocks ∈ zones → self.logical[other]? = none) :
    ∃ after, self.remountZones first zones = .ok after ∧ Numbered self first zones after := by
  induction zones generalizing self first with
  | nil =>
    refine ⟨self, rfl, rfl, rfl, rfl, rfl, by simp, ?_, inverse⟩
    intro logical
    rw [if_neg]
    simp only [filledBlocks, flatMap_nil, length_nil]
    omega
  | cons zone rest ih =>
    obtain ⟨fresh, nodup⟩ := List.nodup_cons.mp nodup
    obtain ⟨one, others⟩ := self.numberZone_numbered first zone inverse freshLogical
      (fun other same => freshBlock other (by rw [same]; exact mem_cons_self))
    have count : (filledBlocks self.device [zone]).length = self.device.filled zone := by
      simp [filledBlocks]
    obtain ⟨after, ok, later⟩ := ih (self.numberZone first zone)
      (first + self.device.filled zone) nodup
      (fun other member => inside other (mem_cons_of_mem _ member)) one.inverse
      (by
        intro other above
        rw [one.physical, if_neg (by rw [count]; omega)]
        exact freshLogical other (by omega))
      (by
        intro other member
        rw [others other (by rintro rfl; exact fresh member)]
        exact freshBlock other (mem_cons_of_mem _ member))
    rw [remountZones_cons self first rest (inside zone mem_cons_self)]
    rw [← count] at later ok
    refine ⟨after, ?_, one.append later⟩
    rw [← count]
    exact ok

/-- What a remount rebuilds. -/
structure Remounted (base : ZonedMemory g) (first : Nat) (map : ZoneMap g) : Prop where
  device : map.device = base
  dataFrom : map.dataFrom = first
  opened : map.opened = none
  copies : map.copies = ∅
  zones : ∀ zone : Nat, map.zones[zone]? =
    if first ≤ zone ∧ zone < g.zoneCount then
      if 0 < base.filled zone then some ⟨zone, .sealed, 0, 0⟩ else some (freeZone zone)
    else none
  physical : ∀ logical : Nat, map.physical[logical]? =
    if logical = 0 then some 0
    else (filledBlocks base (dataZones g first))[logical - 1]?
  inverse : Inverse map.physical map.logical

variable {device : ZonedMemory g}

theorem remount_ok {dataFrom : Nat} {map : ZoneMap g} (ok : remount device dataFrom = .ok map) :
    Remounted device dataFrom map := by
  unfold remount at ok
  split at ok
  · cases ok
  rename_i blank created
  have new := new_ok created
  obtain ⟨after, numbered, spec⟩ := blank.remountZones_numbered (dataZones g dataFrom) 1
    nodup_range' (fun zone member => ((mem_dataZones g dataFrom zone).mp member).2)
    new.wellFormed.inverse
    (fun other above => by rw [new.physical, if_neg (by omega)])
    (by
      intro other member
      have dataFromPos := blank.dataFrom_pos
      rw [new.dataFrom] at dataFromPos
      have data := (mem_dataZones g dataFrom _).mp member
      rw [new.logical, if_neg]
      rintro rfl
      rw [Nat.zero_div] at data
      omega)
  rw [ok] at numbered
  cases numbered
  refine ⟨spec.device.trans new.device, spec.dataFrom.trans new.dataFrom,
    spec.opened.trans new.opened, spec.copies.trans new.copies, ?_, ?_, spec.inverse⟩
  · intro zone
    rw [spec.zones, new.zones, new.device]
    simp only [mem_dataZones]
    by_cases data : dataFrom ≤ zone ∧ zone < g.zoneCount
    · simp [data]
    · simp [data]
  · intro logical
    rw [spec.physical, new.physical, new.device]
    by_cases zero : logical = 0
    · rw [if_neg (by omega)]
      simp [zero]
    · rw [if_neg zero, if_neg zero]
      split
      next => rfl
      next outside => rw [getElem?_eq_none (by omega)]

/-- A block behind a write pointer lies in its zone. -/
theorem mem_filledBlocks {zones : List Nat} (block : Nat) :
    block ∈ filledBlocks device zones ↔
      block / g.zoneBlocks ∈ zones ∧
        block % g.zoneBlocks < device.filled (block / g.zoneBlocks) := by
  rw [filledBlocks, mem_flatMap]
  constructor
  · rintro ⟨zone, member, inside⟩
    rw [mem_range'_1] at inside
    have bound := device.filled_le zone
    have place : block = g.startOf zone + (block - g.startOf zone) := by omega
    have divides := g.startOf_add_div zone (block - g.startOf zone) (by omega)
    have offset := g.startOf_add_mod zone (block - g.startOf zone) (by omega)
    rw [← place] at divides offset
    rw [divides, offset]
    exact ⟨member, by omega⟩
  · rintro ⟨member, below⟩
    refine ⟨block / g.zoneBlocks, member, ?_⟩
    rw [mem_range'_1, Geometry.startOf]
    have whole := Nat.div_add_mod block g.zoneBlocks
    rw [Nat.mul_comm] at whole
    omega

namespace Remounted

variable {base : ZonedMemory g} {first : Nat} {map : ZoneMap g}

variable (remounted : Remounted base first map)

include remounted

theorem placed {block : Nat} (filled : block ∈ filledBlocks base (dataZones g first)) :
    map.Placed block := by
  rw [mem_filledBlocks, mem_dataZones] at filled
  obtain ⟨data, below⟩ := filled
  constructor
  · refine ⟨⟨block / g.zoneBlocks, .sealed, 0, 0⟩, ?_, by simp⟩
    rw [remounted.zones, if_pos data, if_pos (by omega)]
  · rw [remounted.device]
    unfold ZonedMemory.filled at below
    split at below
    next isSealed => exact .inr isSealed
    next => exact .inl below

/-- A remounted map is well formed. -/
theorem wellFormed : map.WellFormed where
  inverse := remounted.inverse
  known := by
    intro zone
    rw [remounted.zones, remounted.dataFrom]
    constructor
    · rintro ⟨entry, present⟩
      split at present
      next data => exact data
      next => cases present
    · intro data
      rw [if_pos data]
      split <;> exact ⟨_, rfl⟩
  named := by
    intro zone entry present
    rw [remounted.zones] at present
    split_ifs at present <;> cases present <;> rfl
  opened_iff := by
    intro zone
    rw [remounted.opened, remounted.zones]
    constructor
    · intro isOpen
      cases isOpen
    rintro ⟨entry, present, isOpen⟩
    split_ifs at present <;> cases present <;> cases isOpen
  placed := by
    intro logical block mapped
    rw [remounted.physical] at mapped
    split at mapped
    next zero =>
      cases mapped
      exact .inl ⟨zero, rfl⟩
    next => exact .inr (remounted.placed (mem_of_getElem? mapped))
  copied := by
    rw [remounted.copies]
    simp
  copies_injective := by
    rw [remounted.copies]
    simp

theorem copiesAgree : map.CopiesAgree := by
  unfold CopiesAgree
  rw [remounted.copies]
  simp

end Remounted

end ZoneMap

end FSystem.Zone
