import FSystem.Zone.Map
import FSystem.Library.Maps

/-!
# What every zone map satisfies

The two maps are inverse, mapped blocks and outstanding copies lie below the
write pointer of a zone in use, and the open zone is the recorded one.  Each
operation of the map keeps this, whether or not it is refused.
-/

namespace FSystem.Zone.ZoneMap

open Abi Maps Std ZonedMemory

variable {g : Geometry}

/-- A block of a data zone in use, below the zone's write pointer. -/
def Placed (self : ZoneMap g) (block : Nat) : Prop :=
  (∃ entry : Zone, self.zones[block / g.zoneBlocks]? = some entry ∧ entry.state ≠ .free) ∧
    (block % g.zoneBlocks < self.device.written (block / g.zoneBlocks) ∨
      self.device.sealed (block / g.zoneBlocks) = true)

/-- The invariant of the map. -/
structure WellFormed (map : ZoneMap g) : Prop where
  /-- The two maps are inverse. -/
  inverse : Inverse map.physical map.logical
  /-- The map knows exactly the data zones. -/
  known : ∀ zone : Nat, (∃ entry : Zone, map.zones[zone]? = some entry) ↔
    map.dataFrom ≤ zone ∧ zone < g.zoneCount
  /-- A zone's entry carries its own number. -/
  named : ∀ (zone : Nat) (entry : Zone), map.zones[zone]? = some entry → entry.zone = zone
  /-- The open zone is the recorded one. -/
  opened_iff : ∀ zone : Nat, map.opened = some zone ↔
    ∃ entry : Zone, map.zones[zone]? = some entry ∧ entry.state = .opened
  /-- A mapped block is the superblock or lies in a zone in use. -/
  placed : ∀ logical block : Nat, map.physical[logical]? = some block →
    logical = 0 ∧ block = 0 ∨ map.Placed block
  /-- A copy is of a mapped block, lies in a zone in use and is not mapped. -/
  copied : ∀ logical copy : Nat, map.copies[logical]? = some copy →
    (∃ block : Nat, map.physical[logical]? = some block) ∧ map.Placed copy ∧
      map.logical[copy]? = none
  /-- No two copies share a block. -/
  copies_injective : ∀ first second copy : Nat, map.copies[first]? = some copy →
    map.copies[second]? = some copy → first = second

variable {self : ZoneMap g} {block logical place other : Nat} {entry : Zone}
  {device : ZonedMemory g} {refusal : Refusal}

/-- The zone a placed block lies in is a data zone. -/
theorem WellFormed.dataFrom_le_of_placed (wellFormed : self.WellFormed)
    (placed : self.Placed block) :
    self.dataFrom ≤ block / g.zoneBlocks ∧ block / g.zoneBlocks < g.zoneCount := by
  obtain ⟨⟨entry, present, -⟩, -⟩ := placed
  exact (wellFormed.known _).mp ⟨entry, present⟩

/-- The superblock's block is not in a data zone. -/
theorem WellFormed.not_placed_zero (wellFormed : self.WellFormed) : ¬self.Placed 0 := by
  intro placed
  have inside := wellFormed.dataFrom_le_of_placed placed
  have := self.dataFrom_pos
  simp at inside
  omega

/-- Two maps that differ only in what they know of zones: no zone in use became free, and no
finished one was reopened. -/
structure Bookkept (before after : ZoneMap g) : Prop where
  dataFrom : after.dataFrom = before.dataFrom
  physical : after.physical = before.physical
  logical : after.logical = before.logical
  copies : after.copies = before.copies
  contents : after.device.contents = before.device.contents
  written : after.device.written = before.device.written
  sealed : ∀ zone, before.device.sealed zone = true → after.device.sealed zone = true
  used : ∀ (zone : Nat) (entry : Zone), before.zones[zone]? = some entry → entry.state ≠ .free →
    ∃ entry' : Zone, after.zones[zone]? = some entry' ∧ entry'.state ≠ .free

namespace Bookkept

variable {before between after : ZoneMap g}

theorem refl (self : ZoneMap g) : Bookkept self self where
  dataFrom := rfl
  physical := rfl
  logical := rfl
  copies := rfl
  contents := rfl
  written := rfl
  sealed := fun _ kept => kept
  used := fun _ entry present inUse => ⟨entry, present, inUse⟩

theorem trans (first : Bookkept before between) (second : Bookkept between after) :
    Bookkept before after where
  dataFrom := second.dataFrom.trans first.dataFrom
  physical := second.physical.trans first.physical
  logical := second.logical.trans first.logical
  copies := second.copies.trans first.copies
  contents := second.contents.trans first.contents
  written := second.written.trans first.written
  sealed := fun zone kept => second.sealed zone (first.sealed zone kept)
  used := by
    intro zone entry present inUse
    obtain ⟨entry', present', inUse'⟩ := first.used zone entry present inUse
    exact second.used zone entry' present' inUse'

variable (kept : Bookkept before after)

include kept

theorem placed (placed : before.Placed block) : after.Placed block := by
  obtain ⟨⟨entry, present, inUse⟩, below⟩ := placed
  refine ⟨kept.used _ entry present inUse, ?_⟩
  rw [kept.written]
  exact below.imp_right (kept.sealed _)

theorem deviceRead (block : Nat) :
    after.device.read block g.blockBytes = before.device.read block g.blockBytes := by
  apply read_congr
  · rw [kept.contents]
  · rw [kept.written]

/-- Bookkeeping changes no read. -/
theorem read (block : Nat) : after.read block g.blockBytes = before.read block g.blockBytes := by
  unfold ZoneMap.read
  rw [kept.physical]
  cases before.physical[block]? with
  | none => rfl
  | some place => exact kept.deviceRead place

/-- The part of the invariant about blocks survives bookkeeping. -/
theorem wellFormed (wellFormed : before.WellFormed)
    (known : ∀ zone : Nat, (∃ entry : Zone, after.zones[zone]? = some entry) ↔
      after.dataFrom ≤ zone ∧ zone < g.zoneCount)
    (named : ∀ (zone : Nat) (entry : Zone), after.zones[zone]? = some entry → entry.zone = zone)
    (opened : ∀ zone : Nat, after.opened = some zone ↔
      ∃ entry : Zone, after.zones[zone]? = some entry ∧ entry.state = .opened) :
    after.WellFormed where
  inverse := by
    rw [kept.physical, kept.logical]
    exact wellFormed.inverse
  known := known
  named := named
  opened_iff := opened
  placed := by
    intro logical block present
    rw [kept.physical] at present
    exact (wellFormed.placed logical block present).imp_right kept.placed
  copied := by
    intro logical copy present
    rw [kept.copies] at present
    obtain ⟨mapped, placed, unmapped⟩ := wellFormed.copied logical copy present
    rw [kept.physical, kept.logical]
    exact ⟨mapped, kept.placed placed, unmapped⟩
  copies_injective := by
    rw [kept.copies]
    exact wellFormed.copies_injective

end Bookkept

/-- Replacing a zone's entry, in lookups. -/
theorem getElem?_setZone (self : ZoneMap g) (zone other : Nat) (entry : Zone) :
    (self.setZone zone entry).zones[other]? =
      if zone = other then some entry else self.zones[other]? := by
  simp [setZone, TreeMap.getElem?_insert]

/-- Replacing a zone's entry without freeing a zone in use is bookkeeping. -/
theorem replaced_bookkept
    (wellFormed : self.WellFormed)
    {zone : Nat}
    {old new : Zone}
    (present : self.zones[zone]? = some old)
    (named : new.zone = zone)
    (inUse : old.state ≠ .free → new.state ≠ .free)
    {opened : Option Nat}
    (isOpened : ∀ other, opened = some other ↔
      if zone = other then new.state = .opened else self.opened = some other) :
    Bookkept self { self.setZone zone new with opened := opened } ∧
      { self.setZone zone new with opened := opened }.WellFormed := by
  have kept : Bookkept self { self.setZone zone new with opened := opened } := by
    refine ⟨rfl, rfl, rfl, rfl, rfl, rfl, fun _ kept => kept, ?_⟩
    intro other entry otherPresent otherUse
    rw [getElem?_setZone]
    by_cases same : zone = other
    · subst same
      rw [present] at otherPresent
      cases otherPresent
      exact ⟨new, by simp, inUse otherUse⟩
    · exact ⟨entry, by simpa [same] using otherPresent, otherUse⟩
  refine ⟨kept, kept.wellFormed wellFormed ?_ ?_ ?_⟩
  · intro other
    rw [getElem?_setZone]
    by_cases same : zone = other
    · subst same
      simpa using (wellFormed.known zone).mp ⟨old, present⟩
    · simpa [same] using wellFormed.known other
  · intro other entry
    rw [getElem?_setZone]
    by_cases same : zone = other
    · subst same
      simp only [if_true, Option.some.injEq]
      rintro rfl
      exact named
    · simpa [same] using wellFormed.named other entry
  · intro other
    rw [getElem?_setZone, isOpened]
    by_cases same : zone = other
    · simp [same]
    · simpa [same] using wellFormed.opened_iff other

/-- An entry that is replaced by one that is open if it was. -/
theorem setZone_bookkept
    (wellFormed : self.WellFormed)
    {zone : Nat}
    {old new : Zone}
    (present : self.zones[zone]? = some old)
    (named : new.zone = zone)
    (inUse : old.state ≠ .free → new.state ≠ .free)
    (opened : new.state = .opened ↔ old.state = .opened) :
    Bookkept self (self.setZone zone new) ∧ (self.setZone zone new).WellFormed := by
  refine replaced_bookkept wellFormed present named inUse fun other => ?_
  split
  next same =>
    subst same
    simp [wellFormed.opened_iff, present, opened]
  next => rfl

/-- What closing leaves: the open zone is sealed, in the map and on the device, and nothing else. -/
structure Closed (before after : ZoneMap g) : Prop where
  dataFrom : after.dataFrom = before.dataFrom
  physical : after.physical = before.physical
  logical : after.logical = before.logical
  copies : after.copies = before.copies
  contents : after.device.contents = before.device.contents
  written : after.device.written = before.device.written
  sealed : ∀ zone, after.device.sealed zone =
    if before.opened = some zone then true else before.device.sealed zone
  opened : after.opened = none
  zones : ∀ zone : Nat, after.zones[zone]? =
    if before.opened = some zone then
      before.zones[zone]?.map fun entry => { entry with state := .sealed }
    else before.zones[zone]?

/-- A well-formed map's open zone can always be closed. -/
theorem closeZone_spec (wellFormed : self.WellFormed) :
    ∃ after, self.closeZone = (.ok (), after) ∧ Closed self after := by
  unfold closeZone
  cases opened : self.opened with
  | none =>
    refine ⟨self, rfl, rfl, rfl, rfl, rfl, rfl, rfl, ?_, opened, ?_⟩
    · simp [opened]
    · simp [opened]
  | some zone =>
    obtain ⟨entry, present, -⟩ := (wellFormed.opened_iff zone).mp opened
    have inside := (wellFormed.known zone).mp ⟨entry, present⟩
    have notFirst : zone ≠ 0 := by
      have := self.dataFrom_pos
      omega
    have sequential : g.sequential zone = true :=
      (g.sequential_eq_true zone).mpr ⟨inside.2, notFirst⟩
    simp only [finish, sequential, if_true]
    refine ⟨_, rfl, ?_⟩
    simp only [setState, present]
    refine ⟨rfl, rfl, rfl, rfl, rfl, rfl, ?_, rfl, ?_⟩
    · intro other
      simp only [setZone_device, record, opened, Option.some.injEq]
      exact if_congr eq_comm rfl rfl
    · intro other
      rw [getElem?_setZone]
      by_cases same : zone = other
      · subst same
        simp [opened, present]
      · simp [opened, same]

namespace Closed

variable {before after : ZoneMap g}

variable (closed : Closed before after)

include closed

theorem bookkept : Bookkept before after := { closed with
  sealed := by
    intro zone sealed
    rw [closed.sealed]
    split
    · rfl
    · exact sealed
  used := by
    intro zone entry present inUse
    rw [closed.zones, present]
    split
    · exact ⟨{ entry with state := .sealed }, rfl, by simp⟩
    · exact ⟨entry, rfl, inUse⟩ }

theorem wellFormed (wellFormed : before.WellFormed) : after.WellFormed := by
  apply closed.bookkept.wellFormed wellFormed
  · intro zone
    rw [closed.zones, closed.dataFrom, ← wellFormed.known zone]
    split <;> simp
  · intro zone entry present
    rw [closed.zones] at present
    split at present
    · obtain ⟨old, oldPresent, rfl⟩ := Option.map_eq_some_iff.mp present
      exact wellFormed.named zone old oldPresent
    · exact wellFormed.named zone entry present
  · intro zone
    rw [closed.opened, closed.zones]
    constructor
    · intro impossible
      cases impossible
    rintro ⟨entry, present, opened⟩
    split at present
    next =>
      obtain ⟨old, -, rfl⟩ := Option.map_eq_some_iff.mp present
      cases opened
    next notOpen => exact absurd ((wellFormed.opened_iff zone).mpr ⟨entry, present, opened⟩) notOpen

/-- Closing neither frees a zone nor takes one. -/
theorem free_iff (wellFormed : before.WellFormed) {zone : Nat} (free : entry.state = .free) :
    after.zones[zone]? = some entry ↔ before.zones[zone]? = some entry := by
  rw [closed.zones]
  split
  next opened =>
    obtain ⟨old, present, oldOpened⟩ := (wellFormed.opened_iff zone).mp opened
    rw [present]
    simp only [Option.map_some, Option.some.injEq]
    constructor
    · rintro rfl
      cases free
    · rintro rfl
      rw [oldOpened] at free
      cases free
  next => rfl

end Closed

/-- Opening closes the open zone, and then is refused or opens a free one. -/
theorem openZone_cases (wellFormed : self.WellFormed) :
    ∃ closed, Closed self closed ∧
      (self.openZone = (.error .full, closed) ∨
        ∃ (zone : Nat) (entry : Zone), self.zones[zone]? = some entry ∧
          entry.state = .free ∧ self.openZone = (.ok zone,
            { closed.setZone zone { entry with state := .opened } with
              opened := some zone })) := by
  obtain ⟨closed, closeOk, spec⟩ := closeZone_spec wellFormed
  refine ⟨closed, spec, ?_⟩
  unfold openZone
  rw [closeOk]
  simp only [zoneList, List.find?_map, Function.comp_def]
  cases found : closed.zones.toList.find? fun entry => decide (entry.2.state = .free) with
  | none => exact .inl rfl
  | some next =>
    have present := TreeMap.mem_toList_iff_getElem?_eq_some.mp (List.mem_of_find?_eq_some found)
    have free : next.2.state = .free := by simpa using List.find?_some found
    have name := (spec.wellFormed wellFormed).named _ _ present
    refine .inr ⟨next.1, next.2, (spec.free_iff wellFormed free).mp present, free, ?_⟩
    simp [name, setState, present]

variable {self after : ZoneMap g}

/-- The zone an opening returns is the open one. -/
theorem openZone_opened (wellFormed : self.WellFormed) {zone : Nat}
    (ok : self.openZone = (.ok zone, after)) : after.opened = some zone := by
  obtain ⟨closed, -, refused | ⟨next, entry, -, -, opened⟩⟩ := openZone_cases wellFormed
  · rw [refused] at ok
    cases ok
  · rw [opened] at ok
    cases ok
    rfl

/-- Opening a zone is bookkeeping. -/
theorem openZone_bookkept (wellFormed : self.WellFormed) :
    Bookkept self self.openZone.2 ∧ self.openZone.2.WellFormed := by
  obtain ⟨closed, spec, refused | ⟨zone, entry, present, free, ok⟩⟩ := openZone_cases wellFormed
  · rw [refused]
    exact ⟨spec.bookkept, spec.wellFormed wellFormed⟩
  rw [ok]
  have closedWellFormed := spec.wellFormed wellFormed
  have inClosed := (spec.free_iff wellFormed free).mpr present
  obtain ⟨kept, opens⟩ := @replaced_bookkept g closed closedWellFormed zone entry
    { entry with state := .opened } inClosed (closedWellFormed.named zone entry inClosed)
    (fun _ => by simp) (some zone) fun other => by simp [spec.opened]
  exact ⟨spec.bookkept.trans kept, opens⟩

variable {source : Bytes}

/-- The block a device appends to was not placed before. -/
theorem not_placed_of_append {zone : Nat}
    (ok : self.device.append zone source = .ok (block, device)) :
    ¬self.Placed block ∧ block ≠ 0 := by
  obtain ⟨-, -, notFirst, unsealed, -⟩ := append_ok ok
  obtain ⟨divides, offset⟩ := append_place ok
  constructor
  · rintro ⟨-, below | sealed⟩
    · rw [divides, offset] at below
      exact absurd below (Nat.lt_irrefl _)
    · rw [divides, unsealed] at sealed
      cases sealed
  · rintro rfl
    rw [Nat.zero_div] at divides
    exact notFirst divides.symm

section

variable {self : ZoneMap g} (wellFormed : self.WellFormed) {zone block : Nat} {source : Bytes}
  {device : ZonedMemory g} (ok : self.device.append zone source = .ok (block, device))

include wellFormed ok

theorem WellFormed.ne_of_mapped (mapped : self.physical[logical]? = some place) :
    place ≠ block := by
  obtain ⟨notPlaced, notZero⟩ := not_placed_of_append ok
  rintro rfl
  rcases wellFormed.placed logical place mapped with ⟨-, zero⟩ | placed
  · exact notZero zero
  · exact notPlaced placed

theorem WellFormed.unmapped_fresh : self.logical[block]? = none := by
  rw [Option.eq_none_iff_forall_ne_some]
  intro logical present
  rw [← wellFormed.inverse] at present
  exact wellFormed.ne_of_mapped ok present rfl

theorem WellFormed.ne_of_copied {copy : Nat} (copied : self.copies[logical]? = some copy) :
    copy ≠ block := by
  rintro rfl
  exact (not_placed_of_append ok).1 (wellFormed.copied logical copy copied).2.1

end

/-- The invariant is kept on a device on which nothing that was placed is not. -/
theorem WellFormed.onDevice {self : ZoneMap g} (wellFormed : self.WellFormed)
    (placed : ∀ block, self.Placed block → { self with device := device }.Placed block) :
    { self with device := device }.WellFormed := { wellFormed with
  placed := fun logical block mapped =>
    (wellFormed.placed logical block mapped).imp_right (placed block)
  copied := by
    intro logical copy present
    obtain ⟨mapped, isPlaced, unmapped⟩ := wellFormed.copied logical copy present
    exact ⟨mapped, placed copy isPlaced, unmapped⟩ }

/-- The barrier of the device below is bookkeeping. -/
theorem flush_bookkept (wellFormed : self.WellFormed) :
    Bookkept self self.flush ∧ self.flush.WellFormed := by
  have kept : Bookkept self self.flush := ⟨rfl, rfl, rfl, rfl, rfl, rfl, fun _ isSealed => isSealed,
      fun _ entry present inUse => ⟨entry, present, inUse⟩⟩
  exact ⟨kept, kept.wellFormed wellFormed wellFormed.known wellFormed.named wellFormed.opened_iff⟩

section Append

variable {self : ZoneMap g} {zone block : Nat} {source : Bytes}
  {device : ZonedMemory g}

theorem placed_append (ok : self.device.append zone source = .ok (block, device))
    (placed : self.Placed other) : { self with device := device }.Placed other := by
  obtain ⟨-, -, -, -, -, -, -, written, sealed, -⟩ := append_ok ok
  refine ⟨placed.1, placed.2.imp ?_ ?_⟩
  · intro below
    simp only [written]
    split
    next same =>
      rw [same] at below
      omega
    next => exact below
  · intro kept
    simpa only [sealed] using kept

/-- The block just appended is placed when its zone is a data zone in use. -/
theorem placed_appended (present : self.zones[zone]? = some entry) (inUse : entry.state ≠ .free)
    (ok : self.device.append zone source = .ok (block, device)) :
    { self with device := device }.Placed block := by
  obtain ⟨-, -, -, -, -, -, -, written, -, -⟩ := append_ok ok
  obtain ⟨divides, offset⟩ := append_place ok
  refine ⟨⟨entry, by rw [divides]; exact present, inUse⟩, .inl ?_⟩
  rw [divides, offset]
  simp only [written, if_true]
  omega

section

variable (wellFormed : self.WellFormed) (ok : self.device.append zone source = .ok (block, device))

include wellFormed ok

/-- An append the map does not record keeps the invariant. -/
theorem WellFormed.append : { self with device := device }.WellFormed :=
  wellFormed.onDevice fun _ => placed_append ok

/-- An append the map does not record is invisible. -/
theorem read_append (logical : Nat) :
    { self with device := device }.read logical g.blockBytes = self.read logical g.blockBytes := by
  unfold ZoneMap.read
  cases mapped : self.physical[logical]? with
  | none => rfl
  | some place => simp [ZonedMemory.read_append ok, wellFormed.ne_of_mapped ok mapped]

end

/-- A fresh logical block can be mapped to a placed block that nothing uses. -/
theorem WellFormed.insert
    (wellFormed : self.WellFormed)
    (freshLogical : self.physical[logical]? = none)
    (freshBlock : self.logical[block]? = none)
    (placed : self.Placed block)
    (notCopy : ∀ other copy : Nat, self.copies[other]? = some copy → copy ≠ block) :
    (self.insert logical block).WellFormed := { wellFormed with
  inverse := wellFormed.inverse.insert freshLogical freshBlock
  placed := by
    intro other place mapped
    simp only [ZoneMap.insert, TreeMap.getElem?_insert, Std.compare_eq_iff_eq] at mapped
    split at mapped
    next =>
      cases mapped
      exact .inr placed
    next => exact wellFormed.placed other place mapped
  copied := by
    intro other copy present
    obtain ⟨⟨place, mapped⟩, copyPlaced, unmapped⟩ := wellFormed.copied other copy present
    refine ⟨?_, copyPlaced, ?_⟩
    · simp only [ZoneMap.insert, TreeMap.getElem?_insert, Std.compare_eq_iff_eq]
      split
      · exact ⟨block, rfl⟩
      · exact ⟨place, mapped⟩
    · have apart : ¬block = copy := fun same => notCopy other copy present same.symm
      simpa only [ZoneMap.insert, TreeMap.getElem?_insert,
        Std.compare_eq_iff_eq, apart, if_false] using unmapped }

end Append

/-- An append is some bookkeeping, and then a refusal or one append to the open zone. -/
def Appends (self : ZoneMap g) (source : Bytes) (result : Except Refusal Nat × ZoneMap g) : Prop :=
  ∃ ready, Bookkept self ready ∧ ready.WellFormed ∧
    ((∃ refusal, result = (.error refusal, ready)) ∨
      ∃ zone block device, ready.opened = some zone ∧
        ready.device.append zone source = .ok (block, device) ∧
        result = (.ok block, { ready with device := device }))

/-- Zones were opened, one after another. -/
def Opens : ZoneMap g → ZoneMap g → Prop :=
  Relation.ReflTransGen fun before after => before.WellFormed ∧ after = before.openZone.2

theorem Opens.bookkept (opens : Opens self after) (wellFormed : self.WellFormed) :
    Bookkept self after ∧ after.WellFormed := by
  induction opens with
  | refl => exact ⟨.refl self, wellFormed⟩
  | tail _ opened ih =>
    obtain ⟨-, rfl⟩ := opened
    obtain ⟨kept, wellFormed⟩ := openZone_bookkept ih.2
    exact ⟨ih.1.trans kept, wellFormed⟩

theorem opens_openZone (wellFormed : self.WellFormed) {answered : Except Refusal Nat × ZoneMap g}
    (isOpened : self.openZone = answered) : Opens self answered.2 :=
  isOpened ▸ .single ⟨wellFormed, rfl⟩

/-- An append opens some zones, and is then refused or appends to the open one. -/
theorem appendOpened_opens (wellFormed : self.WellFormed) (source : Bytes) :
    ∃ ready, Opens self ready ∧
      ((∃ refusal, self.appendOpened source = (.error refusal, ready)) ∨
        ∃ zone, ready.opened = some zone ∧
          self.appendOpened source = ready.deviceAppend zone source) := by
  fun_cases appendOpened self source with
  | case1 | case4 => exact ⟨self, .refl, .inl ⟨_, rfl⟩⟩
  | case2 _ _ _ refusal next isOpened =>
    exact ⟨next, opens_openZone wellFormed isOpened, .inl ⟨refusal, rfl⟩⟩
  | case3 _ _ _ zone next isOpened =>
    exact ⟨next, opens_openZone wellFormed isOpened,
      .inr ⟨zone, openZone_opened wellFormed isOpened, rfl⟩⟩
  | case5 zone opened _ _ appended =>
    exact ⟨self, .refl, .inr ⟨zone, opened, by simp [deviceAppend, appended, opened]⟩⟩

theorem appendSomewhere_opens (wellFormed : self.WellFormed) (source : Bytes) :
    ∃ ready, Opens self ready ∧
      ((∃ refusal, self.appendSomewhere source = (.error refusal, ready)) ∨
        ∃ zone, ready.opened = some zone ∧
          self.appendSomewhere source = ready.deviceAppend zone source) := by
  fun_cases appendSomewhere self source with
  | case1 _ refusal next isOpened =>
    exact ⟨next, opens_openZone wellFormed isOpened, .inl ⟨refusal, rfl⟩⟩
  | case2 _ _ next isOpened =>
    have opens := opens_openZone wellFormed isOpened
    obtain ⟨ready, later, outcome⟩ := appendOpened_opens (opens.bookkept wellFormed).2 source
    exact ⟨ready, opens.trans later, outcome⟩
  | case3 => exact appendOpened_opens wellFormed source

theorem appendSomewhere_appends (wellFormed : self.WellFormed) (source : Bytes) :
    self.Appends source (self.appendSomewhere source) := by
  obtain ⟨ready, opens, outcome⟩ := appendSomewhere_opens wellFormed source
  obtain ⟨kept, readyWellFormed⟩ := opens.bookkept wellFormed
  refine ⟨ready, kept, readyWellFormed, ?_⟩
  rcases outcome with refused | ⟨zone, opened, appends⟩
  · exact .inl refused
  · rw [appends, deviceAppend]
    cases appended : ready.device.append zone source with
    | error refusal => exact .inl ⟨refusal, rfl⟩
    | ok result => exact .inr ⟨zone, result.1, result.2, opened, appended, rfl⟩

/-- Every outstanding copy still says what its block says. -/
def CopiesAgree (self : ZoneMap g) : Prop :=
  ∀ logical copy : Nat, self.copies[logical]? = some copy →
    self.device.read copy g.blockBytes = self.read logical g.blockBytes

theorem Bookkept.copiesAgree {before after : ZoneMap g} (kept : Bookkept before after)
    (agree : before.CopiesAgree) : after.CopiesAgree := by
  intro logical copy present
  rw [kept.copies] at present
  rw [kept.deviceRead, kept.read]
  exact agree logical copy present

theorem WellFormed.copiesAgree_append (wellFormed : self.WellFormed) {zone : Nat}
    (ok : self.device.append zone source = .ok (block, device)) (agree : self.CopiesAgree) :
    { self with device := device }.CopiesAgree := by
  intro logical copy present
  rw [read_append wellFormed ok]
  simp only [ZonedMemory.read_append ok, wellFormed.ne_of_copied ok present, if_false]
  exact agree logical copy present

theorem appendSomewhere_error (wellFormed : self.WellFormed)
    (refused : self.appendSomewhere source = (.error refusal, after)) :
    Bookkept self after ∧ after.WellFormed := by
  obtain ⟨ready, kept, readyWellFormed, ⟨_, outcome⟩ | ⟨_, _, _, _, _, outcome⟩⟩ :=
    appendSomewhere_appends wellFormed source
  · rw [refused] at outcome
    cases outcome
    exact ⟨kept, readyWellFormed⟩
  · rw [refused] at outcome
    cases outcome

theorem appendSomewhere_ok (wellFormed : self.WellFormed)
    (ok : self.appendSomewhere source = (.ok place, after)) :
    ∃ ready zone device, Bookkept self ready ∧ ready.WellFormed ∧
      ready.opened = some zone ∧
      ready.device.append zone source = .ok (place, device) ∧
      after = { ready with device := device } := by
  obtain ⟨ready, kept, readyWellFormed, ⟨_, outcome⟩ | ⟨zone, _, device, opened, append, outcome⟩⟩
    := appendSomewhere_appends wellFormed source
  · rw [ok] at outcome
    cases outcome
  · rw [ok] at outcome
    cases outcome
    exact ⟨ready, zone, device, kept, readyWellFormed, opened, append, rfl⟩

/-- An append that is not refused places one block that neither map nor copies know. -/
structure Appended
    (before : ZoneMap g) (source : Bytes) (place : Nat) (after : ZoneMap g) : Prop where
  wellFormed : after.WellFormed
  dataFrom : after.dataFrom = before.dataFrom
  physical : after.physical = before.physical
  logical : after.logical = before.logical
  copies : after.copies = before.copies
  placed : after.Placed place
  unmapped : before.logical[place]? = none
  notCopy : ∀ logical copy : Nat, before.copies[logical]? = some copy → copy ≠ place
  appended : after.device.read place g.blockBytes = .ok source
  others : ∀ other, other ≠ place →
    after.device.read other g.blockBytes = before.device.read other g.blockBytes
  read : ∀ logical, after.read logical g.blockBytes = before.read logical g.blockBytes
  copiesAgree : before.CopiesAgree → after.CopiesAgree

theorem appendSomewhere_appended (wellFormed : self.WellFormed)
    (ok : self.appendSomewhere source = (.ok place, after)) : Appended self source place after := by
  obtain ⟨ready, zone, device, kept, readyWellFormed, opened, append, rfl⟩ :=
    appendSomewhere_ok wellFormed ok
  obtain ⟨entry, present, isOpen⟩ := (readyWellFormed.opened_iff zone).mp opened
  exact { kept with
    wellFormed := readyWellFormed.append append
    placed := placed_appended present (by rw [isOpen]; simp) append
    unmapped := by
      rw [← kept.logical]
      exact readyWellFormed.unmapped_fresh append
    notCopy := by
      intro logical copy copied
      rw [← kept.copies] at copied
      exact readyWellFormed.ne_of_copied append copied
    appended := by simp only [ZonedMemory.read_append append, if_true]
    others := by
      intro other apart
      simp only [ZonedMemory.read_append append, apart, if_false]
      exact kept.deviceRead other
    read := by
      intro logical
      rw [read_append readyWellFormed append, kept.read]
    copiesAgree := fun agree => readyWellFormed.copiesAgree_append append (kept.copiesAgree agree) }

section Insert

variable {self : ZoneMap g} {logical block : Nat}

theorem read_insert (other : Nat) :
    (self.insert logical block).read other g.blockBytes =
      if other = logical then self.device.read block g.blockBytes
      else self.read other g.blockBytes := by
  unfold ZoneMap.read
  simp only [ZoneMap.insert, TreeMap.getElem?_insert, Std.compare_eq_iff_eq]
  by_cases same : logical = other
  · simp [same]
  · simp [same, Ne.symm same]

theorem WellFormed.copiesAgree_insert (wellFormed : self.WellFormed)
    (fresh : self.physical[logical]? = none) (agree : self.CopiesAgree) :
    (self.insert logical block).CopiesAgree := by
  intro other copy present
  obtain ⟨⟨place, mapped⟩, -⟩ := wellFormed.copied other copy present
  have apart : other ≠ logical := by
    rintro rfl
    rw [fresh] at mapped
    cases mapped
  rw [read_insert, if_neg apart]
  exact agree other copy present

end Insert

section Write

variable {self after : ZoneMap g} {block : Nat} {source : Bytes}

/-- A mapped block in the conventional zone is the superblock's. -/
theorem WellFormed.conventional (wellFormed : self.WellFormed)
    (mapped : self.physical[logical]? = some place)
    (conventional : kindOf (place / g.zoneBlocks) = .conventional) : logical = 0 ∧ place = 0 := by
  rcases wellFormed.placed logical place mapped with zero | placed
  · exact zero
  · rw [Geometry.kindOf_eq_conventional] at conventional
    have inside := wellFormed.dataFrom_le_of_placed placed
    have := self.dataFrom_pos
    omega

section

variable (wellFormed : self.WellFormed)

include wellFormed

/-- A write is some bookkeeping if refused, a write in place in the conventional zone, and
otherwise an append with the block mapped to it. -/
theorem write_cases (block : Nat) (source : Bytes) :
    (∃ refusal map, (map = self ∨ map = (self.appendSomewhere source).2) ∧
        Bookkept self map ∧ map.WellFormed ∧ self.write block source = (.error refusal, map)) ∨
      (∃ place device, self.physical[block]? = some place ∧
        kindOf (place / g.zoneBlocks) = .conventional ∧
        self.device.write place source = .ok device ∧
        self.write block source = (.ok (), { self with device := device })) ∨
      (self.physical[block]? = none ∧
        ∃ place map, map = (self.appendSomewhere source).2 ∧ Appended self source place map ∧
          self.write block source = (.ok (), map.insert block place)) := by
  fun_cases write self block source with
  | case1 | case2 => exact .inl ⟨_, self, .inl rfl, .refl self, wellFormed, rfl⟩
  | case3 place mapped conventional device written =>
    exact .inr (.inl ⟨place, device, mapped, not_not.mp conventional, written, rfl⟩)
  | case4 _ refusal map appended =>
    obtain ⟨kept, mapWellFormed⟩ := appendSomewhere_error wellFormed appended
    exact .inl ⟨refusal, map, .inr (congrArg Prod.snd appended).symm, kept, mapWellFormed, rfl⟩
  | case5 mapped place map appended =>
    exact .inr (.inr ⟨mapped, place, map, (congrArg Prod.snd appended).symm,
      appendSomewhere_appended wellFormed appended, rfl⟩)

/-- A write keeps the map well formed. -/
theorem WellFormed.write (block : Nat) (source : Bytes) :
    (self.write block source).2.WellFormed := by
  rcases write_cases wellFormed block source with ⟨_, map, -, -, kept, refused⟩ |
    ⟨place, device, -, -, written, ok⟩ | ⟨unmapped, place, map, -, done, ok⟩
  · rw [refused]
    exact kept
  · rw [ok]
    obtain ⟨-, -, -, pointers, sealed, -⟩ := write_ok written
    refine wellFormed.onDevice fun other placed => ?_
    unfold Placed at placed ⊢
    simpa only [pointers, sealed] using placed
  · rw [ok]
    apply done.wellFormed.insert
    · rw [done.physical]
      exact unmapped
    · rw [done.logical]
      exact done.unmapped
    · exact done.placed
    · intro other copy present
      rw [done.copies] at present
      exact done.notCopy other copy present

theorem write_dataFrom (block : Nat) (source : Bytes) :
    (self.write block source).2.dataFrom = self.dataFrom := by
  rcases write_cases wellFormed block source with ⟨_, map, -, kept, -, refused⟩ |
    ⟨-, device, -, -, -, ok⟩ | ⟨-, place, map, -, done, ok⟩
  · rw [refused]
    exact kept.dataFrom
  · rw [ok]
  · rw [ok]
    exact done.dataFrom

/-- A write that is not refused is read back. -/
theorem read_write_same (ok : self.write block source = (.ok (), after)) :
    after.read block g.blockBytes = .ok source := by
  rcases write_cases wellFormed block source with ⟨_, map, -, -, -, refused⟩ |
    ⟨place, device, mapped, -, written, done⟩ | ⟨-, place, map, -, appended, done⟩
  · rw [refused] at ok
    cases ok
  · rw [done] at ok
    cases ok
    simp [ZoneMap.read, mapped, read_write written]
  · rw [done] at ok
    cases ok
    rw [read_insert, if_pos rfl]
    exact appended.appended

/-- A write changes no other block, refused or not. -/
theorem read_write_other (source : Bytes) (apart : other ≠ block) :
    (self.write block source).2.read other g.blockBytes = self.read other g.blockBytes := by
  rcases write_cases wellFormed block source with ⟨_, map, -, kept, -, refused⟩ |
    ⟨place, device, mapped, -, written, done⟩ | ⟨-, place, map, -, appended, done⟩
  · rw [refused]
    exact kept.read other
  · rw [done]
    unfold ZoneMap.read
    cases otherMapped : self.physical[other]? with
    | none => rfl
    | some otherPlace =>
      have placesApart : otherPlace ≠ place := by
        rintro rfl
        exact apart (wellFormed.inverse.injective otherMapped mapped)
      simp [read_write written, placesApart]
  · rw [done, read_insert, if_neg apart]
    exact appended.read other

/-- A refused write is bookkeeping. -/
theorem write_refused (refused : self.write block source = (.error refusal, after)) :
    Bookkept self after := by
  rcases write_cases wellFormed block source with ⟨_, map, -, kept, -, done⟩ |
    ⟨-, device, -, -, -, done⟩ | ⟨-, place, map, -, -, done⟩
  · rw [done] at refused
    cases refused
    exact kept
  all_goals
    rw [done] at refused
    cases refused

end

/-- A write keeps the copies right as long as it does not rewrite, in place, a
block that was already copied forward. -/
theorem CopiesAgree.write (agree : self.CopiesAgree) (wellFormed : self.WellFormed) (source : Bytes)
    (notCopied : ∀ place, self.physical[block]? = some place →
      kindOf (place / g.zoneBlocks) = .conventional → self.copies[block]? = none) :
    (self.write block source).2.CopiesAgree := by
  rcases write_cases wellFormed block source with ⟨_, map, -, kept, -, refused⟩ |
    ⟨place, device, mapped, conventional, written, done⟩ | ⟨unmapped, place, map, -, appended, done⟩
  · rw [refused]
    exact kept.copiesAgree agree
  · have zero := (wellFormed.conventional mapped conventional).2
    intro logical copy present
    have logicalApart : logical ≠ block := by
      rintro rfl
      rw [done] at present
      simp only [notCopied place mapped conventional, reduceCtorEq] at present
    rw [read_write_other wellFormed source logicalApart]
    rw [done] at present ⊢
    have copyApart : copy ≠ place := by
      rintro rfl
      rw [zero] at present
      exact wellFormed.not_placed_zero (wellFormed.copied logical 0 present).2.1
    simp only [read_write written, copyApart, if_false]
    exact agree logical copy present
  · rw [done]
    apply appended.wellFormed.copiesAgree_insert
    · rw [appended.physical]
      exact unmapped
    · exact appended.copiesAgree agree

end Write

end FSystem.Zone.ZoneMap
