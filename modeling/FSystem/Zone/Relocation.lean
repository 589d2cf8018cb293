import FSystem.Zone.MapInvariant

/-!
# Relocation is invisible

Copying a block forward, repointing the map at the copies and resetting the zone
they came from keep the map well formed, and change no block a reader can name
except those the reset zone still held.
-/

namespace FSystem.Zone.ZoneMap

open Abi Maps Std List

variable {g : Geometry} {self after : ZoneMap g}

section Copy

variable {logical copy : Nat}

/-- Copying forward is some bookkeeping, or one append noted as the block's copy. -/
theorem copyForward_cases (wellFormed : self.WellFormed) (logical : Nat) :
    (∃ refusal map, (map = self ∨ ∃ bytes, map = (self.appendSomewhere bytes).2) ∧
        Bookkept self map ∧ map.WellFormed ∧ self.copyForward logical = (.error refusal, map)) ∨
      ∃ place bytes copy map, self.physical[logical]? = some place ∧
        self.device.read place g.blockBytes = .ok bytes ∧
        map = (self.appendSomewhere bytes).2 ∧ Appended self bytes copy map ∧
        self.copyForward logical =
          (.ok copy, { map with copies := map.copies.insert logical copy }) := by
  fun_cases copyForward self logical with
  | case1 | case2 => exact .inl ⟨_, self, .inl rfl, .refl self, wellFormed, rfl⟩
  | case3 _ _ bytes _ refusal map appended =>
    obtain ⟨kept, mapWellFormed⟩ := appendSomewhere_error wellFormed appended
    exact .inl ⟨refusal, map, .inr ⟨bytes, (congrArg Prod.snd appended).symm⟩, kept,
      mapWellFormed, rfl⟩
  | case4 place mapped bytes found copy map appended =>
    exact .inr ⟨place, bytes, copy, map, mapped, found, (congrArg Prod.snd appended).symm,
      appendSomewhere_appended wellFormed appended, rfl⟩

/-- A copy keeps the map well formed. -/
theorem WellFormed.copyForward (wellFormed : self.WellFormed) (logical : Nat) :
    (self.copyForward logical).2.WellFormed := by
  rcases copyForward_cases wellFormed logical with
    ⟨_, map, -, -, kept, refused⟩ | ⟨place, bytes, copy, map, mapped, -, -, spec, done⟩
  · rw [refused]
    exact kept
  rw [done]
  exact { spec.wellFormed with
    copied := by
      intro other target present
      simp only [TreeMap.getElem?_insert, Std.compare_eq_iff_eq] at present
      split at present
      next same =>
        cases present
        subst same
        refine ⟨⟨place, ?_⟩, spec.placed, ?_⟩
        · change map.physical[logical]? = some place
          rw [spec.physical]
          exact mapped
        · change map.logical[copy]? = none
          rw [spec.logical]
          exact spec.unmapped
      next => exact spec.wellFormed.copied other target present
    copies_injective := by
      intro first second target firstCopy secondCopy
      simp only [TreeMap.getElem?_insert, Std.compare_eq_iff_eq] at firstCopy secondCopy
      have others : ∀ other : Nat, map.copies[other]? ≠ some copy := by
        intro other present
        rw [spec.copies] at present
        exact spec.notCopy other copy present rfl
      split at firstCopy
      next firstSame =>
        cases firstCopy
        split at secondCopy
        next secondSame => exact firstSame.symm.trans secondSame
        next => exact absurd secondCopy (others second)
      next =>
        split at secondCopy
        next =>
          cases secondCopy
          exact absurd firstCopy (others first)
        next => exact spec.wellFormed.copies_injective first second target firstCopy secondCopy }

/-- Copying a block forward is invisible. -/
theorem read_copyForward (wellFormed : self.WellFormed) (logical other : Nat) :
    (self.copyForward logical).2.read other g.blockBytes = self.read other g.blockBytes := by
  rcases copyForward_cases wellFormed logical with
    ⟨_, map, -, kept, -, refused⟩ | ⟨-, bytes, copy, map, -, -, -, spec, done⟩
  · rw [refused]
    exact kept.read other
  · rw [done]
    exact spec.read other

/-- Copying a block forward moves no block. -/
theorem copyForward_keeps (wellFormed : self.WellFormed) (logical : Nat) :
    (self.copyForward logical).2.physical = self.physical ∧
      (self.copyForward logical).2.dataFrom = self.dataFrom := by
  rcases copyForward_cases wellFormed logical with
    ⟨_, map, -, kept, -, refused⟩ | ⟨-, bytes, copy, map, -, -, -, spec, done⟩
  · rw [refused]
    exact ⟨kept.physical, kept.dataFrom⟩
  · rw [done]
    exact ⟨spec.physical, spec.dataFrom⟩

theorem CopiesAgree.copyForward (agree : self.CopiesAgree) (wellFormed : self.WellFormed)
    (logical : Nat) : (self.copyForward logical).2.CopiesAgree := by
  have unseen := read_copyForward wellFormed logical
  rcases copyForward_cases wellFormed logical with
    ⟨_, map, -, kept, -, refused⟩ | ⟨place, bytes, copy, map, mapped, found, -, spec, done⟩
  · rw [refused]
    exact kept.copiesAgree agree
  intro other target present
  rw [unseen other]
  rw [done] at present ⊢
  simp only [TreeMap.getElem?_insert, Std.compare_eq_iff_eq] at present
  split at present
  next same =>
    cases present
    subst same
    rw [spec.appended]
    simp [ZoneMap.read, mapped, found]
  next =>
    rw [spec.copies] at present
    rw [spec.others target (spec.notCopy other target present)]
    exact agree other target present

end Copy

section Commit

/-- Nothing but the maps changed. -/
abbrev SameButMaps (before after : ZoneMap g) : Prop :=
  after.device = before.device ∧ after.zones = before.zones ∧ after.opened = before.opened ∧
    after.copies = before.copies ∧ after.dataFrom = before.dataFrom

/-- Repointing blocks at fresh ones keeps the maps inverse and moves exactly those. -/
theorem foldl_repoint
    (moves : List (Nat × Nat))
    (self : ZoneMap g)
    (inverse : Inverse self.physical self.logical)
    (mapped : ∀ move ∈ moves, ∃ place, self.physical[move.1]? = some place)
    (unmapped : ∀ move ∈ moves, self.logical[move.2]? = none)
    (sources : (moves.map Prod.fst).Nodup)
    (targets : (moves.map Prod.snd).Nodup) :
    let after := moves.foldl (fun map move => map.repoint move.1 move.2) self
    Inverse after.physical after.logical ∧
      (∀ move ∈ moves, after.physical[move.1]? = some move.2) ∧
      (∀ logical : Nat, logical ∉ moves.map Prod.fst →
        after.physical[logical]? = self.physical[logical]?) ∧
      SameButMaps self after := by
  induction moves generalizing self with
  | nil => exact ⟨inverse, by simp, fun _ _ => rfl, rfl, rfl, rfl, rfl, rfl⟩
  | cons move rest ih =>
    obtain ⟨logical, target⟩ := move
    obtain ⟨place, present⟩ := mapped (logical, target) mem_cons_self
    have fresh := unmapped (logical, target) mem_cons_self
    simp only [map_cons, nodup_cons] at sources targets
    simp only [foldl_cons]
    have physical : (self.repoint logical target).physical =
        self.physical.insert logical target := rfl
    have logicalMap : (self.repoint logical target).logical =
        (self.logical.erase place).insert target logical := by
      simp [repoint, present]
    obtain ⟨inverse', moved, kept, same⟩ :=
      ih (self.repoint logical target)
        (by
          rw [physical, logicalMap]
          exact inverse.move present fresh)
        (by
          intro move member
          obtain ⟨other, otherMapped⟩ := mapped move (mem_cons_of_mem _ member)
          rw [physical, TreeMap.getElem?_insert]
          split
          · exact ⟨target, rfl⟩
          · exact ⟨other, otherMapped⟩)
        (by
          intro move member
          have apart : ¬target = move.2 := by
            intro same
            exact targets.1 (same ▸ mem_map_of_mem member)
          rw [logicalMap, TreeMap.getElem?_insert, TreeMap.getElem?_erase]
          simp only [Std.compare_eq_iff_eq, apart, if_false]
          split
          · rfl
          · exact unmapped move (mem_cons_of_mem _ member))
        sources.2 targets.2
    refine ⟨inverse', ?_, ?_, same⟩
    · intro move member
      rcases mem_cons.mp member with same | later
      · subst same
        rw [kept logical sources.1, physical]
        simp
      · exact moved move later
    · intro other outside
      simp only [map_cons, mem_cons, not_or] at outside
      rw [kept other outside.2, physical, TreeMap.getElem?_insert]
      simp [Ne.symm outside.1]

/-- What repointing the map at its copies leaves. -/
structure Committed (before after : ZoneMap g) : Prop where
  inverse : Inverse after.physical after.logical
  moved : ∀ logical copy : Nat, before.copies[logical]? = some copy →
    after.physical[logical]? = some copy
  kept : ∀ logical : Nat, before.copies[logical]? = none →
    after.physical[logical]? = before.physical[logical]?
  written : after.device.written = before.device.written
  sealed : after.device.sealed = before.device.sealed
  contents : after.device.contents = before.device.contents
  zones : after.zones = before.zones
  opened : after.opened = before.opened
  copies : after.copies.isEmpty = true
  dataFrom : after.dataFrom = before.dataFrom

theorem nodup_keys (map : TreeMap Nat Nat) : (map.toList.map Prod.fst).Nodup := by
  rw [Nodup, pairwise_map]
  exact TreeMap.distinct_keys_toList.imp fun apart same => apart (by simp [same])

theorem WellFormed.nodup_copies
    (wellFormed : self.WellFormed) : (self.copies.toList.map Prod.snd).Nodup := by
  rw [Nodup, pairwise_map]
  have keys := nodup_keys self.copies
  rw [Nodup, pairwise_map] at keys
  refine keys.imp_of_mem ?_
  intro first second firstMember secondMember apart same
  rw [TreeMap.mem_toList_iff_getElem?_eq_some] at firstMember secondMember
  rw [← same] at secondMember
  exact apart (wellFormed.copies_injective _ _ _ firstMember secondMember)

/-- Committing is never refused. -/
theorem commitCopies_spec (wellFormed : self.WellFormed) :
    ∃ moved after, self.commitCopies = (.ok moved, after) ∧ Committed self after := by
  unfold commitCopies
  split
  next empty =>
    have none : ∀ logical : Nat, self.copies[logical]? = none :=
      fun _ => TreeMap.getElem?_of_isEmpty empty
    refine ⟨0, self, rfl, wellFormed.inverse, ?_, fun _ _ => rfl, rfl, rfl, rfl, rfl,
      rfl, empty, rfl⟩
    intro logical copy present
    rw [none] at present
    cases present
  next =>
    refine ⟨_, _, rfl, ?_⟩
    have copied := fun (move : Nat × Nat) member =>
      wellFormed.copied move.1 move.2 (TreeMap.mem_toList_iff_getElem?_eq_some.mp member)
    have spec := foldl_repoint self.copies.toList
      { self with device := self.device.flush, copies := ∅ } wellFormed.inverse
      (fun move member => (copied move member).1) (fun move member => (copied move member).2.2)
      (nodup_keys self.copies) wellFormed.nodup_copies
    obtain ⟨inverse, moved, kept, device, zones, opened, copies, dataFrom⟩ := spec
    exact {
      inverse := inverse
      moved := fun logical copy present =>
        moved (logical, copy) (TreeMap.mem_toList_iff_getElem?_eq_some.mpr present)
      kept := by
        intro logical absent
        apply kept
        intro member
        obtain ⟨move, inList, rfl⟩ := List.mem_map.mp member
        rw [TreeMap.mem_toList_iff_getElem?_eq_some, absent] at inList
        cases inList
      written := by rw [device]; rfl
      sealed := by rw [device]; rfl
      contents := by rw [device]; rfl
      zones := zones
      opened := opened
      copies := by rw [copies]; rfl
      dataFrom := dataFrom }

namespace Committed

variable {before after : ZoneMap g}

section

variable (committed : Committed before after)

include committed

theorem placed_iff (block : Nat) : after.Placed block ↔ before.Placed block := by
  unfold Placed
  rw [committed.zones, committed.written, committed.sealed]

theorem deviceRead (block : Nat) :
    after.device.read block g.blockBytes = before.device.read block g.blockBytes := by
  apply ZonedMemory.read_congr
  · rw [committed.contents]
  · rw [committed.written]

theorem no_copies (logical : Nat) : after.copies[logical]? = none :=
  TreeMap.getElem?_of_isEmpty committed.copies

theorem wellFormed (wellFormed : before.WellFormed) : after.WellFormed where
  inverse := committed.inverse
  known := by
    rw [committed.zones, committed.dataFrom]
    exact wellFormed.known
  named := by
    rw [committed.zones]
    exact wellFormed.named
  opened_iff := by
    rw [committed.zones, committed.opened]
    exact wellFormed.opened_iff
  placed := by
    intro logical block mapped
    rw [committed.placed_iff]
    cases copied : before.copies[logical]? with
    | none =>
      rw [committed.kept logical copied] at mapped
      exact wellFormed.placed logical block mapped
    | some copy =>
      rw [committed.moved logical copy copied] at mapped
      cases mapped
      exact .inr (wellFormed.copied logical block copied).2.1
  copied := by
    intro logical copy present
    rw [committed.no_copies] at present
    cases present
  copies_injective := by
    intro first second copy present
    rw [committed.no_copies] at present
    cases present

/-- Repointing the map at its copies is invisible, when the copies agree. -/
theorem read (agree : before.CopiesAgree) (logical : Nat) :
    after.read logical g.blockBytes = before.read logical g.blockBytes := by
  cases copied : before.copies[logical]? with
  | none =>
    unfold ZoneMap.read
    rw [committed.kept logical copied]
    cases before.physical[logical]? with
    | none => rfl
    | some place => exact committed.deviceRead place
  | some copy =>
    rw [← agree logical copy copied]
    simp only [ZoneMap.read, committed.moved logical copy copied]
    exact committed.deviceRead copy

theorem copiesAgree : after.CopiesAgree := by
  intro logical copy present
  rw [committed.no_copies] at present
  cases present

end

end Committed

end Commit

section Recycle

/-- The blocks a zone holds, in the two maps. -/
theorem mem_held (self : ZoneMap g) (zone : Nat) (entry : Nat × Nat) :
    entry ∈ self.held zone ↔
      self.logical[entry.1]? = some entry.2 ∧ g.inZone zone entry.1 = true := by
  rw [held, mem_filter, TreeMap.mem_toList_iff_getElem?_eq_some]

theorem nodup_held (self : ZoneMap g) (zone : Nat) : ((self.held zone).map Prod.fst).Nodup :=
  (List.filter_sublist.map Prod.fst).nodup (nodup_keys self.logical)

/-- Forgetting mapped blocks keeps the maps inverse and drops exactly those. -/
theorem foldl_forget
    (entries : List (Nat × Nat))
    (self : ZoneMap g)
    (inverse : Inverse self.physical self.logical)
    (mapped : ∀ entry ∈ entries, self.logical[entry.1]? = some entry.2)
    (blocks : (entries.map Prod.fst).Nodup) : let after := entries.foldl forget self
    Inverse after.physical after.logical ∧
      (∀ entry ∈ entries, after.physical[entry.2]? = none) ∧
      (∀ logical : Nat, logical ∉ entries.map Prod.snd →
        after.physical[logical]? = self.physical[logical]?) ∧
      SameButMaps self after := by
  induction entries generalizing self with
  | nil => exact ⟨inverse, by simp, fun _ _ => rfl, rfl, rfl, rfl, rfl, rfl⟩
  | cons entry rest ih =>
    have present := mapped entry mem_cons_self
    simp only [map_cons, nodup_cons] at blocks
    simp only [foldl_cons]
    obtain ⟨inverse', gone, kept, same⟩ :=
      ih (self.forget entry)
        (inverse.erase ((inverse _ _).mpr present))
        (by
          intro other member
          have apart : ¬entry.1 = other.1 := by
            intro same
            exact blocks.1 (same ▸ mem_map_of_mem member)
          simp only [forget, TreeMap.getElem?_erase, Std.compare_eq_iff_eq, apart, if_false]
          exact mapped other (mem_cons_of_mem _ member))
        blocks.2
    refine ⟨inverse', ?_, ?_, same⟩
    · intro other member
      rcases mem_cons.mp member with same | later
      · subst same
        by_cases again : other.2 ∈ rest.map Prod.snd
        · obtain ⟨twin, twinMember, same⟩ := List.mem_map.mp again
          rw [← same]
          exact gone twin twinMember
        · rw [kept other.2 again]
          simp [forget]
      · exact gone other later
    · intro other outside
      simp only [map_cons, mem_cons, not_or] at outside
      rw [kept other outside.2]
      simp [forget, TreeMap.getElem?_erase, Ne.symm outside.1]

/-- The zone is empty and free, its blocks are forgotten, and every other block is where it was. -/
structure Recycled (before : ZoneMap g) (zone : Nat) (after : ZoneMap g) : Prop where
  condemned : ∃ entry : Zone, before.zones[zone]? = some entry ∧ entry.state = .condemned
  no_copies : before.copies.isEmpty = true
  device : before.device.reset zone = .ok after.device
  inverse : Inverse after.physical after.logical
  dropped : ∀ logical place : Nat, before.physical[logical]? = some place →
    place / g.zoneBlocks = zone → after.physical[logical]? = none
  kept : ∀ logical : Nat, (∀ place : Nat, before.physical[logical]? = some place →
    place / g.zoneBlocks ≠ zone) →
    after.physical[logical]? = before.physical[logical]?
  zones : ∀ other : Nat, after.zones[other]? =
    if zone = other then some (freeZone zone) else before.zones[other]?
  opened : after.opened = before.opened
  copies : after.copies = before.copies
  dataFrom : after.dataFrom = before.dataFrom

/-- What a recycling does. -/
theorem recycle_ok (wellFormed : self.WellFormed) {zone : Nat}
    (ok : self.recycle zone = .ok after) :
    Recycled self zone after := by
  revert ok
  fun_cases recycle self zone with
  | case1 | case2 | case3 => nofun
  | case4 entry present allowed device resetResult => ?_
  rintro ⟨⟩
  simp only [not_or, not_not] at allowed
  have mapped : ∀ entry ∈ self.held zone,
      self.logical[entry.1]? = some entry.2 :=
    fun entry member => ((mem_held self zone entry).mp member).1
  obtain ⟨inverse, gone, kept, sameDevice, zones, opened, copies, dataFrom⟩ :=
    foldl_forget (self.held zone) { self with device := device }
      wellFormed.inverse mapped (nodup_held self zone)
  have positive := self.zoneBlocks_pos
  exact {
    condemned := ⟨entry, present, allowed.1⟩
    no_copies := by simpa using allowed.2
    device := by
      rw [setZone_device, sameDevice]
      exact resetResult
    inverse := inverse
    dropped := by
      intro logical place mappedTo inZone
      apply gone (place, logical)
      rw [mem_held]
      exact ⟨(wellFormed.inverse _ _).mp mappedTo,
        (g.inZone_eq_true zone place positive).mpr inZone⟩
    kept := by
      intro logical outside
      apply kept
      intro member
      obtain ⟨held, inList, rfl⟩ := List.mem_map.mp member
      obtain ⟨back, inZone⟩ := (mem_held self zone held).mp inList
      exact outside held.1 ((wellFormed.inverse _ _).mpr back)
        ((g.inZone_eq_true zone held.1 positive).mp inZone)
    zones := by
      intro other
      rw [getElem?_setZone, zones]
    opened := opened
    copies := copies
    dataFrom := dataFrom }

namespace Recycled

variable {before after : ZoneMap g} {zone : Nat} (recycled : Recycled before zone after)
include recycled

/-- A block that is still mapped lies outside the recycled zone, where it was. -/
theorem mapped {logical place : Nat} (present : after.physical[logical]? = some place) :
    before.physical[logical]? = some place ∧ place / g.zoneBlocks ≠ zone := by
  by_cases outside : ∀ place : Nat, before.physical[logical]? = some place →
      place / g.zoneBlocks ≠ zone
  · rw [recycled.kept logical outside] at present
    exact ⟨present, outside place present⟩
  · simp only [not_forall, not_not] at outside
    obtain ⟨_, mapped, inZone⟩ := outside
    rw [recycled.dropped _ _ mapped inZone] at present
    cases present

theorem wellFormed (wellFormed : before.WellFormed) : after.WellFormed := by
  obtain ⟨entry, present, condemned⟩ := recycled.condemned
  obtain ⟨-, written, sealed, -⟩ := ZonedMemory.reset_ok recycled.device
  have no_copies : ∀ logical : Nat, after.copies[logical]? = none := by
    rw [recycled.copies]
    exact fun _ => TreeMap.getElem?_of_isEmpty recycled.no_copies
  exact {
    inverse := recycled.inverse
    known := by
      intro other
      rw [recycled.zones, recycled.dataFrom]
      by_cases same : zone = other
      · subst same
        simpa using (wellFormed.known zone).mp ⟨entry, present⟩
      · simpa [same] using wellFormed.known other
    named := by
      intro other held
      rw [recycled.zones]
      by_cases same : zone = other
      · subst same
        simp only [if_true, Option.some.injEq]
        rintro rfl
        rfl
      · simpa [same] using wellFormed.named other held
    opened_iff := by
      intro other
      rw [recycled.zones, recycled.opened, wellFormed.opened_iff other]
      by_cases same : zone = other
      · subst same
        simp [present, condemned, freeZone]
      · simp [same]
    placed := by
      intro logical place mapped
      obtain ⟨was, outside⟩ := recycled.mapped mapped
      refine (wellFormed.placed logical place was).imp_right ?_
      rintro ⟨⟨held, heldPresent, inUse⟩, below⟩
      refine ⟨⟨held, ?_, inUse⟩, ?_⟩
      · rw [recycled.zones, if_neg (Ne.symm outside)]
        exact heldPresent
      · simpa only [written, sealed, outside, if_false] using below
    copied := by
      intro logical copy present
      rw [no_copies] at present
      cases present
    copies_injective := by
      intro first second copy present
      rw [no_copies] at present
      cases present }

/-- A block outside the recycled zone reads as before. -/
theorem read {logical : Nat}
    (outside : ∀ place : Nat, before.physical[logical]? = some place → place / g.zoneBlocks ≠ zone)
    :
    after.read logical g.blockBytes = before.read logical g.blockBytes := by
  unfold ZoneMap.read
  rw [recycled.kept logical outside]
  cases mapped : before.physical[logical]? with
  | none => rfl
  | some place =>
    exact ZonedMemory.read_reset before.zoneBlocks_pos recycled.device (outside place mapped)

theorem copiesAgree : after.CopiesAgree := by
  intro logical copy present
  rw [recycled.copies, TreeMap.getElem?_of_isEmpty recycled.no_copies] at present
  cases present

end Recycled

end Recycle

end FSystem.Zone.ZoneMap
