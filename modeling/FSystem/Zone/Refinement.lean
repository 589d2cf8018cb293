import FSystem.Zone.Relocation
import FSystem.Library.Runs

/-!
# The zone map refines a flat block device

A flat device is a function from block numbers to what was last written there.
Along every run of the map's operations the map's structure is sound; and as
long as no block is rewritten in place while a copy of it is outstanding, every
block that was written, and not dropped with the zone it was in, reads back.
-/

namespace FSystem.Zone

open ZoneMap
namespace ZoneMap

open Abi Maps

variable {g : Geometry}

section Bookkeeping

variable {self after : ZoneMap g} {zone : Nat}

theorem condemn_ok (ok : self.condemn zone = .ok after) :
    ∃ entry : Zone, self.zones[zone]? = some entry ∧ entry.state = .sealed ∧
      after = self.setZone zone { entry with state := .condemned } := by
  unfold condemn at ok
  split at ok
  · cases ok
  rename_i entry present
  split at ok
  · cases ok
  rename_i allowed
  cases ok
  exact ⟨entry, present, not_not.mp allowed, rfl⟩

theorem condemn_bookkept (wellFormed : self.WellFormed) (ok : self.condemn zone = .ok after) :
    Bookkept self after ∧ after.WellFormed := by
  obtain ⟨entry, present, state, rfl⟩ := condemn_ok ok
  exact setZone_bookkept wellFormed present (wellFormed.named zone entry present)
    (by simp) (by simp [state])

end Bookkeeping

theorem mem_dataZones (g : Geometry) (dataFrom zone : Nat) :
    zone ∈ dataZones g dataFrom ↔ dataFrom ≤ zone ∧ zone < g.zoneCount := by
  rw [dataZones, List.mem_range'_1]
  omega

/-- What a new map is. -/
structure Created (base : ZonedMemory g) (first : Nat) (map : ZoneMap g) : Prop where
  device : map.device = base
  dataFrom : map.dataFrom = first
  physical : ∀ logical : Nat, map.physical[logical]? = if logical = 0 then some 0 else none
  logical : ∀ block : Nat, map.logical[block]? = if block = 0 then some 0 else none
  zones : ∀ zone : Nat, map.zones[zone]? =
    if first ≤ zone ∧ zone < g.zoneCount then some (freeZone zone) else none
  opened : map.opened = none
  copies : map.copies = ∅

variable {device : ZonedMemory g} {dataFrom : Nat}

theorem new_ok {self : ZoneMap g} (created : new device dataFrom = .ok self) :
    Created device dataFrom self := by
  unfold new at created
  split at created
  next =>
    split at created
    next =>
      cases created
      refine ⟨rfl, rfl, ?_, ?_, ?_, rfl, rfl⟩
      · intro logical
        simp only [Std.TreeMap.getElem?_insert, Std.compare_eq_iff_eq, Std.TreeMap.getElem?_emptyc]
        exact if_congr eq_comm rfl rfl
      · intro block
        simp only [Std.TreeMap.getElem?_insert, Std.compare_eq_iff_eq, Std.TreeMap.getElem?_emptyc]
        exact if_congr eq_comm rfl rfl
      · intro zone
        rw [Maps.getElem?_foldl_insert]
        simp [mem_dataZones]
    next => cases created
  next => cases created

/-- A new map is well formed. -/
theorem Created.wellFormed {map : ZoneMap g} (created : Created device dataFrom map) :
    map.WellFormed where
  inverse := by
    intro logical block
    rw [created.physical, created.logical]
    split <;> split <;> simp_all [eq_comm]
  known := by
    intro zone
    rw [created.zones, created.dataFrom]
    split <;> simp_all
  named := by
    intro zone entry present
    rw [created.zones] at present
    split at present
    · cases present
      rfl
    · cases present
  opened_iff := by
    intro zone
    rw [created.opened, created.zones]
    split <;> simp [freeZone]
  placed := by
    intro logical block mapped
    rw [created.physical] at mapped
    split at mapped
    · cases mapped
      exact .inl ⟨by assumption, rfl⟩
    · cases mapped
  copied := by
    rw [created.copies]
    simp
  copies_injective := by
    rw [created.copies]
    simp

theorem Created.copiesAgree {map : ZoneMap g} (created : Created device dataFrom map) :
    map.CopiesAgree := by
  unfold CopiesAgree
  rw [created.copies]
  simp

end ZoneMap

/-- The operations of the map. -/
inductive MapOp
  | write (block : Nat) (source : Bytes)
  | read (block : Nat)
  | openZone
  | condemn (zone : Nat)
  | copyForward (logical : Nat)
  | commitCopies
  | recycle (zone : Nat)
  deriving DecidableEq

/-- A flat block device: what was last written to each block and not dropped since. -/
abbrev Flat := Nat → Option Bytes

namespace Flat

/-- Nothing was written yet. -/
def empty : Flat := fun _ => none

/-- Write one block. -/
def write (self : Flat) (block : Nat) (source : Bytes) : Flat :=
  fun other => if other = block then some source else self other

/-- Drop every block of a set. -/
def drop (self : Flat) (dropped : Nat → Bool) : Flat :=
  fun block => if dropped block then none else self block

end Flat

namespace MapOp

variable {g : Geometry}

/-- The map after an operation, refused or not. -/
def apply (map : ZoneMap g) : MapOp → ZoneMap g
  | write block source => (map.write block source).2
  | read _ => map
  | openZone => map.openZone.2
  | condemn zone =>
    match map.condemn zone with
    | .error _ => map
    | .ok after => after
  | copyForward logical => (map.copyForward logical).2
  | commitCopies => map.commitCopies.2
  | recycle zone =>
    match map.recycle zone with
    | .error _ => map
    | .ok after => after

/-- A write that was not refused writes, and a recycle drops the blocks the zone still held. -/
def expect (map : ZoneMap g) (flat : Flat) : MapOp → Flat
  | write block source =>
    match (map.write block source).1 with
    | .error _ => flat
    | .ok () => flat.write block source
  | recycle zone =>
    match map.recycle zone with
    | .error _ => flat
    | .ok _ => flat.drop fun block => map.zoneOf block == some zone
  | read _ | openZone | condemn _ | copyForward _ | commitCopies => flat

/-- The map and the flat device take one operation together. -/
def step (state : ZoneMap g × Flat) (op : MapOp) : ZoneMap g × Flat :=
  (op.apply state.1, op.expect state.1 state.2)

/-- No block with an outstanding copy is rewritten in place. -/
def KeepsCopies (map : ZoneMap g) : MapOp → Prop
  | write block _ =>
    (map.physical[block]?.any fun place =>
      kindOf (place / g.zoneBlocks) = .conventional) = true → map.copies[block]? = none
  | read _ | openZone | condemn _ | copyForward _ | commitCopies | recycle _ => True

instance (map : ZoneMap g) : DecidablePred (KeepsCopies map)
  | write _ _ => inferInstanceAs (Decidable (_ → _))
  | read _ | openZone | condemn _ | copyForward _ | commitCopies | recycle _ =>
    inferInstanceAs (Decidable True)

/-- Every operation keeps the map well formed. -/
theorem apply_wellFormed {map : ZoneMap g} (wellFormed : map.WellFormed) (op : MapOp) :
    (op.apply map).WellFormed := by
  cases op with
  | write block source => exact wellFormed.write block source
  | read block => exact wellFormed
  | openZone => exact (openZone_bookkept wellFormed).2
  | condemn zone =>
    simp only [apply]
    cases result : map.condemn zone with
    | error refusal => exact wellFormed
    | ok after => exact (condemn_bookkept wellFormed result).2
  | copyForward logical => exact wellFormed.copyForward logical
  | commitCopies =>
    obtain ⟨moved, after, ok, committed⟩ := commitCopies_spec wellFormed
    simp only [apply, ok]
    exact committed.wellFormed wellFormed
  | recycle zone =>
    simp only [apply]
    cases result : map.recycle zone with
    | error refusal => exact wellFormed
    | ok after => exact (recycle_ok wellFormed result).wellFormed wellFormed

/-- What the map and the flat device satisfy together. -/
structure Refines (state : ZoneMap g × Flat) : Prop where
  wellFormed : state.1.WellFormed
  copiesAgree : state.1.CopiesAgree
  reads : ∀ block bytes, state.2 block = some bytes → state.1.read block g.blockBytes = .ok bytes

variable {state : ZoneMap g × Flat}

theorem Refines.of_unseen
    (refines : Refines state)
    {after : ZoneMap g}
    (wellFormed : after.WellFormed)
    (copiesAgree : after.CopiesAgree)
    (unseen : ∀ block, after.read block g.blockBytes = state.1.read block g.blockBytes) :
    Refines (after, state.2) where
  wellFormed := wellFormed
  copiesAgree := copiesAgree
  reads := by
    intro block bytes expected
    rw [unseen]
    exact refines.reads block bytes expected

/-- One operation that keeps the copies keeps the refinement. -/
theorem step_refines (refines : Refines state) (op : MapOp) (keeps : op.KeepsCopies state.1) :
    Refines (step state op) := by
  obtain ⟨map, flat⟩ := state
  obtain ⟨wellFormed, agree, reads⟩ := refines
  have unchanged : Refines (map, flat) := ⟨wellFormed, agree, reads⟩
  cases op with
  | write block source =>
    have after := wellFormed.write block source
    have afterAgree := agree.write wellFormed source
      (fun place mapped conventional => keeps (by simp [mapped, conventional]))
    simp only [step, apply, expect]
    cases result : map.write block source with
    | mk answer written =>
      rw [result] at after afterAgree
      cases answer with
      | error refusal =>
        exact unchanged.of_unseen after afterAgree (write_refused wellFormed result).read
      | ok done =>
        refine ⟨after, afterAgree, ?_⟩
        intro other bytes expected
        simp only [Flat.write] at expected
        split at expected
        next same =>
          cases expected
          subst same
          exact read_write_same wellFormed result
        next apart =>
          have unseen := read_write_other wellFormed source apart
          rw [result] at unseen
          rw [unseen]
          exact reads other bytes expected
  | read block => exact unchanged
  | openZone =>
    obtain ⟨kept, after⟩ := openZone_bookkept wellFormed
    exact unchanged.of_unseen after (kept.copiesAgree agree) kept.read
  | condemn zone =>
    simp only [step, apply, expect]
    cases result : map.condemn zone with
    | error refusal => exact unchanged
    | ok after =>
      obtain ⟨kept, afterWellFormed⟩ := condemn_bookkept wellFormed result
      exact unchanged.of_unseen afterWellFormed (kept.copiesAgree agree) kept.read
  | copyForward logical =>
    exact unchanged.of_unseen (wellFormed.copyForward logical) (agree.copyForward wellFormed
      logical) (read_copyForward wellFormed logical)
  | commitCopies =>
    obtain ⟨moved, after, ok, committed⟩ := commitCopies_spec wellFormed
    simp only [step, apply, expect, ok]
    exact unchanged.of_unseen (committed.wellFormed wellFormed) committed.copiesAgree
      (committed.read agree)
  | recycle zone =>
    simp only [step, apply, expect]
    cases result : map.recycle zone with
    | error refusal => exact unchanged
    | ok after =>
      have recycled := recycle_ok wellFormed result
      refine ⟨recycled.wellFormed wellFormed, recycled.copiesAgree, ?_⟩
      intro block bytes expected
      simp only [Flat.drop] at expected
      split at expected
      · cases expected
      rename_i outside
      rw [recycled.read]
      · exact reads block bytes expected
      · intro place mapped inZone
        apply outside
        simp [zoneOf, mapped, inZone]

variable {device : ZonedMemory g} {dataFrom : Nat} {map : ZoneMap g}

/-- The run lemma. -/
theorem run_wellFormed (created : new device dataFrom = .ok map) (ops : List MapOp) :
    (Runs.run step (map, Flat.empty) ops).1.WellFormed :=
  Runs.invariant_of_step (fun state : ZoneMap g × Flat => state.1.WellFormed)
    (fun _ op wellFormed => apply_wellFormed wellFormed op)
    (new_ok created).wellFormed ops

/-- Along every run of the map's operations, refused ones included, the two maps
are inverse, no mapped block lies in a free zone, and the zones that are open
are the recorded one.  Along every run that rewrites no copied block in place,
every block that was written and not dropped reads back what was last written
to it. -/
theorem run_refines_flat (created : new device dataFrom = .ok map) (ops : List MapOp) :
    let reached := Runs.run step (map, Flat.empty) ops
    Maps.Inverse reached.1.physical reached.1.logical ∧
      (∀ (logical block zone : Nat) (entry : Zone), reached.1.physical[logical]? = some block →
        reached.1.zones[zone]? = some entry → entry.state = .free → g.inZone zone block = false) ∧
      (∀ zone : Nat, (∃ entry : Zone, reached.1.zones[zone]? = some entry ∧
        entry.state = .opened) ↔ reached.1.opened = some zone) ∧
      (Runs.Along step (fun state op => op.KeepsCopies state.1) (map, Flat.empty) ops →
        ∀ block bytes, reached.2 block = some bytes →
          reached.1.read block g.blockBytes = .ok bytes) := by
  intro reached
  have wellFormed : reached.1.WellFormed := run_wellFormed created ops
  refine ⟨wellFormed.inverse, ?_, fun zone => (wellFormed.opened_iff zone).symm, ?_⟩
  · intro logical block zone entry mapped present free
    rw [Bool.eq_false_iff]
    intro inZone
    rw [g.inZone_eq_true zone block reached.1.zoneBlocks_pos] at inZone
    rcases wellFormed.placed logical block mapped with ⟨-, rfl⟩ | ⟨⟨held, heldPresent, inUse⟩, -⟩
    · rw [Nat.zero_div] at inZone
      have inside := (wellFormed.known zone).mp ⟨entry, present⟩
      have := reached.1.dataFrom_pos
      omega
    · rw [inZone, present] at heldPresent
      cases heldPresent
      exact inUse free
  · intro along
    have refines : Refines reached :=
      Runs.invariant_of_along Refines
        (fun state op keeps refines => step_refines refines op keeps)
        ⟨(new_ok created).wellFormed, (new_ok created).copiesAgree,
          by simp [Flat.empty]⟩ along
    exact refines.reads

/-- Two zones of one block, each a byte long. -/
def pair : Geometry := ⟨1, 1, 2, by decide, by decide⟩

/-- A run that copies the superblock's block forward between two writes of it. -/
def overtaken : List MapOp :=
  [.write 0 [1], .copyForward 0, .write 0 [2], .commitCopies]

/-- The second write is lost: the copy made before it is what the map is
repointed at. -/
theorem overtaken_reads_back_the_first_write :
    ∃ map : ZoneMap pair, new (ZonedMemory.new pair) 1 = .ok map ∧
      (Runs.run step (map, Flat.empty) overtaken).2 0 = some [2] ∧
      (Runs.run step (map, Flat.empty) overtaken).1.read 0 1 = .ok [1] := by
  exact ⟨_, rfl, by decide +kernel, by decide +kernel⟩

/-- The same operations without the write in between read back. -/
theorem run_refines_flat_pair :
    ∃ map : ZoneMap pair, new (ZonedMemory.new pair) 1 = .ok map ∧
      (Runs.run step (map, Flat.empty)
        [.write 0 [1], .copyForward 0, .commitCopies]).1.read 0 1 = .ok [1] := by
  refine ⟨_, rfl, ?_⟩
  exact (run_refines_flat
    (show new (ZonedMemory.new pair) 1 = .ok _ from rfl)
    [.write 0 [1], .copyForward 0, .commitCopies]).2.2.2
    (by decide +kernel) 0 [1] (by decide +kernel)

end MapOp

end FSystem.Zone
