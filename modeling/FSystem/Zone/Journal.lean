import FSystem.Zone.SystemInvariant

/-!
# The journal of the device

Every operation a device takes is noted in its journal, and playing the journal back
gives the device.  So the states a device went through are those that the beginnings of
its journal play to.  What puts, readers and the collector do to a device is in the
superblock's zone and in the data zones, never in a zone that is reserved.
-/

namespace FSystem.Zone

open Abi Blob

variable {g : Geometry}

/-- The zone an operation changes. -/
def Op.zone (g : Geometry) : Op → Option Nat
  | .write block _ => some (block / g.zoneBlocks)
  | .append block _ => some (block / g.zoneBlocks)
  | .finish zone => some zone
  | .reset zone => some zone
  | .flush => none

variable {op : Op} {zone : Nat}

namespace ZonedMemory

/-- Ask a device for an operation that was noted in a journal. -/
def play (self : ZonedMemory g) : Op → ZonedMemory g
  | .write block bytes =>
    match self.write block bytes with
    | .ok after => after
    | .error _ => self
  | .append block bytes =>
    match self.append (block / g.zoneBlocks) bytes with
    | .ok (_, after) => after
    | .error _ => self
  | .finish zone =>
    match self.finish zone with
    | .ok after => after
    | .error _ => self
  | .reset zone =>
    match self.reset zone with
    | .ok after => after
    | .error _ => self
  | .flush => self.flush

/-- The device after the operations of a journal. -/
def replay (self : ZonedMemory g) (ops : List Op) : ZonedMemory g := ops.foldl play self

theorem replay_append (self : ZonedMemory g) (ops more : List Op) :
    self.replay (ops ++ more) = (self.replay ops).replay more :=
  List.foldl_append

/-- Operations of some kind lead from one device to another, and are journalled. -/
def Ran (allowed : Op → Prop) (before after : ZonedMemory g) : Prop :=
  ∃ ops, after = before.replay ops ∧ after.journal = before.journal ++ ops ∧ ∀ op ∈ ops, allowed op

namespace Ran

variable {allowed : Op → Prop} {before between after : ZonedMemory g}

theorem refl (device : ZonedMemory g) : Ran allowed device device :=
  ⟨[], rfl, (List.append_nil _).symm, fun _ member => absurd member List.not_mem_nil⟩

theorem trans (first : Ran allowed before between) (second : Ran allowed between after) :
    Ran allowed before after := by
  obtain ⟨ops, rfl, journal, kind⟩ := first
  obtain ⟨more, rfl, moreJournal, moreKind⟩ := second
  refine ⟨ops ++ more, (replay_append _ _ _).symm, ?_, ?_⟩
  · rw [moreJournal, journal, List.append_assoc]
  · intro op member
    rcases List.mem_append.1 member with early | late
    · exact kind op early
    · exact moreKind op late

theorem single (played : after = before.play op) (journal : after.journal = before.journal ++ [op])
    (kind : allowed op) : Ran allowed before after := by
  refine ⟨[op], played, journal, ?_⟩
  intro other member
  rw [List.mem_singleton.1 member]
  exact kind

/-- The states a device went through: one for each beginning of what was added to its
journal. -/
theorem passed (ran : Ran allowed before after) {ops rest : List Op}
    (journal : after.journal = before.journal ++ (ops ++ rest)) :
    (∀ op ∈ ops, allowed op) ∧ after = (before.replay ops).replay rest := by
  obtain ⟨all, played, added, kind⟩ := ran
  rw [journal, List.append_cancel_left_eq] at added
  subst added
  refine ⟨fun op member => kind op (List.mem_append_left _ member), ?_⟩
  rw [played, replay_append]

end Ran

section Operations

variable {self after : ZonedMemory g} {source : Bytes} {block : Nat}

theorem play_append (ok : self.append zone source = .ok (block, after)) :
    after = self.play (.append block source) ∧ block / g.zoneBlocks = zone := by
  have divides := (append_place ok).1
  refine ⟨?_, divides⟩
  rw [play, divides, ok]

variable {allowed : Op → Prop}

theorem append_ran (ok : self.append zone source = .ok (block, after))
    (kind : allowed (.append block source)) : Ran allowed self after := by
  obtain ⟨-, -, -, -, -, -, -, -, -, journal⟩ := append_ok ok
  exact .single (play_append ok).1 journal kind

theorem finish_ran (ok : self.finish zone = .ok after) (kind : allowed (.finish zone)) :
    Ran allowed self after := by
  obtain ⟨-, -, journal⟩ := finish_ok ok
  refine .single ?_ journal kind
  rw [play, ok]

theorem reset_ran (ok : self.reset zone = .ok after) (kind : allowed (.reset zone)) :
    Ran allowed self after := by
  obtain ⟨-, -, -, journal⟩ := reset_ok ok
  refine .single ?_ journal kind
  rw [play, ok]

theorem write_ran (ok : self.write block source = .ok after) (kind : allowed (.write block source))
    : Ran allowed self after := by
  obtain ⟨-, -, -, -, -, journal⟩ := write_ok ok
  refine .single ?_ journal kind
  rw [play, ok]

theorem flush_ran (kind : allowed .flush) : Ran allowed self self.flush :=
  .single rfl rfl kind

end Operations

end ZonedMemory

/-- An operation on the superblock's zone or on a data zone. -/
def OnManaged (g : Geometry) (dataFrom : Nat) (op : Op) : Prop :=
  ∀ zone, op.zone g = some zone → Managed dataFrom zone

namespace ZoneMap

open ZonedMemory

/-- A map's device went from one state to another without touching a reserved zone. -/
abbrev Works (before after : ZoneMap g) : Prop :=
  Ran (OnManaged g before.dataFrom) before.device after.device

section Works

variable {self after : ZoneMap g}

section

variable (wellFormed : self.WellFormed)

include wellFormed

/-- A zone the map knows is a data zone. -/
theorem WellFormed.managed {entry : Zone} (present : self.zones[zone]? = some entry) :
    Managed self.dataFrom zone :=
  .inr ((wellFormed.known zone).1 ⟨entry, present⟩).1

theorem WellFormed.managed_opened (opened : self.opened = some zone) :
    Managed self.dataFrom zone := by
  obtain ⟨entry, present, -⟩ := (wellFormed.opened_iff zone).1 opened
  exact wellFormed.managed present

theorem closeZone_works : Works self self.closeZone.2 := by
  unfold closeZone
  cases opened : self.opened with
  | none => exact .refl _
  | some zone =>
    dsimp only
    cases finished : self.device.finish zone with
    | error refusal => exact .refl _
    | ok device =>
      have ran : Ran (OnManaged g self.dataFrom) self.device device := by
        refine finish_ran finished ?_
        intro other same
        cases same
        exact wellFormed.managed_opened opened
      dsimp only
      unfold setState
      split
      · exact ran
      · exact ran

theorem openZone_works : Works self self.openZone.2 := by
  have closes := closeZone_works wellFormed
  unfold openZone
  rcases closed : self.closeZone with ⟨answer, map⟩
  rw [closed] at closes
  cases answer with
  | error refusal => exact closes
  | ok done =>
    dsimp only
    split
    · exact closes
    · unfold setState
      split
      · exact closes
      · exact closes

theorem deviceAppend_works (opened : self.opened = some zone) (source : Bytes) :
    Works self (self.deviceAppend zone source).2 := by
  unfold deviceAppend
  cases appended : self.device.append zone source with
  | error refusal => exact .refl _
  | ok result =>
    refine append_ran appended ?_
    intro other same
    cases same
    rw [(play_append appended).2]
    exact wellFormed.managed_opened opened

theorem Opens.works (opens : Opens self after) : Works self after := by
  induction opens with
  | refl => exact .refl _
  | tail earlier opened ih =>
    obtain ⟨between, rfl⟩ := opened
    have later := openZone_works between
    rw [Works, (Opens.bookkept earlier wellFormed).1.dataFrom] at later
    exact ih.trans later

theorem appendSomewhere_works (source : Bytes) : Works self (self.appendSomewhere source).2 := by
  obtain ⟨ready, opens, ⟨refusal, refused⟩ | ⟨zone, opened, appends⟩⟩ :=
    appendSomewhere_opens wellFormed source
  · rw [refused]
    exact opens.works wellFormed
  · obtain ⟨kept, readyWellFormed⟩ := opens.bookkept wellFormed
    have later := deviceAppend_works readyWellFormed opened source
    rw [Works, kept.dataFrom] at later
    rw [appends]
    exact (opens.works wellFormed).trans later

/-- A write touches no reserved zone. -/
theorem write_works (block : Nat) (source : Bytes) : Works self (self.write block source).2 := by
  have appends := appendSomewhere_works wellFormed source
  rcases write_cases wellFormed block source with ⟨_, map, same, -, -, refused⟩ |
    ⟨place, device, -, conventional, written, ok⟩ | ⟨-, place, map, rfl, -, ok⟩
  · rw [refused]
    rcases same with rfl | rfl
    · exact .refl _
    · exact appends
  · rw [ok]
    refine write_ran written ?_
    intro zone same
    cases same
    exact .inl ((Geometry.kindOf_eq_conventional _).1 conventional)
  · rw [ok]
    exact appends

end

/-- Writes through the map touch no reserved zone. -/
theorem Writes.works {before after : ZoneMap g} (writes : Writes before after)
    (wellFormed : before.WellFormed) : Works before after ∧ after.dataFrom = before.dataFrom := by
  induction writes with
  | refl => exact ⟨.refl _, rfl⟩
  | tail earlier written ih =>
    obtain ⟨block, source, rfl⟩ := written
    obtain ⟨ran, dataFrom⟩ := ih
    have between := Writes.wellFormed earlier wellFormed
    have later := write_works between block source
    rw [Works, dataFrom] at later
    exact ⟨ran.trans later, (write_dataFrom between block source).trans dataFrom⟩

/-- Nor does a copy. -/
theorem copyForward_works (wellFormed : self.WellFormed) (logical : Nat) :
    Works self (self.copyForward logical).2 := by
  rcases copyForward_cases wellFormed logical with
    ⟨_, map, rfl | ⟨bytes, rfl⟩, -, -, refused⟩ | ⟨-, bytes, copy, map, -, -, rfl, -, ok⟩
  · rw [refused]
    exact .refl _
  · rw [refused]
    exact appendSomewhere_works wellFormed bytes
  · rw [ok]
    exact appendSomewhere_works wellFormed bytes

/-- Repointing the map leaves the device as it is, but for a barrier. -/
theorem commitCopies_works (self : ZoneMap g) : Works self self.commitCopies.2 := by
  have repoints : ∀ (moves : List (Nat × Nat)) (map : ZoneMap g),
      (moves.foldl (fun map copy => map.repoint copy.1 copy.2) map).device = map.device := by
    intro moves
    induction moves with
    | nil => exact fun _ => rfl
    | cons move rest ih =>
      intro map
      rw [List.foldl_cons, ih, repoint_device]
  unfold commitCopies
  split
  · exact .refl _
  · rw [Works, repoints]
    exact flush_ran fun _ none => by cases none

/-- Nor does a recycling. -/
theorem Recycled.works (recycled : Recycled self zone after) (wellFormed : self.WellFormed) :
    Works self after := by
  obtain ⟨entry, present, -⟩ := recycled.condemned
  refine reset_ran recycled.device ?_
  intro other same
  cases same
  exact wellFormed.managed present

end Works

end ZoneMap

namespace Collector

open ZonedMemory ZoneMap

variable {store : Store (ZoneMap g)}

theorem publish_device {mark : Mark} {map after : ZoneMap g} (wellFormed : map.WellFormed)
    (published : mark.publish map = .ok after) : after.device = map.device := by
  obtain ⟨other, ok, tallied⟩ := mark.publish_ok wellFormed
  rw [ok] at published
  cases published
  exact tallied.device

theorem marking_device (self : Collector) (wellFormed : store.device.WellFormed) (roots : Roots) :
    (self.marking store roots).2.2.device.device = store.device.device := by
  fun_cases marking self store roots with
  | case5 _ _ _ published => exact publish_device wellFormed published
  | _ => rfl

theorem startSweep_device (self : Collector) (store : Store (ZoneMap g)) :
    (self.startSweep store).2.2.device.device = store.device.device := by
  unfold startSweep
  cases self.chosen with
  | nil => rfl
  | cons zone rest =>
    dsimp only
    cases ok : store.device.condemn zone with
    | error refusal => rfl
    | ok map =>
      obtain ⟨-, -, -, rfl⟩ := ZoneMap.condemn_ok ok
      rfl

section

variable (self : Collector) (wellFormed : store.device.WellFormed) (roots : Roots)

include self wellFormed

theorem copyNext_works (sweep : Sweep) (logical : Nat) (rest : List Nat) :
    Works store.device (self.copyNext store sweep logical rest).2.2.device := by
  have copies := copyForward_works wellFormed logical
  unfold copyNext
  dsimp only
  cases self.queue.collectorOperation with
  | error refusal => exact .refl _
  | ok queue =>
    rcases result : store.device.copyForward logical with ⟨answer, map⟩
    rw [result] at copies
    cases answer with
    | error refusal | ok copy => exact copies

theorem commitSweep_works (sweep : Sweep) :
    Works store.device (self.commitSweep store roots sweep).2.2.device := by
  have commits := store.device.commitCopies_works
  obtain ⟨count, moved, done, committed⟩ := ZoneMap.commitCopies_spec wellFormed
  rw [done] at commits
  unfold commitSweep
  dsimp only
  cases self.queue.collectorOperation with
  | error refusal => exact .refl _
  | ok queue =>
    rw [done]
    dsimp only
    split
    · exact commits
    · next published =>
        rw [Works, publish_device (committed.wellFormed wellFormed) published]
        exact commits

theorem resetZone_works (zone : Nat) :
    Works store.device (self.resetZone store roots zone).2.2.device := by
  fun_cases resetZone self store roots zone with
  | case5 _ _ _ _ _ map recycled => exact (recycle_ok wellFormed recycled).works wellFormed
  | _ => exact .refl _

/-- A step of the collector touches no reserved zone. -/
theorem step_works : Works store.device (self.step store roots).2.2.device := by
  unfold step
  split
  · exact .refl _
  generalize self.catchUp store roots = caught
  dsimp only
  cases caught.phase with
  | idle | selecting => exact .refl _
  | marking =>
    rw [Works, marking_device caught wellFormed]
    exact .refl _
  | sweeping =>
    unfold sweepStep
    cases caught.sweeping with
    | none =>
      rw [Works, startSweep_device]
      exact .refl _
    | some sweep =>
      dsimp only
      cases sweep.remaining with
      | cons logical rest => exact caught.copyNext_works wellFormed sweep logical rest
      | nil =>
        dsimp only
        split
        · exact caught.commitSweep_works wellFormed roots sweep
        · exact caught.resetZone_works wellFormed roots sweep.zone

end

/-- Nor does a whole collection. -/
theorem collectLoop_works (roots : Roots) (fuel steps : Nat) (self : Collector)
    (grounded : Grounded store) :
    Works store.device (collectLoop roots fuel steps self store).2.2.device := by
  refine (collectLoop_induct fuel steps (fun _ after => after.device.dataFrom =
    store.device.dataFrom ∧ Works store.device after.device) (fun {self _} groundedNext => ?_) id
    grounded ⟨rfl, .refl _⟩).2
  rintro ⟨same, works⟩
  have next := self.step_works groundedNext.wellFormed roots
  obtain ⟨-, fades⟩ := self.step_store groundedNext roots
  rw [Works, same] at next
  exact ⟨fades.dataFrom.trans same, works.trans next⟩

end Collector

namespace System

open ZoneMap

/-- An operation that is not a commit touches no reserved zone. -/
theorem step_works {system : System g} (sane : Sane system)
    (other : ∀ set record, op ≠ .commit set record) :
    Works system.store.device (system.step op).store.device := by
  have wellFormed := sane.grounded.wellFormed
  have effect := step_effect sane op
  generalize system.step op = after at effect ⊢
  cases effect with
  | stored puts => exact (Writes.works (puts_writes puts) wellFormed).1
  | kept store =>
    rw [store]
    exact .refl _
  | committed set record _ _ isCommit => exact absurd isCommit (other set record)
  | tallied map tallied =>
    change ZonedMemory.Ran _ _ map.device
    rw [tallied.device]
    exact .refl _
  | begun | requeued queue => exact .refl _
  | stepped => exact system.collector.step_works wellFormed system.roots
  | collected fuel => exact Collector.collectLoop_works _ fuel 0 _ sane.grounded

end System

end FSystem.Zone
