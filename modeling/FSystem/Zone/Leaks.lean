import FSystem.Zone.Boot

/-!
# No zone is leaked

A zone is condemned while it is swept, and only then.  A cycle that ends, or
begins, finds no zone condemned and no copy outstanding, unless a sweep was cut
off before it was over.
-/

namespace FSystem.Zone

open Abi Hash Blob

variable {g : Geometry} {after : ZoneMap g}

namespace ZoneMap

/-- Every zone that is condemned was condemned before. -/
def Spares (before after : ZoneMap g) : Prop :=
  ∀ zone : Nat, after.zones[zone]?.map Zone.state = some .condemned →
    before.zones[zone]?.map Zone.state = some .condemned

theorem Spares.refl (map : ZoneMap g) : Spares map map :=
  fun _ condemned => condemned

theorem Spares.trans {before between : ZoneMap g} (first : Spares before between)
    (second : Spares between after) : Spares before after :=
  fun zone condemned => first zone (second zone condemned)

variable {before after : ZoneMap g}

theorem Spares.of_zones (same : after.zones = before.zones) : Spares before after := by
  intro zone condemned
  rwa [same] at condemned

theorem Spares.setZone (map : ZoneMap g) (zone : Nat) {entry : Zone}
    (state : entry.state ≠ .condemned) : Spares map (map.setZone zone entry) := by
  intro other condemned
  rw [getElem?_setZone] at condemned
  split at condemned
  next => exact absurd (Option.some.inj condemned) state
  next => exact condemned

theorem Closed.spares (closed : Closed before after) :
    Spares before after := by
  intro zone condemned
  rw [closed.zones] at condemned
  split at condemned
  next =>
    rw [Option.map_map] at condemned
    obtain ⟨entry, -, isSealed⟩ := Option.map_eq_some_iff.mp condemned
    cases isSealed
  next => exact condemned

section Append

variable {self : ZoneMap g}

theorem openZone_spares (wellFormed : self.WellFormed) : Spares self self.openZone.2 := by
  obtain ⟨closed, spec, refused | ⟨zone, entry, -, -, ok⟩⟩ := openZone_cases wellFormed
  · rw [refused]
    exact spec.spares
  · rw [ok]
    exact spec.spares.trans (Spares.setZone closed zone (by simp))

theorem Opens.spares (opens : Opens self after) : Spares self after := by
  induction opens with
  | refl => exact .refl self
  | tail _ opened ih =>
    obtain ⟨wellFormed, rfl⟩ := opened
    exact ih.trans (openZone_spares wellFormed)

/-- An append condemns nothing. -/
theorem appendSomewhere_spares (wellFormed : self.WellFormed) (source : Bytes) :
    Spares self (self.appendSomewhere source).2 := by
  obtain ⟨ready, opens, ⟨refusal, refused⟩ | ⟨zone, -, appends⟩⟩ :=
    appendSomewhere_opens wellFormed source
  · rw [refused]
    exact opens.spares
  · rw [appends, deviceAppend]
    split <;> exact opens.spares

/-- Copying a block forward condemns nothing. -/
theorem copyForward_spares (wellFormed : self.WellFormed) (logical : Nat) :
    Spares self (self.copyForward logical).2 := by
  rcases copyForward_cases wellFormed logical with
    ⟨_, map, rfl | ⟨bytes, rfl⟩, -, -, refused⟩ | ⟨-, bytes, copy, map, -, -, rfl, -, ok⟩
  · rw [refused]
    exact .refl _
  · rw [refused]
    exact appendSomewhere_spares wellFormed bytes
  · rw [ok]
    exact appendSomewhere_spares wellFormed bytes

end Append

/-- Two maps between which nothing was condemned and nothing copied. -/
structure Quiet (before after : ZoneMap g) : Prop where
  copies : after.copies = before.copies
  spares : Spares before after

theorem Quiet.trans {before between : ZoneMap g} (first : Quiet before between)
    (second : Quiet between after) : Quiet before after :=
  ⟨second.copies.trans first.copies, first.spares.trans second.spares⟩

/-- A write condemns nothing and copies nothing. -/
theorem write_quiet {self : ZoneMap g} (wellFormed : self.WellFormed) (block : Nat)
    (source : Bytes) :
    Quiet self (self.write block source).2 := by
  have spares := appendSomewhere_spares wellFormed source
  rcases write_cases wellFormed block source with ⟨_, map, same, kept, -, refused⟩ |
    ⟨-, device, -, -, -, ok⟩ | ⟨-, place, map, rfl, done, ok⟩
  · rw [refused]
    refine ⟨kept.copies, ?_⟩
    rcases same with rfl | rfl
    · exact .refl _
    · exact spares
  · rw [ok]
    exact ⟨rfl, .refl self⟩
  · rw [ok]
    exact ⟨done.copies, spares⟩

theorem Writes.quiet (writes : Writes before after)
    (wellFormed : before.WellFormed) : Quiet before after := by
  induction writes with
  | refl => exact ⟨rfl, .refl before⟩
  | tail earlier written ih =>
    obtain ⟨block, source, rfl⟩ := written
    exact ih.trans (write_quiet (Writes.wellFormed earlier wellFormed) block source)

/-- No zone is condemned and no copy is outstanding. -/
structure Clean (map : ZoneMap g) : Prop where
  uncondemned : ∀ (zone : Nat) (entry : Zone), map.zones[zone]? = some entry →
    entry.state ≠ .condemned
  uncopied : map.copies.isEmpty = true

end ZoneMap

theorem Tallied.quiet {before : ZoneMap g} (tallied : Tallied before after) :
    ZoneMap.Quiet before after :=
  ⟨tallied.bookkept.copies, fun zone condemned => tallied.states zone ▸ condemned⟩

namespace Mark

variable {store : Store (ZoneMap g)}

/-- A walk that is not refused is done with every hash it met. -/
theorem step_known {self : Mark} {more : Bool} (known : ∀ hash ∈ self.seen, hash ∈ self.roots)
    (ok : (self.step store).1 = .ok more) :
    ∀ hash ∈ (self.step store).2.seen, hash ∈ (self.step store).2.roots := by
  have inserted : ∀ hash other : Digest, other ∈ self.seen.insert hash →
      other ∈ self.roots.insert hash := by
    intro hash other member
    rw [Std.TreeSet.mem_insert] at member ⊢
    exact member.imp_right (known other)
  have walked := @step_walked g store self
  generalize (self.step store).2 = after at walked ⊢
  rw [ok] at walked
  generalize isOk : (Except.ok more : Except Refusal Bool) = answer at walked
  cases walked with
  | nothing empty => exact known
  | again hash rest next seen => exact known
  | unresolved hash rest next fresh absent => exact inserted hash
  | headless => cases isOk
  | childless => cases isOk
  | recorded hash rest start header hashes walked meets visits asked =>
    have asks : Asks _ walked := asked ▸ foldl_walk_asks hashes _
    simp only [asks.roots, asks.seen, meet_grows.roots, meet_grows.seen]
    exact inserted hash

end Mark

namespace Collector

/-- Only the zone being swept is condemned, and copies are outstanding only then. -/
structure Tidy (collector : Collector) (map : ZoneMap g) : Prop where
  rested : collector.sweeping = none → map.copies.isEmpty = true
  condemned : ∀ zone : Nat, map.zones[zone]?.map Zone.state = some .condemned →
    ∃ sweep, collector.sweeping = some sweep ∧ sweep.zone = zone
  idle : collector.phase = .idle → collector.sweeping = none

namespace Tidy

variable {self after : Collector} {map next : ZoneMap g}

section

variable (tidy : Tidy self map)

include tidy

theorem clean (rests : self.sweeping = none) : map.Clean := by
  refine ⟨?_, tidy.rested rests⟩
  intro zone entry present condemned
  obtain ⟨sweep, sweeps, -⟩ := tidy.condemned zone (by rw [present, Option.map_some, condemned])
  rw [rests] at sweeps
  cases sweeps

theorem of_quiet (quiet : ZoneMap.Quiet map next) : Tidy self next := by
  refine ⟨?_, ?_, tidy.idle⟩
  · rw [quiet.copies]
    exact tidy.rested
  · intro zone condemned
    exact tidy.condemned zone (quiet.spares zone condemned)

/-- What is swept is what matters, and that the collector is running. -/
theorem of_sweeping (sweeping : after.sweeping = self.sweeping) (running : after.phase ≠ .idle) :
    Tidy after map :=
  ⟨sweeping ▸ tidy.rested, sweeping ▸ tidy.condemned, fun idle => absurd idle running⟩

variable {sweep : Sweep}

/-- While a zone is swept there may be copies. -/
theorem of_sweep
    {left : Sweep}
    (sweeping : self.sweeping = some sweep)
    (sweepingAfter : after.sweeping = some left)
    (same : left.zone = sweep.zone)
    (running : after.phase ≠ .idle)
    (spares : ZoneMap.Spares map next) : Tidy after next := by
  refine ⟨?_, ?_, fun idle => absurd idle running⟩
  · intro rests
    rw [sweepingAfter] at rests
    cases rests
  · intro zone condemned
    obtain ⟨_, isSwept, rfl⟩ := tidy.condemned zone (spares zone condemned)
    rw [sweeping] at isSwept
    cases isSwept
    exact ⟨left, sweepingAfter, same⟩

/-- A collector that rests may take any zone. -/
theorem of_condemned
    (rests : self.sweeping = none)
    {zone : Nat}
    (condemn : map.condemn zone = .ok next)
    (sweeping : after.sweeping = some sweep)
    (isZone : sweep.zone = zone)
    (running : after.phase ≠ .idle) : Tidy after next := by
  refine ⟨?_, ?_, fun idle => absurd idle running⟩
  · intro restsAfter
    rw [sweeping] at restsAfter
    cases restsAfter
  intro other condemned
  obtain ⟨entry, -, -, rfl⟩ := ZoneMap.condemn_ok condemn
  rw [ZoneMap.getElem?_setZone] at condemned
  split at condemned
  next same => exact ⟨sweep, sweeping, isZone.trans same⟩
  next =>
    obtain ⟨_, swept, -⟩ := tidy.condemned other condemned
    rw [rests] at swept
    cases swept

/-- A zone that was reset is not condemned any more, and it was the only one. -/
theorem of_recycled (sweeping : self.sweeping = some sweep)
    (recycled : ZoneMap.Recycled map sweep.zone next) (rests : after.sweeping = none) :
    Tidy after next := by
  refine ⟨?_, ?_, fun _ => rests⟩
  · intro _
    rw [recycled.copies]
    exact recycled.no_copies
  intro zone condemned
  rw [recycled.zones] at condemned
  split at condemned
  · cases condemned
  rename_i other
  obtain ⟨_, isSwept, same⟩ := tidy.condemned zone condemned
  rw [sweeping] at isSwept
  cases isSwept
  exact absurd same other

end

end Tidy

variable {next : Collector}

section Step

variable {self : Collector} {store : Store (ZoneMap g)} {roots : Roots}

/-- A step selects while a zone is being swept, and finds no other zone to sweep. -/
def GivesUp (caught : Collector) (store : Store (ZoneMap g)) : Prop :=
  caught.phase = .selecting ∧ caught.sweeping ≠ none ∧ candidates store = []

/-- A step that gives nothing up leaves things tidy. -/
theorem stepped_tidy
    {answer : Except Refusal Progress}
    {result : Store (ZoneMap g)}
    (tidy : Tidy self store.device)
    (wellFormed : store.device.WellFormed)
    (finishes : ¬GivesUp self store)
    (stepped : Stepped self store roots (answer, next, result)) :
    Tidy next result.device := by
  cases stepped with
  | walked queue phase walking | spared zone rest refusal phase idle isNext =>
    exact tidy.of_sweeping rfl (by simp [phase])
  | held sweep refusal queue drained before =>
    exact tidy.of_sweeping rfl (by simp [drained.phase])
  | published map phase walked tallied =>
    exact (tidy.of_quiet tallied.quiet).of_sweeping rfl (by simp)
  | finished phase none =>
    have rests : self.sweeping = Option.none :=
      not_not.mp fun sweeps => finishes ⟨phase, sweeps, none⟩
    exact ⟨tidy.rested, tidy.condemned, fun _ => rests⟩
  | selected phase some | reselects phase idle empty => exact tidy.of_sweeping rfl (by simp)
  | condemned zone rest map phase idle isNext ok =>
    exact tidy.of_condemned idle ok rfl rfl (by simp [phase])
  | copied sweep logical rest queue copiedBytes phase sweeping isNext =>
    exact tidy.of_sweep sweeping rfl rfl (by simp [phase])
      (ZoneMap.copyForward_spares wellFormed logical)
  | committed sweep queue moved tallied drained before commits tally =>
    exact tidy.of_sweep drained.sweeping rfl rfl (by simp [drained.phase])
      ((ZoneMap.Spares.of_zones commits.zones).trans tally.quiet.spares)
  | waits sweep drained before => exact tidy
  | reset sweep queue map drained before invariants recycled =>
    exact tidy.of_recycled drained.sweeping recycled rfl

theorem step_tidy (tidy : Tidy self store.device) (wellFormed : store.device.WellFormed)
    (finishes : ¬GivesUp (self.catchUp store roots) store) :
    Tidy (self.step store roots).2.1 (self.step store roots).2.2.device := by
  by_cases idle : self.phase = .idle
  · rw [step_idle self idle]
    exact tidy
  · have caught : Tidy (self.catchUp store roots) store.device :=
      tidy.of_sweeping rfl (catchUp_running self idle)
    exact stepped_tidy caught wellFormed finishes (step_stepped self wellFormed idle)

/-- A cycle that begins when nothing is swept leaves things tidy. -/
theorem begin_tidy {map : ZoneMap g} (tidy : Tidy self map) (rests : self.sweeping = none) :
    Tidy (self.begin roots).1 map :=
  tidy.of_sweeping rests.symm (by simp [begin])

end Step

section Collect

variable {self : Collector} {store : Store (ZoneMap g)} {roots : Roots}

/-- In a cycle nothing interrupts every pinned root is walked before anything is selected, so
marking never resumes, and a zone is swept only in its phase. -/
structure Steady (collector : Collector) (roots : Roots) : Prop where
  known : ∀ hash ∈ collector.mark.seen, hash ∈ collector.mark.roots
  pinned : collector.phase ≠ .marking → ∀ root ∈ roots.pinned, root ∈ collector.mark.roots
  rests : collector.phase ≠ .sweeping → collector.sweeping = none

section

variable (steady : Steady self roots)
include steady

/-- A steady collector catches up in its phase, with every pinned root walked or pending. -/
theorem Steady.catchUp (store : Store (ZoneMap g)) :
    Steady (self.catchUp store roots) roots ∧
      ∀ root ∈ roots.pinned, root ∈ (self.catchUp store roots).mark.roots ∨
        root ∈ (self.catchUp store roots).mark.pending := by
  have sameRoots : (self.catchUp store roots).mark.roots = self.mark.roots :=
    (Mark.occupyTransient_grows ..).roots.trans (Mark.foldl_walk_asks ..).roots
  have sameSeen : (self.catchUp store roots).mark.seen = self.mark.seen :=
    (Mark.occupyTransient_grows ..).seen.trans (Mark.foldl_walk_asks ..).seen
  have samePhase : (self.catchUp store roots).phase = self.phase := by
    by_cases marking : self.phase = .marking
    · simp [Collector.catchUp, marking]
    have nothing : (roots.pinned.toList.filter
        fun root => !self.mark.roots.contains root) = [] := by
      rw [List.filter_eq_nil_iff]
      intro root member
      have isRoot := steady.pinned marking root (Std.TreeSet.mem_toList.mp member)
      simpa using isRoot
    simp [Collector.catchUp, nothing]
  refine ⟨⟨?_, ?_, ?_⟩, ?_⟩
  · rw [sameSeen, sameRoots]
    exact steady.known
  · rw [samePhase, sameRoots]
    exact steady.pinned
  · rw [samePhase]
    exact steady.rests
  intro root member
  rw [sameRoots]
  by_cases isRoot : root ∈ self.mark.roots
  · exact .inl isRoot
  have missing : root ∈ roots.pinned.toList.filter
      fun root => !self.mark.roots.contains root := by
    rw [List.mem_filter, Std.TreeSet.mem_toList]
    refine ⟨member, ?_⟩
    rw [Bool.not_eq_true', Bool.eq_false_iff]
    exact fun contains => isRoot (Std.TreeSet.mem_iff_contains.mpr contains)
  rcases Mark.foldl_walk_covers _ self.mark missing with seen | pending
  · exact absurd (steady.known root seen) isRoot
  · refine .inr ?_
    change root ∈ (Mark.occupyTransient store _ roots.transientBlocks).pending
    rw [(Mark.occupyTransient_grows ..).pending]
    exact pending

variable {progress : Progress}

theorem stepped_steady {result : Except Refusal Progress × Collector × Store (ZoneMap g)}
    (pinned : ∀ root ∈ roots.pinned, root ∈ self.mark.roots ∨ root ∈ self.mark.pending)
    (stepped : Stepped self store roots result) (isOk : result.1 = .ok progress) :
    Steady result.2.1 roots := by
  cases stepped with
  | walked queue phase walking =>
    have rests := steady.rests (by simp [phase])
    rcases ok : (self.mark.step store).1 with refusal | more
    · simp only [ok] at isOk
      cases isOk
    · exact ⟨Mark.step_known steady.known ok, fun past => absurd phase past, fun _ => rests⟩
  | published map phase walked tallied =>
    have grows := @Mark.occupyTransient_grows g store self.mark roots.transientBlocks
    have rests := steady.rests (by simp [phase])
    refine ⟨?_, ?_, fun _ => rests⟩
    · simp only [grows.seen, grows.roots]
      exact steady.known
    intro _ root member
    simp only [grows.roots]
    rcases pinned root member with isRoot | pending
    · exact isRoot
    · rw [walked] at pending
      cases pending
  | finished phase none =>
    exact ⟨steady.known, fun _ => steady.pinned (by simp [phase]),
      fun _ => steady.rests (by simp [phase])⟩
  | selected phase some =>
    exact ⟨steady.known, fun _ => steady.pinned (by simp [phase]), fun past => absurd rfl past⟩
  | reselects phase idle empty =>
    exact ⟨steady.known, fun _ => steady.pinned (by simp [phase]), fun _ => idle⟩
  | spared | held => cases isOk
  | condemned zone rest map phase idle isNext ok
  | copied sweep logical rest queue copiedBytes phase sweeping isNext =>
    exact ⟨steady.known, steady.pinned, fun past => absurd phase past⟩
  | reset sweep queue map drained before invariants recycled =>
    exact ⟨steady.known, steady.pinned, fun past => absurd drained.phase past⟩
  | committed sweep queue moved tallied drained before commits tally =>
    obtain ⟨_, grows⟩ := @Mark.rebuild_grows g { store with device := moved } self.mark roots
    refine ⟨?_, ?_, fun past => absurd drained.phase past⟩
    · simp only [grows.roots, grows.seen]
      exact steady.known
    · simp only [grows.roots]
      exact steady.pinned
  | waits sweep drained before => exact steady

/-- The step lemma. -/
theorem step_steady (wellFormed : store.device.WellFormed)
    (ok : (self.step store roots).1 = .ok progress) : Steady (self.step store roots).2.1 roots := by
  by_cases idle : self.phase = .idle
  · rw [step_idle self idle]
    exact steady
  · obtain ⟨caught, pinned⟩ := steady.catchUp store
    exact stepped_steady caught pinned (step_stepped self wellFormed idle) ok

/-- A steady collector gives no sweep up. -/
theorem Steady.finishes : ¬GivesUp (self.catchUp store roots) store := by
  rintro ⟨selecting, sweeps, -⟩
  exact sweeps ((steady.catchUp store).1.rests (by simp [selecting]))

/-- The loop of a collection leaves things tidy. -/
theorem collectLoop_tidy (fuel steps : Nat) (grounded : Grounded store)
    (tidy : Tidy self store.device) :
    Tidy (collectLoop roots fuel steps self store).2.1
      (collectLoop roots fuel steps self store).2.2.device := by
  induction fuel generalizing steps self store with
  | zero => exact tidy
  | succ fuel ih =>
    have tidyNext := step_tidy tidy grounded.wellFormed steady.finishes
    rcases collectLoop_succ fuel steps grounded.wellFormed roots with
      ⟨answer, queue, result⟩ | ⟨⟨progress, ok⟩, result⟩
    · rw [result]
      exact { tidyNext with }
    · rw [result]
      exact ih (step_steady steady grounded.wellFormed ok) (steps + 1)
        (self.step_store grounded roots).1 tidyNext

end

/-- A collection that begins when nothing is swept leaves things tidy. -/
theorem collect_tidy
    (fuel : Nat)
    (roots : Roots)
    (grounded : Grounded store)
    (tidy : Tidy self store.device)
    (rests : self.sweeping = none) :
    Tidy (collect fuel self store roots).2.1 (collect fuel self store roots).2.2.1.device := by
  have asks := Mark.foldl_walk_asks roots.pinned.toList self.mark.restart
  refine collectLoop_tidy ⟨?_, ?_, fun _ => rfl⟩ fuel 0 grounded (begin_tidy tidy rests)
  · intro hash member
    rw [begin, asks.seen] at member
    simp [Mark.restart] at member
  · exact fun past => absurd rfl past

end Collect

end Collector

namespace System

/-- Whether an operation starts a cycle. -/
def Op.begins : Op → Bool
  | .begin | .collect _ => true
  | _ => false

/-- A cycle is started only when no zone is being swept, and a step that selects while one is
finds another to sweep. -/
def Uncut (system : System g) : Op → Prop
  | .begin | .collect _ => system.collector.sweeping = none
  | .step => ¬Collector.GivesUp (system.collector.catchUp system.store system.roots) system.store
  | _ => True

instance (system : System g) : (op : Op) → Decidable (Uncut system op)
  | .begin | .collect _ => inferInstanceAs (Decidable (_ = _))
  | .step => inferInstanceAs (Decidable (¬(_ ∧ _ ∧ _)))
  | .put .. | .putObject .. | .opened | .commit .. | .abandon .. | .pin .. | .unpin ..
  | .holdRead .. | .releaseRead .. | .requeue .. => inferInstanceAs (Decidable True)

/-- A system is tidy when its collector is. -/
def Tidy (system : System g) : Prop :=
  system.collector.Tidy system.store.device

section Step

variable {self : System g}

/-- The step lemma: an operation that cuts no sweep off leaves things tidy. -/
theorem step_tidy (sane : Sane self) (tidy : Tidy self) (op : Op) (uncut : Uncut self op) :
    Tidy (self.step op) := by
  have wellFormed := sane.grounded.wellFormed
  have effect := step_effect sane op
  generalize self.step op = after at effect ⊢
  unfold Tidy at tidy ⊢
  cases effect with
  | stored puts collector =>
    exact collector ▸ Collector.Tidy.of_quiet tidy ((puts_writes puts).quiet wellFormed)
  | kept store collector => exact store ▸ collector ▸ tidy
  | committed set record aside collector =>
    exact collector ▸ Collector.Tidy.of_quiet tidy ⟨aside.map.copies, .of_zones aside.map.zones⟩
  | tallied map tallied => exact Collector.Tidy.of_quiet tidy tallied.quiet
  | begun isBegin =>
    subst isBegin
    exact Collector.begin_tidy tidy uncut
  | stepped isStep =>
    subst isStep
    exact Collector.step_tidy tidy wellFormed uncut
  | collected fuel isCollect =>
    subst isCollect
    exact Collector.collect_tidy fuel self.roots sane.grounded tidy uncut
  | requeued queue => exact ⟨tidy.rested, tidy.condemned, tidy.idle⟩

end Step

/-- An idle collector over a clean map is tidy. -/
theorem around_tidy {store : Store (ZoneMap g)} (clean : store.device.Clean) :
    Tidy (around store) := by
  refine ⟨fun _ => clean.uncopied, ?_, fun _ => rfl⟩
  intro zone condemned
  obtain ⟨entry, present, isCondemned⟩ := Option.map_eq_some_iff.mp condemned
  exact absurd isCondemned (clean.uncondemned zone entry present)

/-- A booted system is tidy. -/
theorem Booted.tidy {system : System g} (booted : Booted system) : Tidy system := by
  cases booted with
  | formatted device dataFrom map layout store created format reserved =>
    have isCreated := ZoneMap.new_ok created
    obtain ⟨-, -, block, rfl⟩ := Store.format_ok format
    have quiet := ZoneMap.write_quiet isCreated.wellFormed 0 block
    have emptyMap : Tidy (around ⟨map, layout, 1, ∅⟩) := by
      refine around_tidy ⟨?_, by simp [isCreated.copies]⟩
      intro zone entry present condemned
      rw [isCreated.zones] at present
      split at present
      · cases present
        cases condemned
      · cases present
    exact Collector.Tidy.of_quiet emptyMap ⟨quiet.copies, quiet.spares⟩
  | mounted sorting device dataFrom found store mount reserved =>
    obtain ⟨map, -, -, remounted, mounted, -⟩ := mount_steps mount
    obtain ⟨-, -, -, -, isStore⟩ := Store.mount_ok mounted
    have isMap : store.device = map := congrArg Store.device isStore
    refine around_tidy (isMap ▸ ⟨?_, by simp [remounted.copies]⟩)
    intro zone entry present condemned
    rw [remounted.zones] at present
    split_ifs at present <;> cases present <;> cases condemned

/-- In every run that cuts no sweep off, no zone is condemned and no copy
outstanding whenever the collector is idle, and whenever a cycle may begin. -/
theorem run_leaks_nothing
    {start : System g}
    (booted : Booted start)
    (ops : List Op)
    (uncut : Runs.Along step Uncut start ops) :
    ((Runs.run step start ops).collector.phase = .idle →
        (Runs.run step start ops).store.device.Clean) ∧
      ∀ op : Op, op.begins = true → Uncut (Runs.run step start ops) op →
        (Runs.run step start ops).store.device.Clean := by
  obtain ⟨-, tidy⟩ : Sane (Runs.run step start ops) ∧ Tidy (Runs.run step start ops) :=
    Runs.invariant_of_along (fun system => Sane system ∧ Tidy system)
      (fun system op uncut kept => ⟨(step_sane kept.1 op).1, step_tidy kept.1 kept.2 op uncut⟩)
      ⟨booted.sane, booted.tidy⟩ uncut
  constructor
  · intro idle
    exact Collector.Tidy.clean tidy (tidy.idle idle)
  · intro op begins uncutNext
    cases op with
    | begin | collect fuel => exact Collector.Tidy.clean tidy uncutNext
    | _ => cases begins

/-- A collection that reclaims the zone of two dead chunks leaves nothing behind. -/
theorem run_leaks_nothing_used :
    (Runs.run step (around usedStore) [.collect 100]).collector.zonesCondemned = 1 ∧
      (Runs.run step (around usedStore) [.collect 100]).store.device.Clean := by
  have uncut : Runs.Along step Uncut (around usedStore) [.collect 100] := by decide +kernel
  have idle : (Runs.run step (around usedStore) [.collect 100]).collector.phase = .idle := by
    decide +kernel
  exact ⟨by decide +kernel, (run_leaks_nothing booted_used _ uncut).1 idle⟩

/-- A reader inside the zone makes the collection wait.  The next collection
forgets the sweep, and ends with the zone still condemned although the reader has
left. -/
theorem forgotten_sweep_leaks :
    Booted (around usedStore) ∧
      (Runs.run step (around usedStore)
        [.holdRead 3, .collect 100, .releaseRead 3, .collect 100]).collector.phase = .idle ∧
      ¬(Runs.run step (around usedStore)
        [.holdRead 3, .collect 100, .releaseRead 3, .collect 100]).store.device.Clean := by
  refine ⟨booted_used, by decide +kernel, ?_⟩
  exact fun clean => clean.uncondemned 3 ⟨3, .condemned, 0, 0⟩ (by decide +kernel) rfl

end System

end FSystem.Zone
