import FSystem.Zone.MarkLaws
import FSystem.Zone.Collect
import FSystem.Zone.Refinement

/-!
# What a step of the collector does

One case for each thing a step can do, refused or not.  Everything that is said
about a collection follows from these.
-/

namespace FSystem.Zone

open Abi Hash Blob

variable {g : Geometry}

/-- Every zone is in the state it was in. -/
def SameStates (before after : ZoneMap g) : Prop :=
  ∀ zone : Nat, after.zones[zone]?.map Zone.state = before.zones[zone]?.map Zone.state

/-- Two maps of which the second knows how much of each zone is live. -/
structure Tallied (before after : ZoneMap g) : Prop where
  bookkept : ZoneMap.Bookkept before after
  wellFormed : after.WellFormed
  states : SameStates before after
  device : after.device = before.device

variable {map : ZoneMap g}

/-- Replacing a zone's entry by one with the same state. -/
theorem setZone_tallied
    (wellFormed : map.WellFormed)
    {zone : Nat}
    {old new : Zone}
    (present : map.zones[zone]? = some old)
    (named : new.zone = zone)
    (state : new.state = old.state) : Tallied map (map.setZone zone new) := by
  obtain ⟨kept, keptWellFormed⟩ := ZoneMap.setZone_bookkept wellFormed present named
    (by rw [state]; exact id) (by rw [state])
  refine ⟨kept, keptWellFormed, ?_, rfl⟩
  intro other
  rw [ZoneMap.getElem?_setZone]
  split
  next same =>
    subst same
    simp [present, state]
  next => rfl

namespace Mark

/-- Publishing what is live of some zones changes only that number. -/
theorem publishZones_ok (self : Mark) (zones : List Nat) (wellFormed : map.WellFormed)
    (known : ∀ zone ∈ zones, ∃ entry : Zone, map.zones[zone]? = some entry) :
    ∃ after, self.publishZones zones map = .ok after ∧ Tallied map after := by
  induction zones generalizing map with
  | nil => exact ⟨map, rfl, .refl map, wellFormed, fun _ => rfl, rfl⟩
  | cons zone rest ih =>
    obtain ⟨entry, present⟩ := known zone List.mem_cons_self
    have first : Tallied map
        (map.setZone zone { entry with liveBytes := self.liveBytesOf zone }) :=
      setZone_tallied wellFormed present (wellFormed.named zone entry present) rfl
    obtain ⟨after, ok, later⟩ := ih first.wellFormed (by
      intro other member
      rw [first.wellFormed.known, first.bookkept.dataFrom, ← wellFormed.known]
      exact known other (List.mem_cons_of_mem _ member))
    refine ⟨after, ?_, first.bookkept.trans later.bookkept, later.wellFormed, ?_,
      later.device.trans first.device⟩
    · simp only [publishZones, ZoneMap.setLiveBytes, present]
      exact ok
    · intro other
      exact (later.states other).trans (first.states other)

/-- Publishing is never refused. -/
theorem publish_ok (self : Mark) (wellFormed : map.WellFormed) :
    ∃ after, self.publish map = .ok after ∧ Tallied map after := by
  refine self.publishZones_ok _ wellFormed ?_
  intro zone member
  obtain ⟨entry, listed, rfl⟩ := List.mem_map.mp member
  obtain ⟨⟨zone, _⟩, present, rfl⟩ := List.mem_map.mp listed
  rw [Std.TreeMap.mem_toList_iff_getElem?_eq_some] at present
  rw [wellFormed.named zone _ present]
  exact ⟨_, present⟩

end Mark

namespace Collector

/-- A zone is being swept, and its live blocks are copied. -/
structure Drained (collector : Collector) (sweep : Sweep) : Prop where
  phase : collector.phase = .sweeping
  sweeping : collector.sweeping = some sweep
  copiedAll : sweep.remaining = []

/-- What a step does, for a collector that is running and has caught up. -/
inductive Stepped (self : Collector) (store : Store (ZoneMap g)) (roots : Roots) :
    Except Refusal Progress × Collector × Store (ZoneMap g) → Prop
  | walked (queue : Queue)
      (phase : self.phase = .marking) (walking : self.mark.pending ≠ []) :
      Stepped self store roots
        ((self.mark.step store).1.map fun _ => Progress.marked,
          { self with queue := queue, mark := (self.mark.step store).2 }, store)
  | published (map : ZoneMap g)
      (phase : self.phase = .marking) (walked : self.mark.pending = [])
      (tallied : Tallied store.device map) :
      Stepped self store roots (.ok .published,
        { self with
          mark := self.mark.occupyTransient store roots.transientBlocks
          phase := .selecting },
        { store with device := map })
  | finished
      (phase : self.phase = .selecting) (none : candidates store = []) :
      Stepped self store roots (.ok .done, { self with chosen := [], phase := .idle }, store)
  | selected
      (phase : self.phase = .selecting) (some : candidates store ≠ []) :
      Stepped self store roots (.ok .selected,
        { self with chosen := (candidates store).reverse, phase := .sweeping }, store)
  | reselects
      (phase : self.phase = .sweeping) (idle : self.sweeping = none)
      (empty : self.chosen = []) :
      Stepped self store roots (.ok .selected, { self with phase := .selecting }, store)
  | spared (zone : Nat) (rest : List Nat) (refusal : Refusal)
      (phase : self.phase = .sweeping) (idle : self.sweeping = none)
      (next : self.chosen = zone :: rest) :
      Stepped self store roots (.error refusal, { self with chosen := rest }, store)
  | condemned (zone : Nat) (rest : List Nat) (map : ZoneMap g)
      (phase : self.phase = .sweeping) (idle : self.sweeping = none)
      (next : self.chosen = zone :: rest)
      (ok : store.device.condemn zone = .ok map) :
      Stepped self store roots (.ok .selected,
        { self with
          chosen := rest
          sweeping := some ⟨zone, liveIn { store with device := map } self.mark zone, false⟩ },
        { store with device := map })
  | copied (sweep : Sweep) (logical : Nat) (rest : List Nat) (queue : Queue)
      (copiedBytes : Nat)
      (phase : self.phase = .sweeping) (sweeping : self.sweeping = some sweep)
      (next : sweep.remaining = logical :: rest) :
      Stepped self store roots
        ((store.device.copyForward logical).1.map fun _ => Progress.copied,
          { self with
            sweeping := some { sweep with remaining := rest }
            queue := queue
            copiedBytes := copiedBytes },
          { store with device := (store.device.copyForward logical).2 })
  | committed (sweep : Sweep) (queue : Queue) (moved tallied : ZoneMap g)
      (drained : Drained self sweep) (before : sweep.committed = false)
      (commits : ZoneMap.Committed store.device moved)
      (tally : Tallied moved tallied) :
      Stepped self store roots (.ok .committed,
        { self with
          sweeping := some { sweep with committed := true }
          queue := queue
          mark := self.mark.rebuild { store with device := moved } roots },
        { store with device := tallied })
  | waits (sweep : Sweep)
      (drained : Drained self sweep) (before : sweep.committed = true) :
      Stepped self store roots (.ok .waiting, self, store)
  | held (sweep : Sweep) (refusal : Refusal) (queue : Queue)
      (drained : Drained self sweep) (before : sweep.committed = true) :
      Stepped self store roots (.error refusal, { self with queue := queue }, store)
  | reset (sweep : Sweep) (queue : Queue) (map : ZoneMap g)
      (drained : Drained self sweep) (before : sweep.committed = true)
      (invariants : Invariants.nothingReachableIsSwept store.device self.mark roots
        sweep.zone = true)
      (recycled : ZoneMap.Recycled store.device sweep.zone map) :
      Stepped self store roots (.ok .reset,
        { self with
          queue := queue
          zonesCondemned := self.zonesCondemned + 1
          sweeping := none },
        { store with device := map })

variable {store : Store (ZoneMap g)} {roots : Roots}

section

variable (self : Collector)

include self

theorem marking_stepped (wellFormed : store.device.WellFormed) (phase : self.phase = .marking) :
    Stepped self store roots (self.marking store roots) := by
  unfold marking
  split
  next walking =>
    obtain ⟨queue, ok⟩ := self.queue.collectorOperation_ok
    simp only [ok]
    have pending : self.mark.pending ≠ [] := by simpa [Mark.walking] using walking
    have walked : Stepped self store roots _ := .walked queue phase pending
    rcases result : self.mark.step store with ⟨answer, mark⟩
    rw [result] at walked
    cases answer with
    | error refusal | ok more => exact walked
  next done =>
    have pending : self.mark.pending = [] := by simpa [Mark.walking] using done
    obtain ⟨map, ok, tallied⟩ :=
      (self.mark.occupyTransient store roots.transientBlocks).publish_ok wellFormed
    simp only [ok]
    exact .published map phase pending tallied

theorem selecting_stepped (phase : self.phase = .selecting) :
    Stepped self store roots (.ok (self.selecting store).1, (self.selecting store).2, store) := by
  unfold selecting
  by_cases none : candidates store = []
  · simp only [none, List.reverse_nil, List.isEmpty_nil, if_true]
    exact .finished phase none
  · have some : (candidates store).reverse.isEmpty = false := by
      simpa [List.isEmpty_iff] using none
    simp only [some, Bool.false_eq_true, if_false]
    exact .selected phase none

theorem startSweep_stepped (phase : self.phase = .sweeping) (idle : self.sweeping = none) :
    Stepped self store roots (self.startSweep store) := by
  unfold startSweep
  cases next : self.chosen with
  | nil =>
    have reselects : Stepped self store roots _ := .reselects phase idle next
    simpa only [next] using reselects
  | cons zone rest =>
    simp only
    cases ok : store.device.condemn zone with
    | error refusal => exact .spared zone rest refusal phase idle next
    | ok map => exact .condemned zone rest map phase idle next ok

theorem copyNext_stepped
    {sweep : Sweep}
    {logical : Nat}
    {rest : List Nat}
    (phase : self.phase = .sweeping)
    (sweeping : self.sweeping = some sweep)
    (next : sweep.remaining = logical :: rest) :
    Stepped self store roots (self.copyNext store sweep logical rest) := by
  unfold copyNext
  obtain ⟨queue, ok⟩ := self.queue.collectorOperation_ok
  simp only [ok]
  have copied : ∀ copiedBytes, Stepped self store roots _ := fun copiedBytes =>
    .copied sweep logical rest queue copiedBytes phase sweeping next
  rcases result : store.device.copyForward logical with ⟨answer, map⟩
  rw [result] at copied
  cases answer with
  | error refusal => exact copied self.copiedBytes
  | ok copy => exact copied _

section

variable (wellFormed : store.device.WellFormed) {sweep : Sweep} (drained : Drained self sweep)

include wellFormed drained

theorem commitSweep_stepped (before : sweep.committed = false) :
    Stepped self store roots (self.commitSweep store roots sweep) := by
  unfold commitSweep
  obtain ⟨queue, ok⟩ := self.queue.collectorOperation_ok
  obtain ⟨count, moved, done, commits⟩ := ZoneMap.commitCopies_spec wellFormed
  obtain ⟨tallied, published, tally⟩ :=
    (self.mark.rebuild { store with device := moved } roots).publish_ok
      (commits.wellFormed wellFormed)
  simp only [ok, done, published]
  exact .committed sweep queue moved tallied drained before commits tally

theorem resetZone_stepped (before : sweep.committed = true) :
    Stepped self store roots (self.resetZone store roots sweep.zone) := by
  obtain ⟨next, free⟩ := self.queue.collectorOperation_ok
  fun_cases resetZone self store roots sweep.zone with
  | case1 => exact .waits sweep drained before
  | case2 => exact .held sweep .malformed self.queue drained before
  | case3 _ _ _ refused => cases refused.symm.trans free
  | case4 _ _ queue _ _ refusal => exact .held sweep refusal queue drained before
  | case5 _ invariants queue _ _ map recycled =>
    refine .reset sweep queue map drained before ?_
      (ZoneMap.recycle_ok wellFormed recycled)
    simp only [Bool.not_eq_true, Bool.not_eq_false', Invariants.allThree,
      Bool.and_eq_true] at invariants
    exact invariants.1.1

end

/-- A step of the sweep is one of these. -/
theorem sweepStep_stepped (wellFormed : store.device.WellFormed) (phase : self.phase = .sweeping) :
    Stepped self store roots (self.sweepStep store roots) := by
  unfold sweepStep
  cases sweeping : self.sweeping with
  | none => exact startSweep_stepped self phase sweeping
  | some sweep =>
    simp only
    cases remaining : sweep.remaining with
    | cons logical rest => exact copyNext_stepped self phase sweeping remaining
    | nil =>
      cases committed : sweep.committed with
      | false =>
        exact commitSweep_stepped self wellFormed ⟨phase, sweeping, remaining⟩ committed
      | true => exact resetZone_stepped self wellFormed ⟨phase, sweeping, remaining⟩ committed

/-- A collector that is running still is once it has caught up. -/
theorem catchUp_running (running : self.phase ≠ .idle) :
    (self.catchUp store roots).phase ≠ .idle := by
  simp only [catchUp]
  split
  · exact running
  · simp

/-- Every step of a running collector is one of these. -/
theorem step_stepped (wellFormed : store.device.WellFormed) (running : self.phase ≠ .idle) :
    Stepped (self.catchUp store roots) store roots (self.step store roots) := by
  have stillRunning := @catchUp_running g store roots self running
  unfold step
  rw [if_neg running]
  generalize self.catchUp store roots = caught at stillRunning ⊢
  simp only
  cases phase : caught.phase with
  | idle => exact absurd phase stillRunning
  | marking => exact marking_stepped caught wellFormed phase
  | selecting => exact selecting_stepped caught phase
  | sweeping => exact sweepStep_stepped caught wellFormed phase

theorem step_idle (idle : self.phase = .idle) :
    self.step store roots = (.ok .done, self, store) := by
  simp [step, idle]

end

end Collector

end FSystem.Zone
