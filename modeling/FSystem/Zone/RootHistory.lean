import FSystem.Zone.Boot
import FSystem.Zone.RootZones

/-!
# The records of a run of commits

A history is a system together with the records its commits returned.  Whatever happens
between the commits, and after every operation of the device inside one, the last of
these records can be read in one of the two root zones.
-/

namespace FSystem.Zone

open Abi Hash Blob ZonedMemory FSystem.Zone.System

variable {g : Geometry}

/-- Without a commit, whatever interleaves, the device is what the operations it journaled
play to, and none of them is on a reserved zone. -/
theorem System.run_works
    {start : System g}
    (sane : Sane start)
    {ops : List System.Op}
    (uncommitted : ∀ op ∈ ops, ∀ set record, op ≠ .commit set record) :
    ZoneMap.Works start.store.device (Runs.run step start ops).store.device := by
  refine (Runs.invariant_of_along (fun system => Sane system ∧ SameLayout start system ∧
    ZoneMap.Works start.store.device system.store.device) ?_ ⟨sane, ⟨rfl, rfl⟩, .refl _⟩
    (Runs.along_of_forall uncommitted start)).2.2
  rintro system op other ⟨sane, layout, works⟩
  obtain ⟨saneNext, next⟩ := step_sane sane op
  have further := step_works sane other
  rw [ZoneMap.Works, layout.2] at further
  exact ⟨saneNext, ⟨next.1.trans layout.1, next.2.trans layout.2⟩, works.trans further⟩

/-- A collection after a pin. -/
theorem System.run_works_collected : ZoneMap.Works (around usedStore).store.device
    (Runs.run step (around usedStore) [.pin (sha256 [1]), .collect 100]).store.device :=
  run_works booted_used.sane (by simp)

/-- A system, the records in its root zones at first, and those committed since, oldest first. -/
structure History (g : Geometry) where
  system : System g
  earlier : List RootRecord
  committed : List RootRecord

namespace History

/-- The device below the system. -/
def device (self : History g) : ZonedMemory g := self.system.store.device.device

/-- The history of a system in which nothing was committed yet. -/
def start (system : System g) : History g where
  system
  earlier := system.store.device.device.records system.store.superblock.rootZoneA.toNat ++
    system.store.device.device.records system.store.superblock.rootZoneB.toNat
  committed := []

/-- One operation; a commit that is not refused adds its record. -/
def step (self : History g) (op : System.Op) : History g where
  system := self.system.step op
  earlier := self.earlier
  committed :=
    match op with
    | .commit set record => self.committed ++ (self.system.commit set record).1.toOption.toList
    | _ => self.committed

/-- A commit succeeds, and its generation is above all earlier ones. -/
def Publishes (self : History g) : System.Op → Prop
  | .commit set record =>
    (self.system.commit set record).1.isOk = true ∧
      ∀ held ∈ self.earlier ++ self.committed, held.generation < record.generation
  | _ => True

/-- A commit is of a generation other than zero. -/
def Numbered : System.Op → Prop
  | .commit _ record => record.generation ≠ 0
  | _ => True

instance (self : History g) : (op : System.Op) → Decidable (self.Publishes op)
  | .commit _ _ => inferInstanceAs (Decidable (_ ∧ _))
  | .put _ _ _ | .putObject _ _ | .opened | .abandon _ | .pin _ | .unpin _ | .begin | .step
  | .collect _ | .holdRead _ | .releaseRead _ | .requeue _ => inferInstanceAs (Decidable True)

instance : (op : System.Op) → Decidable (Numbered op)
  | .commit _ record => inferInstanceAs (Decidable (record.generation ≠ 0))
  | .put _ _ _ | .putObject _ _ | .opened | .abandon _ | .pin _ | .unpin _ | .begin | .step
  | .collect _ | .holdRead _ | .releaseRead _ | .requeue _ => inferInstanceAs (Decidable True)

/-- A record can be read in the root zones, were the device in a given state. -/
def InRootZones (store : Store (ZoneMap g)) (device : ZonedMemory g) (record : RootRecord) :
    Prop :=
  ∃ block, (block / g.zoneBlocks = store.superblock.rootZoneA.toNat ∨ block / g.zoneBlocks =
    store.superblock.rootZoneB.toNat) ∧ recordAt (onDevice store device) block = some record

/-- The system is sane, and its root zones hold the last records committed. -/
structure Rooted (history : History g) : Prop where
  sane : Sane history.system
  sited : Sited history.system.store
  zones : ∃ active other,
    Zone.Rooted history.system.store history.earlier history.committed active other

variable {record : RootRecord} {zone : Nat} {store : Store (ZoneMap g)}

section Step

variable {self : History g} {set : WriteSet}

/-- Commits answer in the history as in the system. -/
theorem publishes_commit (publishes : self.Publishes (.commit set record)) :
    ∃ (publish : Publish) (written : RootRecord),
      (publish.publisher.commit self.system.store self.system.roots record).1 = .ok written ∧
      (self.step (.commit set record)).committed = self.committed ++ [written] ∧
      (self.step (.commit set record)).system.store =
        (publish.publisher.commit self.system.store self.system.roots record).2.1 := by
  have ok := publishes.1
  cases opened : self.system.publishes[set]? with
  | none =>
    rw [commit, opened] at ok
    cases ok
  | some publish =>
    have commits : self.system.commit set record =
        ((publish.publisher.commit self.system.store self.system.roots record).1,
          { self.system with
            store := (publish.publisher.commit self.system.store self.system.roots record).2.1
            roots := (publish.publisher.commit self.system.store self.system.roots record).2.2
            publishes := self.system.publishes.erase set }) := by
      rw [commit, opened]
    rw [commits] at ok
    cases answer : (publish.publisher.commit self.system.store self.system.roots record).1 with
    | error refusal =>
      rw [answer] at ok
      cases ok
    | ok written =>
      refine ⟨publish, written, answer, ?_, ?_⟩
      · simp [step, commits, answer, Except.toOption, Option.toList]
      · simp [step, System.step, commits]

variable {op : System.Op}

theorem step_committed (other : ∀ set record, op ≠ .commit set record) :
    (self.step op).committed = self.committed := by
  cases op with
  | commit set record => exact absurd rfl (other set record)
  | put | putObject | opened | abandon | pin | unpin | begin | step | collect | holdRead
  | releaseRead | requeue => rfl

/-- Inside an operation that is not a commit the reserved zones are as they were. -/
theorem replay_reserved
    (sane : Sane self.system)
    (other : ∀ set record, op ≠ .commit set record)
    {passed rest : List Op}
    (journal : (self.step op).device.journal = self.device.journal ++ (passed ++ rest))
    (reserved : Reserved self.system.store.device.dataFrom zone) :
    (self.device.replay passed).records zone = self.device.records zone := by
  apply records_replay self.system.store.device.zoneBlocks_pos (Nat.ne_of_gt reserved.1)
  intro touched member same
  have managed := ((step_works sane other).passed journal).1 touched member zone same
  exact reserved.ne_of_managed managed rfl

/-- The device between two operations of its journal still has the last records. -/
def Survives (self : History g) (op : System.Op) : Prop :=
  ∀ passed rest, (self.step op).device.journal = self.device.journal ++ (passed ++ rest) →
    (self.device.replay passed).replay rest = (self.step op).device ∧ ∀ record ∈ lastRecords
      self.committed, InRootZones self.system.store (self.device.replay passed) record

/-- The step lemma, for a commit. -/
theorem Rooted.step_commit (rooted : self.Rooted) (publishes : self.Publishes (.commit set record))
    (numbered : record.generation ≠ 0) :
    (∃ active other, Zone.Rooted (self.step (.commit set record)).system.store self.earlier
        (self.step (.commit set record)).committed active other) ∧
      self.Survives (.commit set record) := by
  obtain ⟨-, sited, active, other, zones⟩ := rooted
  obtain ⟨activeReserved, -, apart⟩ := zones.reserved sited
  obtain ⟨publish, written, ok, committed, store⟩ := publishes_commit publishes
  obtain ⟨ran, turned⟩ := zones.commit sited numbered publishes.2 ok
  rw [← store] at ran
  refine ⟨by rw [committed, store]; exact turned, fun passed rest journal => ?_⟩
  obtain ⟨spares, whole⟩ := ran.passed journal
  refine ⟨whole.symm, fun held member => zones.found sited ?_ member⟩
  -- only the other zone may be emptied, and the last records are in the active one
  apply records_replay_prefix self.system.store.device.zoneBlocks_pos
    (Nat.ne_of_gt activeReserved.1)
  rintro - within rfl
  exact apart (spares _ within active rfl)

/-- The step lemma, for other operations. -/
theorem Rooted.step_other (rooted : self.Rooted)
    (elsewhere : ∀ set record, op ≠ .commit set record) :
    (∃ active other, Zone.Rooted (self.step op).system.store self.earlier
        (self.step op).committed active other) ∧ self.Survives op := by
  obtain ⟨sane, sited, active, other, zones⟩ := rooted
  obtain ⟨activeReserved, otherReserved, -⟩ := zones.reserved sited
  have ran := step_works sane elsewhere
  obtain ⟨all, played, added, -⟩ := ran
  have same : ∀ zone, Reserved self.system.store.device.dataFrom zone →
      (self.step op).device.records zone = self.device.records zone := by
    intro zone reserved
    have whole := replay_reserved sane elsewhere
      (added.trans (congrArg _ (List.append_nil all).symm)) reserved
    exact (show (self.step op).device = self.device.replay all from played) ▸ whole
  refine ⟨⟨active, other, ?_⟩, fun passed rest journal => ?_⟩
  · rw [step_committed elsewhere]
    exact zones.of_same (step_sane sane op).2.1 (by
      rintro zone (rfl | rfl)
      · exact same zone activeReserved
      · exact same zone otherReserved)
  · refine ⟨((step_works sane elsewhere).passed journal).2.symm, fun held member => ?_⟩
    refine zones.found sited ?_ member
    exact (replay_reserved sane elsewhere journal activeReserved) ▸ List.prefix_rfl

/-- The step lemma: the last records are readable after each operation of the device
inside a step, and the step keeps what holds along a run. -/
theorem Rooted.step (rooted : self.Rooted) (publishes : self.Publishes op)
    (numbered : Numbered op) : (self.step op).Rooted ∧ self.Survives op := by
  obtain ⟨sane, layout⟩ := step_sane rooted.sane op
  have kept : (∃ active other, Zone.Rooted (self.step op).system.store self.earlier
      (self.step op).committed active other) ∧ self.Survives op := by
    by_cases commits : ∃ set record, op = .commit set record
    · obtain ⟨set, record, rfl⟩ := commits
      exact rooted.step_commit publishes numbered
    · exact rooted.step_other fun set record same => commits ⟨set, record, same⟩
  exact ⟨⟨sane, rooted.sited.of_same layout.1 layout.2, kept.1⟩, kept.2⟩

end Step

section Run

variable {start : System g}

/-- Nothing was committed before the first commit. -/
theorem rooted_start (booted : Booted start)
    (apart : start.store.superblock.rootZoneA.toNat ≠ start.store.superblock.rootZoneB.toNat)
    (roomy : RootRecord.bytes ≤ g.blockBytes) : Rooted (.start start) := by
  have sane := booted.sane
  let held (zone : UInt32) := start.store.device.device.records zone.toNat
  refine ⟨sane, ⟨sane.reserved, ⟨sane.grounded.sound.sized, roomy⟩, apart⟩, ?_⟩
  rcases Nat.lt_or_ge (top (held start.store.superblock.rootZoneA))
    (top (held start.store.superblock.rootZoneB)) with less | more
  · exact ⟨_, _, .inr ⟨rfl, rfl, less⟩, List.nil_suffix, fun _ member =>
      List.mem_append_left _ (List.mem_append_right _ member)⟩
  · exact ⟨_, _, .inl ⟨rfl, rfl, more⟩, List.nil_suffix, fun _ member =>
      List.mem_append_left _ (List.mem_append_left _ member)⟩

/-- A device whose blocks are too small for a root record sees no commit succeed. -/
theorem not_commit_of_cramped {history : History g} (cramped : ¬RootRecord.bytes ≤ g.blockBytes)
    {op : System.Op} (publishes : history.Publishes op) :
    ∀ set record, op ≠ .commit set record := by
  rintro set record rfl
  obtain ⟨publish, written, ok, -⟩ := publishes_commit publishes
  obtain ⟨zone, ready, next, -, appended, -⟩ := commit_steps ok
  exact cramped (appendRecord_roomy appended)

section

variable {ops : List System.Op} (along : Runs.Along step
  (fun history op => history.Publishes op ∧ Numbered op) (.start start) ops)
include along

theorem cramped_along (booted : Booted start) (cramped : ¬RootRecord.bytes ≤ g.blockBytes) :
    Sane (Runs.run step (.start start) ops).system ∧
      (Runs.run step (.start start) ops).committed = [] := by
  refine Runs.invariant_of_along
    (fun history : History g => Sane history.system ∧ history.committed = []) ?_
    ⟨booted.sane, rfl⟩ along
  rintro history op ⟨publishes, -⟩ ⟨sane, nothing⟩
  refine ⟨(step_sane sane op).1, ?_⟩
  rw [step_committed (not_commit_of_cramped cramped publishes)]
  exact nothing

/-- The run lemma. -/
theorem rooted_along (booted : Booted start)
    (apart : start.store.superblock.rootZoneA.toNat ≠ start.store.superblock.rootZoneB.toNat)
    (roomy : RootRecord.bytes ≤ g.blockBytes) : (Runs.run step (.start start) ops).Rooted := by
  refine Runs.invariant_of_along Rooted ?_ (rooted_start booted apart roomy) along
  intro history op condition rooted
  exact (rooted.step condition.1 condition.2).1

end

/-- The run lemma: in a run of commits of increasing generations that all succeed, with
anything in between, the last records that were committed, as many as are carried, can be
read in the root zones after every operation of the device and after every step. -/
theorem last_records_survive
    (booted : Booted start)
    (apart : start.store.superblock.rootZoneA.toNat ≠ start.store.superblock.rootZoneB.toNat)
    {ops : List System.Op}
    (along : Runs.Along step (fun history op => history.Publishes op ∧ Numbered op)
      (.start start) ops)
    {op : System.Op}
    (publishes : (Runs.run step (.start start) ops).Publishes op)
    (numbered : Numbered op) :
    (Runs.run step (.start start) ops).Survives op ∧
      ∀ record ∈ lastRecords ((Runs.run step (.start start) ops).step op).committed,
        InRootZones ((Runs.run step (.start start) ops).step op).system.store
          ((Runs.run step (.start start) ops).step op).device record := by
  by_cases roomy : RootRecord.bytes ≤ g.blockBytes
  · obtain ⟨after, survives⟩ := (rooted_along along booted apart roomy).step publishes numbered
    refine ⟨survives, fun record member => ?_⟩
    obtain ⟨active, other, zones⟩ := after.zones
    exact zones.found after.sited List.prefix_rfl member
  · obtain ⟨sane, nothing⟩ := cramped_along along booted roomy
    have other := not_commit_of_cramped roomy publishes
    refine ⟨fun passed rest journal => ⟨?_, ?_⟩, ?_⟩
    · exact ((step_works sane other).passed journal).2.symm
    · rw [nothing]
      exact fun _ member => absurd member List.not_mem_nil
    · rw [step_committed other, nothing]
      exact fun _ member => absurd member List.not_mem_nil

end Run

section Samples

/-- A device of five zones of thirty-two blocks, so that a root zone can wrap. -/
def wide : Geometry := ⟨512, 32, 5, small.zonesFit, by decide⟩

/-- A map over the wide device. -/
def wideMap : ZoneMap wide :=
  (ZoneMap.new (ZonedMemory.new wide) 3).toOption.get (by decide +kernel)

/-- A store on it. -/
def wideStore : Store (ZoneMap wide) :=
  (Store.format wideMap (superblockForThisBuild 512 5 16384 1 2)).toOption.get (by decide +kernel)

/-- A record that names nothing, of some generation. -/
def plainRecord (generation : UInt64) : RootRecord :=
  ⟨generation, sha256 [], sha256 [], sha256 [], sha256 [], sha256 []⟩

/-- A device with a root record on it. -/
def wideDevice : ZonedMemory wide :=
  (Runs.run System.step (around wideStore) [.opened, .commit 1 (plainRecord 1)]).store.device.device

/-- What a mount of the wide device finds. -/
def wideMount : Mounted × Store (ZoneMap wide) :=
  (mount .stable wideDevice 3).toOption.get (by decide +kernel)

theorem booted_wideMount : Booted (around wideMount.2) := by
  have mounted : mount .stable wideDevice 3 = .ok wideMount := Runs.eq_ok_get _
  refine .mounted .stable wideDevice 3 wideMount.1 wideMount.2
    (by rw [mounted, Prod.mk.eta]) ⟨?_, ?_⟩ <;>
    · unfold Reserved
      decide +kernel

/-- One commit after the mount, and a second publish. -/
def committedAgain : History wide :=
  Runs.run step (.start (around wideMount.2)) [.opened, .commit 1 (plainRecord 2), .opened]

/-- The mount found the record of an earlier commit; two more follow. -/
theorem last_records_survive_mount :
    committedAgain.earlier = [Publisher.sealRecord (plainRecord 1)] ∧
      committedAgain.committed.length = 1 ∧
      committedAgain.Survives (.commit 2 (plainRecord 3)) ∧
      ∀ record ∈ lastRecords (committedAgain.step (.commit 2 (plainRecord 3))).committed,
        InRootZones (committedAgain.step (.commit 2 (plainRecord 3))).system.store
          (committedAgain.step (.commit 2 (plainRecord 3))).device record :=
  ⟨by decide +kernel, by decide +kernel, last_records_survive booted_wideMount
    (by decide +kernel) (by decide +kernel) (by decide +kernel) (by decide +kernel)⟩

/-- What is read as a root record is of a generation other than zero. -/
theorem recordAt_numbered {block : Nat} (found : recordAt store block = some record) :
    record.generation ≠ 0 := by
  revert found
  fun_cases recordAt store block with
  | case4 short buffer read raw record decoded =>
    rintro ⟨⟩
    revert decoded
    fun_cases RootRecord.fromBytes with
    | case4 _ _ numbered =>
      rintro ⟨⟩
      exact numbered
    | _ => rintro ⟨⟩
  | _ => rintro ⟨⟩

/-- A first commit of generation zero succeeds, and its record cannot be read. -/
theorem generation_zero_unreadable :
    (Runs.run step (.start (around wideStore)) [.opened]).Publishes
        (.commit 1 (plainRecord 0)) ∧
      ∃ record ∈ lastRecords ((Runs.run step (.start (around wideStore)) [.opened]).step
          (.commit 1 (plainRecord 0))).committed,
        ¬InRootZones ((Runs.run step (.start (around wideStore)) [.opened]).step
            (.commit 1 (plainRecord 0))).system.store
          ((Runs.run step (.start (around wideStore)) [.opened]).step
            (.commit 1 (plainRecord 0))).device record := by
  refine ⟨by decide +kernel, Publisher.sealRecord (plainRecord 0), by decide +kernel, ?_⟩
  rintro ⟨block, -, found⟩
  exact recordAt_numbered found rfl

end Samples

end History

end FSystem.Zone
