import FSystem.Zone.System

/-!
# What every state of the system satisfies

Whatever programs interleave, the store stays grounded, its root zones reserved
and the collector's bitmap as large as the device.
-/

namespace FSystem.Zone.System

open Abi Hash Blob

variable {g : Geometry}

/-- The invariant of the system. -/
structure Sane (system : System g) : Prop where
  grounded : Grounded system.store
  reserved : RootsReserved system.store
  sized : system.collector.Sized g

section Parts

variable (self : System g)

section

variable (set : Option WriteSet)

include set

@[simp] theorem noted_store (before : Store (ZoneMap g)) (hashes : List Digest) :
    (self.noted set before hashes).store = self.store := by
  fun_cases noted <;> rfl

@[simp] theorem noted_collector (before : Store (ZoneMap g)) (hashes : List Digest) :
    (self.noted set before hashes).collector = self.collector := by
  fun_cases noted <;> rfl

end

@[simp] theorem commit_collector (set : WriteSet) (record : RootRecord) :
    (self.commit set record).2.collector = self.collector := by
  unfold commit
  split <;> rfl

theorem commit_storeAside (reserved : RootsReserved self.store) (set : WriteSet)
    (record : RootRecord) : StoreAside self.store (self.commit set record).2.store := by
  unfold commit
  split
  · exact .refl _
  · exact commit_aside reserved _ _ _

@[simp] theorem abandon_store (set : WriteSet) : (self.abandon set).store = self.store := by
  fun_cases abandon <;> rfl

@[simp] theorem abandon_collector (set : WriteSet) :
    (self.abandon set).collector = self.collector := by
  fun_cases abandon <;> rfl

@[simp] theorem remapped_roots (result : Except Refusal (ZoneMap g)) :
    (self.remapped result).roots = self.roots := by
  unfold remapped
  split <;> rfl

end Parts

section Readers

variable {map after : ZoneMap g} {zone : Nat}

/-- A reader that enters a zone is only counted. -/
theorem holdRead_tallied (wellFormed : map.WellFormed) (ok : map.holdRead zone = .ok after) :
    Tallied map after := by
  unfold ZoneMap.holdRead at ok
  split at ok
  · cases ok
  rename_i entry present
  cases ok
  exact setZone_tallied wellFormed present (wellFormed.named zone entry present) rfl

/-- A reader that leaves a zone is only counted. -/
theorem releaseRead_tallied (wellFormed : map.WellFormed) (ok : map.releaseRead zone = .ok after) :
    Tallied map after := by
  unfold ZoneMap.releaseRead at ok
  split at ok
  · cases ok
  rename_i entry present
  split at ok
  · cases ok
  cases ok
  exact setZone_tallied wellFormed present (wellFormed.named zone entry present) rfl

end Readers

section Step

variable {self : System g}

/-- What an operation does to the store and to the collector. -/
inductive Effect (self : System g) (op : Op) : System g → Prop
  | stored {after : System g} (puts : Store.Puts op.contents self.store after.store)
      (collector : after.collector = self.collector) : Effect self op after
  | kept {after : System g} (store : after.store = self.store)
      (collector : after.collector = self.collector) : Effect self op after
  | committed {after : System g} (set : WriteSet) (record : RootRecord)
      (aside : StoreAside self.store after.store) (collector : after.collector = self.collector)
      (isCommit : op = .commit set record) : Effect self op after
  | tallied (map : ZoneMap g) (tallied : Tallied self.store.device map) :
    Effect self op { self with store := { self.store with device := map } }
  | begun (isBegin : op = .begin) : Effect self op self.beginCycle
  | stepped (isStep : op = .step) : Effect self op self.stepCollector
  | collected (fuel : Nat) (isCollect : op = .collect fuel) : Effect self op (self.collect fuel)
  | requeued (queue : Queue) :
    Effect self op { self with collector := { self.collector with queue := queue } }

/-- Every operation has one of these effects. -/
theorem step_effect (sane : Sane self) (op : Op) : Effect self op (self.step op) := by
  have remapped : ∀ {result}, (∀ map, result = .ok map → Tallied self.store.device map) →
      Effect self op (self.remapped result) := by
    intro result tallied
    cases result with
    | error refusal => exact .kept rfl rfl
    | ok map => exact .tallied map (tallied map rfl)
  have noted : ∀ {store set hashes}, Store.Puts op.contents self.store store →
      Effect self op ({ self with store := store }.noted set self.store hashes) := by
    intro store set hashes puts
    exact .stored (by rw [noted_store]; exact puts) (by rw [noted_collector])
  cases op with
  | put set kind content =>
    have puts : Store.Puts [content] self.store (self.store.put kind content).2 :=
      .put kind (List.mem_singleton_self _) .refl
    simp only [step, put]
    rcases result : self.store.put kind content with ⟨_ | hash, store⟩ <;> rw [result] at puts
    · exact .stored puts rfl
    · exact noted puts
  | putObject set bytes =>
    have puts := objectParts_puts sane.grounded bytes
    simp only [step, putObject]
    rcases result : self.store.putObject bytes with ⟨_ | hash, store⟩ <;> rw [result] at puts
    · exact .stored puts rfl
    · exact noted puts
  | opened | pin root | unpin root => exact .kept rfl rfl
  | commit set record =>
    exact .committed set record (self.commit_storeAside sane.reserved set record)
      (self.commit_collector set record) rfl
  | abandon set => exact .kept (self.abandon_store set) (self.abandon_collector set)
  | begin => exact .begun rfl
  | step => exact .stepped rfl
  | collect fuel => exact .collected fuel rfl
  | holdRead zone => exact remapped fun map ok => holdRead_tallied sane.grounded.wellFormed ok
  | releaseRead zone =>
    exact remapped fun map ok => releaseRead_tallied sane.grounded.wellFormed ok
  | requeue queue => exact .requeued queue

/-- Systems with the same superblock and the same start of data. -/
def SameLayout (before after : System g) : Prop :=
  after.store.superblock = before.store.superblock ∧
    after.store.device.dataFrom = before.store.device.dataFrom

section

variable (sane : Sane self)
include sane

theorem Sane.of_layout {after : System g} (layout : SameLayout self after)
    (grounded : Grounded after.store) (sized : after.collector.Sized g) :
    Sane after ∧ SameLayout self after :=
  ⟨⟨grounded, sane.reserved.of_same layout.1 layout.2, sized⟩, layout⟩

/-- A map whose zones were only counted anew. -/
theorem Sane.tallied {map : ZoneMap g} (tallied : Tallied self.store.device map) :
    Sane { self with store := { self.store with device := map } } ∧
      SameLayout self { self with store := { self.store with device := map } } := by
  have unchanged := Unchanged.of_bookkept tallied.bookkept
  exact sane.of_layout ⟨rfl, tallied.bookkept.dataFrom⟩ (unchanged.toFades.grounded sane.grounded
    tallied.wellFormed (tallied.bookkept.copiesAgree sane.grounded.agree)) sane.sized

/-- Every operation keeps the invariant, the superblock and where the data begins. -/
theorem step_sane (op : Op) : Sane (self.step op) ∧ SameLayout self (self.step op) := by
  have effect := step_effect sane op
  generalize self.step op = after at effect ⊢
  cases effect with
  | stored puts collector =>
    have grows := puts_extends sane.grounded puts
    exact sane.of_layout ⟨grows.superblock, grows.dataFrom⟩ grows.grounded (collector ▸ sane.sized)
  | kept store collector =>
    exact sane.of_layout ⟨by rw [store], by rw [store]⟩ (store ▸ sane.grounded)
      (collector ▸ sane.sized)
  | committed set record aside collector =>
    exact sane.of_layout ⟨aside.superblock, aside.map.dataFrom⟩ (aside.grounded sane.grounded)
      (collector ▸ sane.sized)
  | tallied map tallied => exact sane.tallied tallied
  | requeued queue => exact ⟨⟨sane.grounded, sane.reserved, sane.sized⟩, rfl, rfl⟩
  | begun => exact sane.of_layout ⟨rfl, rfl⟩ sane.grounded (sane.sized.begin self.roots)
  | stepped =>
    obtain ⟨stays, fades⟩ := self.collector.step_store sane.grounded self.roots
    exact sane.of_layout ⟨fades.superblock, fades.dataFrom⟩ stays
      (sane.sized.step sane.grounded.wellFormed self.roots)
  | collected fuel =>
    obtain ⟨-, kept⟩ := Collector.collect_kept fuel self.roots sane.grounded sane.sized
    exact sane.of_layout ⟨kept.fades.superblock, kept.fades.dataFrom⟩ kept.grounded
      (Collector.collectLoop_sized fuel 0 _ sane.grounded (sane.sized.begin self.roots))

end

end Step

end FSystem.Zone.System
