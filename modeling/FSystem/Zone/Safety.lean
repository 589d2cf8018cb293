import FSystem.Zone.Attendance
import FSystem.Zone.Resolution

/-!
# Publishing beside a collector

A publish stores its blobs while a collector runs, and pins its root at the end.
What it wrote is held by its write set until then.  What it found already stored
is not: a publish is safe when everything it found was whole, and stayed protected
by something else until its root was pinned.
-/

namespace FSystem.Zone

open Abi Hash Blob Std

variable {g : Geometry} {hash : Digest} (store : Store (ZoneMap g))

/-- A hash can be read. -/
def Readable (hash : Digest) : Prop :=
  ∃ (room : Nat) (content : Bytes), store.get hash room = .ok content

theorem not_readable_of_head {store : Store (ZoneMap g)} {refusal : Refusal}
    (refused : store.head hash = .error refusal) : ¬Readable store hash := by
  rintro ⟨room, content, ok⟩
  obtain ⟨start, one, header, -, located, first, found, -⟩ := Store.get_steps ok
  have headed : store.head hash = .ok header := by
    simp only [Store.head, located, first]
    exact found
  rw [refused] at headed
  cases headed

/-- Every block of a hash's record meets a condition. -/
def EveryBlock (hash : Digest) (condition : Nat → Prop) : Prop :=
  ∀ (start : Nat) (header : Header), store.located[hash]? = some start → store.head hash = .ok
    header → ∀ index < span store.blockBytes header.contentBytes.toNat, condition (start + index)

variable {condition : Nat → Prop} {after roots : Roots} {set : WriteSet}

theorem EveryBlock.imp {store : Store (ZoneMap g)} {other : Nat → Prop}
    (every : EveryBlock store hash condition)
    (implies : ∀ logical, condition logical → other logical) : EveryBlock store hash other :=
  fun start header located head index inside =>
    implies _ (every start header located head index inside)

/-- A record is in the closure of a pinned root, or open write sets hold its blocks. -/
def Guarded (roots : Roots) (hash : Digest) : Prop :=
  Live store roots hash ∨ EveryBlock store hash (· ∈ roots.transientBlocks)

/-- No block of a record lies in a zone. -/
def Away (zone : Nat) (hash : Digest) : Prop :=
  EveryBlock store hash fun logical => ∀ place : Nat,
    store.device.physical[logical]? = some place → place / g.zoneBlocks ≠ zone

section Get

variable {before after : Store (ZoneMap g)} {roots : Roots} {hash : Digest}
  {room : Nat} {content : Bytes}

/-- A blob is read as before when its blocks are. -/
theorem Fades.get_of_everyBlock (fades : Fades before after) (sound : Store.Sound before)
    (same : EveryBlock before hash fun logical =>
      after.device.read logical g.blockBytes = before.device.read logical g.blockBytes)
    (ok : before.get hash room = .ok content) : after.get hash room = .ok content := by
  refine Store.get_congr sound fades.superblock (by rw [fades.located]) ?_ ok
  intro start header located head index inside bytes read
  rw [sound.sized] at read ⊢
  exact (same start header located head index inside).trans read

theorem Kept.get_of_guarded (kept : Kept roots before after) (sound : Store.Sound before)
    (guarded : Guarded before roots hash) (ok : before.get hash room = .ok content) :
    after.get hash room = .ok content := by
  rcases guarded with live | held
  · exact kept.live hash live room content ok
  · exact kept.fades.get_of_everyBlock sound (held.imp kept.transient) ok

/-- A step loses no record that is guarded or outside the zone it resets. -/
theorem Collector.step_get
    {self : Collector}
    (grounded : Grounded before)
    (attends : self.Attends before)
    (safe : ∀ zone, self.resets = some zone → Guarded before roots hash ∨ Away before zone hash)
    (ok : before.get hash room = .ok content) :
    (self.step before roots).2.2.get hash room = .ok content := by
  by_cases idle : self.phase = .idle
  · rw [step_idle self idle]
    exact ok
  have kept := (step_kept grounded attends roots).2
  rcases (stepped_store grounded (step_stepped self grounded.wellFormed idle)).2 with
    unchanged | ⟨zone, -, resets, swept⟩
  · exact unchanged.get grounded.sound ok
  · rcases safe zone resets with guarded | away
    · exact kept.get_of_guarded grounded.sound guarded ok
    · exact swept.fades.get_of_everyBlock grounded.sound
        (away.imp fun logical outside => swept.recycled.read outside) ok

end Get

namespace Publisher

/-- Adding blocks to a write set adds them to that one only. -/
theorem appendBlocks_ok {blocks : List Nat} (ok : appendBlocks set blocks roots = .ok after) :
    after.pinned = roots.pinned ∧
      (∀ other, other ≠ set → after.transient[other]? = roots.transient[other]?) ∧
      ∀ held : List Nat, roots.transient[set]? = some held →
        after.transient[set]? = some (held ++ blocks) := by
  induction blocks generalizing roots with
  | nil =>
    cases ok
    exact ⟨rfl, fun _ _ => rfl, fun held present => by rw [List.append_nil]; exact present⟩
  | cons block rest ih =>
    simp only [appendBlocks, Roots.appended] at ok
    cases present : roots.transient[set]? with
    | none =>
      rw [present] at ok
      cases ok
    | some held =>
      rw [present] at ok
      obtain ⟨pinned, others, added⟩ := ih ok
      refine ⟨pinned, ?_, ?_⟩
      · intro other apart
        rw [others other apart, TreeMap.getElem?_insert]
        simp only [Std.compare_eq_iff_eq, Ne.symm apart, if_false]
      · intro held' isHeld
        cases isHeld
        rw [added (held ++ [block]) TreeMap.getElem?_insert_self, List.append_assoc,
          List.singleton_append]

/-- What noting the blocks written since the last time does. -/
theorem appended_ok {publisher next : Publisher} {store : Store (ZoneMap g)}
    (ok : publisher.appended roots store = .ok (next, after)) :
    next = { publisher with next := store.free } ∧ after.pinned = roots.pinned ∧
      (∀ other, other ≠ publisher.set → after.transient[other]? = roots.transient[other]?) ∧
      ∀ held : List Nat, roots.transient[publisher.set]? = some held →
        after.transient[publisher.set]? =
          some (held ++ List.range' publisher.next (store.free - publisher.next)) := by
  revert ok
  fun_cases appended publisher roots store with
  | case1 => nofun
  | case2 noted added =>
    rintro ⟨⟩
    exact ⟨rfl, appendBlocks_ok added⟩

end Publisher

/-- The blocks of a record that is read as before are where they were. -/
theorem EveryBlock.carry
    {before after : Store (ZoneMap g)}
    {room : Nat}
    {content : Bytes}
    (every : EveryBlock before hash condition)
    (sound : Store.Sound before)
    (soundAfter : Store.Sound after)
    (superblock : after.superblock = before.superblock)
    (located : ∀ start : Nat, before.located[hash]? = some start →
      after.located[hash]? = some start)
    (ok : before.get hash room = .ok content)
    (okAfter : after.get hash room = .ok content) : EveryBlock after hash condition := by
  obtain ⟨start, header, got⟩ := Store.get_ok sound ok
  obtain ⟨startAfter, headerAfter, gotAfter⟩ := Store.get_ok soundAfter okAfter
  intro start' header' located' head' index inside
  obtain rfl := Option.some.inj (located'.symm.trans (located start got.located))
  obtain rfl := Except.ok.inj (head'.symm.trans gotAfter.head)
  rw [← gotAfter.length, got.length, Store.blockBytes, superblock] at inside
  exact every _ header got.located got.head index inside

namespace System

/-- For each hash a publish stored: it can be read, and unless it was stored before, the write
set holds its blocks. -/
structure Shields (system : System g) (set : WriteSet) (publish : Publish) : Prop where
  named : publish.publisher.set = set
  begun : publish.publisher.next ≤ system.store.free
  readable : ∀ hash ∈ publish.stored, Readable system.store hash
  held : ∃ blocks : List Nat, system.roots.transient[set]? = some blocks ∧
    ∀ hash ∈ publish.stored, hash ∉ publish.shared → EveryBlock system.store hash (· ∈ blocks)

variable {publish : Publish} {hash : Digest} {system : System g}

/-- What was stored stays shielded while it is read as before. -/
theorem Shields.carry
    {before after : System g}
    (shields : Shields before set publish)
    (sound : Store.Sound before.store)
    (soundAfter : Store.Sound after.store)
    (superblock : after.store.superblock = before.store.superblock)
    (free : before.store.free ≤ after.store.free)
    (located : ∀ (hash : Digest) (start : Nat), before.store.located[hash]? = some start →
      after.store.located[hash]? = some start)
    (transient : after.roots.transient[set]? = before.roots.transient[set]?)
    (reads : ∀ hash ∈ publish.stored, ∀ (room : Nat) (content : Bytes),
      before.store.get hash room = .ok content → after.store.get hash room = .ok content) :
    Shields after set publish := by
  obtain ⟨blocks, present, every⟩ := shields.held
  refine ⟨shields.named, Nat.le_trans shields.begun free, ?_, blocks, ?_, ?_⟩
  · intro hash member
    obtain ⟨room, content, ok⟩ := shields.readable hash member
    exact ⟨room, content, reads hash member room content ok⟩
  · rw [transient]
    exact present
  · intro hash member fresh
    obtain ⟨room, content, ok⟩ := shields.readable hash member
    exact (every hash member fresh).carry sound soundAfter superblock (located hash) ok
      (reads hash member room content ok)

/-- Every open publish is shielded. -/
def Shielded (system : System g) : Prop :=
  ∀ (set : WriteSet) (publish : Publish), system.publishes[set]? = some publish →
    Shields system set publish

section Carry

variable {self after : System g} (shielded : Shielded self) (grounded : Grounded self.store)

include shielded grounded

theorem Shielded.of_extends (grows : Extends self.store after.store)
    (publishes : after.publishes = self.publishes) (roots : after.roots = self.roots) :
    Shielded after := by
  intro set publish present
  rw [publishes] at present
  exact (shielded set publish present).carry grounded.sound grows.grounded.sound
    grows.superblock grows.free grows.kept (by rw [roots])
    fun hash _ room content ok => grows.get grounded ok

variable (groundedAfter : Grounded after.store)
  (publishes : ∀ (set : WriteSet) (publish : Publish), after.publishes[set]? = some publish →
    self.publishes[set]? = some publish ∧ after.roots.transient[set]? = self.roots.transient[set]?)

include groundedAfter publishes

/-- Open publishes stay shielded while the collector keeps what they stored. -/
theorem Shielded.of_fades (fades : Fades self.store after.store)
    (reads : ∀ (set : WriteSet) (publish : Publish), self.publishes[set]? = some publish →
      ∀ hash ∈ publish.stored, ∀ (room : Nat) (content : Bytes),
        self.store.get hash room = .ok content → after.store.get hash room = .ok content) :
    Shielded after := by
  intro set publish present
  obtain ⟨before, transient⟩ := publishes set publish present
  exact (shielded set publish before).carry grounded.sound groundedAfter.sound fades.superblock
    (Nat.le_of_eq fades.free.symm) (fun hash start located => fades.located ▸ located) transient
    (reads set publish before)

theorem Shielded.of_unchanged (unchanged : Unchanged self.store after.store) : Shielded after :=
  shielded.of_fades grounded groundedAfter publishes unchanged.toFades
    fun _ _ _ _ _ _ _ ok => unchanged.get grounded.sound ok

end Carry

section Noted

variable {self : System g} {store : Store (ZoneMap g)}

/-- What a publish finds already stored can be read. -/
def FindsWhole (system : System g) (parts : List Bytes) : Prop :=
  ∀ part ∈ parts, system.store.located.contains (sha256 part) = true →
    Readable system.store (sha256 part)

/-- What was added to a store since a block lies past that block. -/
theorem everyBlock_of_added
    {before after : Store (ZoneMap g)}
    {first : Nat}
    (added : Added before after hash)
    (sound : Store.Sound after)
    (below : first ≤ before.free) :
    EveryBlock after hash (· ∈ List.range' first (after.free - first)) := by
  obtain ⟨start, content, located, above, bound, get⟩ := added.whole
  obtain ⟨_, header, got⟩ := Store.get_ok sound (get content.length (Nat.le_refl _))
  intro start' header' located' head' index inside
  obtain rfl := Option.some.inj (located'.symm.trans located)
  obtain rfl := Except.ok.inj (head'.symm.trans got.head)
  rw [← got.length] at inside
  rw [List.mem_range'_1]
  omega

variable {parts : List Bytes}

/-- A publish that notes what it stored is shielded. -/
theorem noted_shields
    {publisher : Publisher}
    (grounded : Grounded self.store)
    (grows : Extends self.store store)
    (shields : Shields self set publish)
    (wholes : FindsWhole self parts)
    (stored : ∀ part ∈ parts, ∃ start, store.located[sha256 part]? = some start)
    (appended : publish.publisher.appended self.roots store = .ok (publisher, roots))
    (publishes : TreeMap WriteSet Publish)
    (collector : Collector) :
    Shields ⟨store, roots, collector, publishes⟩ set
      ⟨publisher, publish.stored ++ parts.map sha256,
        publish.shared ++ (parts.map sha256).filter self.store.located.contains⟩ := by
  obtain ⟨rfl, -, -, added⟩ := Publisher.appended_ok appended
  rw [shields.named] at added
  have old : Shields ⟨store, self.roots, collector, publishes⟩ set publish :=
    shields.carry grounded.sound grows.grounded.sound grows.superblock grows.free grows.kept rfl
      fun hash _ room content ok => grows.get grounded ok
  obtain ⟨blocks, present, every⟩ := old.held
  -- a part the table did not know was written by this publish
  have fresh : ∀ part ∈ parts, self.store.located.contains (sha256 part) = false →
      Added self.store store (sha256 part) := by
    intro part member absent
    obtain ⟨start, located⟩ := stored part member
    rcases grows.fresh _ start located with before | new
    · rw [TreeMap.contains_eq_isSome_getElem?, before] at absent
      cases absent
    · exact new
  refine ⟨old.named, Nat.le_refl _, ?_, _, added blocks present, ?_⟩
  · intro hash member
    rcases List.mem_append.mp member with earlier | new
    · exact old.readable hash earlier
    obtain ⟨part, isPart, rfl⟩ := List.mem_map.mp new
    cases known : self.store.located.contains (sha256 part) with
    | true =>
      obtain ⟨room, content, ok⟩ := wholes part isPart known
      exact ⟨room, content, grows.get grounded ok⟩
    | false =>
      obtain ⟨-, content, -, -, -, get⟩ := (fresh part isPart known).whole
      exact ⟨content.length, content, get _ (Nat.le_refl _)⟩
  · intro hash member unshared
    rw [List.mem_append, not_or, List.mem_filter] at unshared
    rcases List.mem_append.mp member with earlier | new
    · exact (every hash earlier unshared.1).imp fun logical => List.mem_append_left _
    · obtain ⟨part, isPart, rfl⟩ := List.mem_map.mp new
      have absent : self.store.located.contains (sha256 part) = false :=
        Bool.eq_false_iff.mpr fun known => unshared.2 ⟨new, known⟩
      exact (everyBlock_of_added (fresh part isPart absent) grows.grounded.sound
        shields.begun).imp fun logical => List.mem_append_right _

/-- Noting what was stored leaves every open publish shielded. -/
theorem noted_shielded
    (set : Option WriteSet)
    (grounded : Grounded self.store)
    (grows : Extends self.store store)
    (shielded : Shielded self)
    (wholes : set.isSome = true → FindsWhole self parts)
    (stored : ∀ part ∈ parts, ∃ start, store.located[sha256 part]? = some start) :
    Shielded ({ self with store := store }.noted set self.store (parts.map sha256)) := by
  have grown : Shielded { self with store := store } := shielded.of_extends grounded grows rfl rfl
  fun_cases noted { self with store := store } set self.store (parts.map sha256) with
  | case4 set publish present publisher roots appended =>
    obtain ⟨-, -, others, -⟩ := Publisher.appended_ok appended
    intro other held isOpen
    simp only [TreeMap.getElem?_insert, Std.compare_eq_iff_eq] at isOpen
    split at isOpen
    next same =>
      subst same
      cases isOpen
      exact noted_shields grounded grows (shielded set publish present) (wholes rfl) stored
        appended _ _
    next apart =>
      have named := (shielded set publish present).named
      refine (grown other held isOpen).carry grows.grounded.sound grows.grounded.sound rfl
        (Nat.le_refl _) (fun _ _ located => located) ?_ (fun _ _ _ _ ok => ok)
      exact others other (by rw [named]; exact Ne.symm apart)
  | _ => exact grown

end Noted

/-- Every hash an open publish found already stored meets a condition. -/
def Found (system : System g) (condition : Digest → Prop) : Prop :=
  ∀ (set : WriteSet) (publish : Publish), system.publishes[set]? = some publish →
    ∀ hash ∈ publish.shared, condition hash

/-- A publish that stores a blob the table knows finds it whole; nothing is stored that the
running walk is done with; and when a zone is reset, what an open publish found stored is
guarded, or not in it. -/
def Safe (system : System g) : Op → Prop
  | .put set _ content =>
    system.Unwalked [content] ∧ (set.isSome = true → system.FindsWhole [content])
  | .putObject set bytes =>
    system.Unwalked (objectParts bytes) ∧
      (set.isSome = true → system.FindsWhole (objectParts bytes))
  | .step => ∀ zone, system.collector.resets = some zone →
      system.Found fun hash => Guarded system.store system.roots hash ∨ Away system.store zone hash
  | .collect _ => system.Found (Guarded system.store system.roots)
  | _ => True

theorem Safe.storesUnwalked {op : Op} (safe : Safe system op) : StoresUnwalked system op := by
  cases op with
  | put | putObject => exact safe.1
  | _ => trivial

section Step

variable {self : System g}

/-- What an open publish stored is guarded, when what it found is. -/
theorem Shields.guarded (shields : Shields self set publish) (member : hash ∈ publish.stored)
    (fresh : hash ∉ publish.shared) : Guarded self.store self.roots hash := by
  obtain ⟨blocks, present, every⟩ := shields.held
  refine .inr ((every hash member fresh).imp ?_)
  intro logical inside
  exact (self.roots.mem_transientBlocks logical).mpr ⟨set, blocks, present, inside⟩

section

variable (sane : Sane self) (shielded : Shielded self)

include sane shielded

/-- A put keeps open publishes shielded. -/
theorem put_shielded (set : Option WriteSet) (kind : UInt16) (content : Bytes)
    (wholes : set.isSome = true → self.FindsWhole [content]) :
    Shielded (self.put set kind content).2 := by
  have grows := put_extends sane.grounded kind content
  unfold put
  rcases result : self.store.put kind content with ⟨answer, store⟩
  rw [result] at grows
  cases answer with
  | error refusal => exact shielded.of_extends sane.grounded grows rfl rfl
  | ok hash =>
    obtain ⟨rfl, located⟩ := Store.put_located sane.grounded.sound result
    refine @noted_shielded g self store [content] set sane.grounded grows shielded wholes ?_
    intro part member
    rw [List.mem_singleton] at member
    exact member ▸ located

theorem putObject_shielded (set : Option WriteSet) (bytes : Bytes)
    (wholes : set.isSome = true → self.FindsWhole (objectParts bytes)) :
    Shielded (self.putObject set bytes).2 := by
  have grows := puts_extends sane.grounded (objectParts_puts sane.grounded bytes)
  have stored := (Store.putObject_puts sane.grounded.sound bytes rfl).2
  unfold putObject
  rcases result : self.store.putObject bytes with ⟨answer, store⟩
  rw [result] at grows stored
  cases answer with
  | error refusal => exact shielded.of_extends sane.grounded grows rfl rfl
  | ok hash => exact noted_shielded set sane.grounded grows shielded wholes (stored hash rfl).2

/-- A publish that is opened has nothing to shield yet. -/
theorem opened_shielded : Shielded self.opened := by
  intro set publish present
  simp only [opened, TreeMap.getElem?_insert, Std.compare_eq_iff_eq] at present
  split at present
  next same =>
    cases present
    refine ⟨same, Nat.le_refl _, by simp, [], ?_, by simp⟩
    simp only [opened, Publisher.opened, Roots.opened] at same ⊢
    rw [same, TreeMap.getElem?_insert_self]
  next apart =>
    refine (shielded set publish present).carry sane.grounded.sound sane.grounded.sound rfl
      (Nat.le_refl _) (fun _ _ located => located) ?_ (fun _ _ _ _ ok => ok)
    simp only [opened, Publisher.opened, Roots.opened, TreeMap.getElem?_insert,
      Std.compare_eq_iff_eq] at apart ⊢
    rw [if_neg apart]

end

/-- Ending a publish touches no other write set, and pins its root or none. -/
theorem adopt_ok {root : Digest} (ok : roots.adopt set root = .ok after) :
    after.pinned = roots.pinned.insert root ∧
      ∀ other, ¬set = other → after.transient[other]? = roots.transient[other]? := by
  unfold Roots.adopt at ok
  split at ok <;> cases ok
  simp +contextual [TreeMap.getElem?_erase]

theorem abandon_ok (ok : roots.abandon set = .ok after) : after.pinned = roots.pinned ∧
    ∀ other, ¬set = other → after.transient[other]? = roots.transient[other]? := by
  unfold Roots.abandon at ok
  split at ok <;> cases ok
  simp +contextual [TreeMap.getElem?_erase]

@[simp] theorem unpin_transient (roots : Roots) (root : Digest) :
    (roots.unpin root).2.transient = roots.transient := by
  unfold Roots.unpin
  split <;> rfl

section

variable (sane : Sane self) (shielded : Shielded self)
include sane shielded

/-- So does a commit. -/
theorem commit_shielded (set : WriteSet) (record : RootRecord) :
    Shielded (self.commit set record).2 := by
  have aside := self.commit_storeAside sane.reserved set record
  refine shielded.of_unchanged sane.grounded (aside.grounded sane.grounded) ?_
    (aside.unchanged sane.grounded.wellFormed)
  intro other publish present
  unfold commit at present ⊢
  split at present
  next => exact ⟨present, rfl⟩
  next ended isEnded =>
    simp only [TreeMap.getElem?_erase, Std.compare_eq_iff_eq] at present
    split at present
    · cases present
    rename_i apart
    refine ⟨present, ?_⟩
    have named := (shielded set ended isEnded).named
    rcases commit_roots ended.publisher self.store self.roots record with
      ⟨-, -, same⟩ | ⟨⟨next, roots⟩, noted, ended⟩
    · simp [same]
    obtain ⟨-, -, others, -⟩ := Publisher.appended_ok noted
    rw [named] at ended others
    rcases ended with ⟨-, -, same⟩ | ⟨-, adopted⟩
    · simp only [same]
      exact others other (Ne.symm apart)
    · exact ((adopt_ok adopted).2 other apart).trans (others other (Ne.symm apart))

/-- So does giving a publish up. -/
theorem abandon_shielded (set : WriteSet) : Shielded (self.abandon set) := by
  refine shielded.of_unchanged sane.grounded (by rw [abandon_store]; exact sane.grounded) ?_
    (by rw [abandon_store]; exact .refl _)
  intro other publish present
  unfold abandon at present ⊢
  split at present
  next => exact ⟨present, rfl⟩
  next ended isEnded =>
    have named := (shielded set ended isEnded).named
    split at present <;> simp only [TreeMap.getElem?_erase, Std.compare_eq_iff_eq] at present <;>
      split at present
    · cases present
    · exact ⟨present, rfl⟩
    · cases present
    next roots abandoned apart =>
      unfold Publisher.abandon at abandoned
      rw [named] at abandoned
      exact ⟨present, (abandon_ok abandoned).2 other apart⟩

theorem remapped_shielded {result : Except Refusal (ZoneMap g)}
    (tallied : ∀ map, result = .ok map → Tallied self.store.device map) :
    Shielded (self.remapped result) := by
  cases result with
  | error refusal => exact shielded
  | ok map =>
    exact shielded.of_unchanged sane.grounded (sane.tallied (tallied map rfl)).1.grounded
      (fun _ _ present => ⟨present, rfl⟩) (Unchanged.of_bookkept (tallied map rfl).bookkept)

/-- The step lemma: an operation that is safe leaves every open publish shielded. -/
theorem step_shielded (attends : self.collector.Attends self.store) (op : Op) (safe : Safe self op)
    : Shielded (self.step op) := by
  have grounded := sane.grounded
  cases op with
  | put set kind content => exact put_shielded sane shielded set kind content safe.2
  | putObject set bytes => exact putObject_shielded sane shielded set bytes safe.2
  | opened => exact opened_shielded sane shielded
  | commit set record => exact commit_shielded sane shielded set record
  | abandon set => exact abandon_shielded sane shielded set
  | pin root | begin | requeue queue =>
    exact shielded.of_unchanged grounded grounded (fun _ _ present => ⟨present, rfl⟩) (.refl _)
  | unpin root =>
    refine shielded.of_unchanged grounded grounded (fun set publish present => ?_) (.refl _)
    exact ⟨present, by simp [step, unpin_transient]⟩
  | step =>
    obtain ⟨stays, fades⟩ := self.collector.step_store grounded self.roots
    refine shielded.of_fades grounded stays (fun _ _ present => ⟨present, rfl⟩) fades ?_
    intro set publish present hash member room content ok
    refine Collector.step_get grounded attends ?_ ok
    intro zone resets
    by_cases found : hash ∈ publish.shared
    · exact safe zone resets set publish present hash found
    · exact .inl ((shielded set publish present).guarded member found)
  | collect fuel =>
    obtain ⟨-, kept⟩ := Collector.collect_kept fuel self.roots grounded sane.sized
    refine shielded.of_fades grounded kept.grounded (fun _ _ here => ⟨here, rfl⟩) kept.fades ?_
    intro set publish present hash member room content ok
    refine kept.get_of_guarded grounded.sound ?_ ok
    by_cases found : hash ∈ publish.shared
    · exact safe set publish present hash found
    · exact (shielded set publish present).guarded member found
  | holdRead zone =>
    exact remapped_shielded sane shielded fun map ok => holdRead_tallied grounded.wellFormed ok
  | releaseRead zone =>
    exact remapped_shielded sane shielded fun map ok => releaseRead_tallied grounded.wellFormed ok

end

end Step

section Pinned

variable {self : System g} {root : Digest}

/-- What a root reached it still reaches, and what of it was read still is. -/
structure KeepsTree (root : Digest) (before after : Store (ZoneMap g)) : Prop where
  reaches : ∀ hash, Reaches before root hash → Reaches after root hash
  reads : ∀ hash, Reaches before root hash → ∀ (room : Nat) (content : Bytes),
    before.get hash room = .ok content → after.get hash room = .ok content

theorem KeepsTree.trans {before between after : Store (ZoneMap g)}
    (first : KeepsTree root before between) (second : KeepsTree root between after) :
    KeepsTree root before after where
  reaches := fun hash reached => second.reaches hash (first.reaches hash reached)
  reads := fun hash reached room content ok =>
    second.reads hash (first.reaches hash reached) room content
      (first.reads hash reached room content ok)

section

variable {before after : Store (ZoneMap g)} (grounded : Grounded before)

include grounded

theorem keepsTree_of_extends (grows : Extends before after) : KeepsTree root before after :=
  ⟨fun _ reached => grows.reaches grounded reached, fun _ _ _ _ ok => grows.get grounded ok⟩

theorem keepsTree_of_kept (kept : Kept roots before after) (pinned : root ∈ roots.pinned) :
    KeepsTree root before after :=
  ⟨fun _ reached => kept.reaches grounded.sound pinned reached,
    fun hash reached => kept.live hash ⟨root, pinned, reached⟩⟩

theorem keepsTree_of_unchanged (groundedAfter : Grounded after)
    (unchanged : Unchanged before after) :
    KeepsTree root before after := by
  have kept : Kept (Roots.new.pin root).2 before after :=
    unchanged.kept grounded.sound groundedAfter
  exact keepsTree_of_kept grounded kept (by simp [Roots.pin])

end

/-- A step keeps the tree of a root that is pinned. -/
theorem step_keepsTree (sane : Sane self) (attends : self.collector.Attends self.store)
    (pinned : root ∈ self.roots.pinned) (op : Op) :
    KeepsTree root self.store (self.step op).store := by
  have grounded := sane.grounded
  have same : KeepsTree root self.store self.store :=
    ⟨fun _ reached => reached, fun _ _ _ _ ok => ok⟩
  have effect := step_effect sane op
  generalize self.step op = after at effect ⊢
  cases effect with
  | stored puts => exact keepsTree_of_extends grounded (puts_extends grounded puts)
  | kept store => exact store ▸ same
  | committed set record aside =>
    exact keepsTree_of_unchanged grounded (aside.grounded grounded)
      (aside.unchanged grounded.wellFormed)
  | tallied map tallied =>
    exact keepsTree_of_unchanged grounded (sane.tallied tallied).1.grounded
      (Unchanged.of_bookkept tallied.bookkept)
  | stepped =>
    exact keepsTree_of_kept grounded (Collector.step_kept grounded attends self.roots).2 pinned
  | collected fuel =>
    exact keepsTree_of_kept grounded
      (Collector.collect_kept fuel self.roots grounded sane.sized).2 pinned
  | begun | requeued queue => exact same

theorem noted_pinned (set : Option WriteSet) (before : Store (ZoneMap g)) (hashes : List Digest) :
    (self.noted set before hashes).roots.pinned = self.roots.pinned := by
  fun_cases noted self set before hashes with
  | case4 set publish present publisher roots appended =>
    exact (Publisher.appended_ok appended).2.1
  | _ => rfl

/-- A commit pins its root, when it is not refused, and lets no root go. -/
theorem commit_pinned (set : WriteSet) (record : RootRecord) :
    (∀ other ∈ self.roots.pinned, other ∈ (self.commit set record).2.roots.pinned) ∧
      ∀ adopted, (self.commit set record).1 = .ok adopted →
        record.root ∈ (self.commit set record).2.roots.pinned := by
  unfold commit
  split
  next => exact ⟨fun _ pinned => pinned, by simp⟩
  next publish isOpen =>
    simp only
    rcases commit_roots publish.publisher self.store self.roots record with
      ⟨refusal, refused, same⟩ | ⟨⟨next, roots⟩, noted, ended⟩
    · rw [refused, same]
      exact ⟨fun _ pinned => pinned, by simp⟩
    obtain ⟨-, pinned, -⟩ := Publisher.appended_ok noted
    rcases ended with ⟨refusal, refused, same⟩ | ⟨-, adopted⟩
    · rw [refused, same]
      exact ⟨fun _ isPinned => by rw [pinned]; exact isPinned, by simp⟩
    rw [(adopt_ok adopted).1, pinned]
    exact ⟨fun _ isPinned => TreeSet.mem_insert.mpr (.inr isPinned),
      fun _ _ => TreeSet.mem_insert_self⟩

/-- Only letting a root go lets it go. -/
theorem step_pinned (pinned : root ∈ self.roots.pinned) (op : Op) (keeps : op ≠ .unpin root) :
    root ∈ (self.step op).roots.pinned := by
  cases op with
  | put set kind content =>
    simp only [step, put]
    rcases self.store.put kind content with ⟨_ | _, -⟩ <;> simpa only [noted_pinned]
  | putObject set bytes =>
    simp only [step, putObject]
    rcases self.store.putObject bytes with ⟨_ | _, -⟩ <;> simpa only [noted_pinned]
  | commit set record => exact (commit_pinned set record).1 root pinned
  | abandon set =>
    simp only [step, abandon]
    split
    next => exact pinned
    next publish _ =>
      split
      next => exact pinned
      next roots abandoned => exact (abandon_ok abandoned).1 ▸ pinned
  | pin other =>
    simp only [step, Roots.pin, TreeSet.mem_insert]
    exact .inr pinned
  | unpin other =>
    have apart : ¬compare other root = .eq := by
      rw [Std.compare_eq_iff_eq]
      rintro rfl
      exact keeps rfl
    simp only [step, Roots.unpin]
    split
    next => exact TreeSet.mem_erase.mpr ⟨apart, pinned⟩
    next => exact pinned
  | opened | begin | step | collect fuel | requeue queue => exact pinned
  | holdRead zone | releaseRead zone =>
    simpa only [step, remapped_roots]

end Pinned

/-- Nothing is open at the start. -/
theorem Booted.shielded (booted : Booted system) : Shielded system := by
  intro set publish present
  cases booted with
  | formatted | mounted => simp [around] at present

/-- In every safe run, a commit that is not refused adopts a root whose whole tree, stored
in the publish, can be read, and it is read the same after every later run in which the
root stays pinned. -/
theorem publish_is_safe
    {start : System g}
    (booted : Booted start)
    (ops : List Op)
    (safe : Runs.Along step Safe start ops)
    (set : WriteSet)
    (publish : Publish)
    (isOpen : (Runs.run step start ops).publishes[set]? = some publish)
    (record adopted : RootRecord)
    (stored : ∀ hash, Reaches (Runs.run step start ops).store record.root hash →
      hash ∈ publish.stored)
    (ok : ((Runs.run step start ops).commit set record).1 = .ok adopted)
    (later : List Op)
    (safeLater : Runs.Along step
      (fun system op => StoresUnwalked system op ∧ op ≠ .unpin record.root)
      ((Runs.run step start ops).commit set record).2 later) :
    ∀ hash, Reaches ((Runs.run step start ops).commit set record).2.store record.root hash →
      ∃ (room : Nat) (content : Bytes),
        ((Runs.run step start ops).commit set record).2.store.get hash room = .ok content ∧
        (Runs.run step ((Runs.run step start ops).commit set record).2 later).store.get
          hash room = .ok content := by
  obtain ⟨sane, attends, shielded⟩ : Sane (Runs.run step start ops) ∧
      (Runs.run step start ops).collector.Attends (Runs.run step start ops).store ∧
      Shielded (Runs.run step start ops) :=
    Runs.invariant_of_along
      (fun system => Sane system ∧ system.collector.Attends system.store ∧ Shielded system)
      (fun system op safe kept => ⟨(step_sane kept.1 op).1,
        step_attends kept.1 kept.2.1 op safe.storesUnwalked,
        step_shielded kept.1 kept.2.2 kept.2.1 op safe⟩)
      ⟨booted.sane, booted.attends, booted.shielded⟩ safe
  generalize Runs.run step start ops = system at *
  have saneNext : Sane (system.commit set record).2 := (step_sane sane (.commit set record)).1
  have attendsNext := step_attends sane attends (.commit set record) trivial
  have unchanged := (system.commit_storeAside sane.reserved set record).unchanged
    sane.grounded.wellFormed
  have pinned := (commit_pinned set record).2 adopted ok
  -- the tree of the root, from the commit on
  obtain ⟨-, -, -, keeps⟩ := Runs.invariant_of_along
    (fun later => Sane later ∧ later.collector.Attends later.store ∧
      record.root ∈ later.roots.pinned ∧
      KeepsTree record.root (system.commit set record).2.store later.store)
    (fun later op condition kept => ⟨(step_sane kept.1 op).1,
      step_attends kept.1 kept.2.1 op condition.1,
      step_pinned kept.2.2.1 op condition.2,
      kept.2.2.2.trans (step_keepsTree kept.1 kept.2.1 kept.2.2.1 op)⟩)
    ⟨saneNext, attendsNext, pinned, fun _ reached => reached, fun _ _ _ _ ok => ok⟩ safeLater
  intro hash reached
  have reachedBefore : Reaches system.store record.root hash := by
    refine Relation.ReflTransGen.mono ?_ _ _ reached
    exact fun parent child names =>
      names.of_fades unchanged.toFades sane.grounded.sound saneNext.grounded.sound
  obtain ⟨room, content, read⟩ :=
    (shielded set publish isOpen).readable hash (stored hash reachedBefore)
  have readNext := unchanged.get sane.grounded.sound read
  exact ⟨room, content, readNext, keeps.reads hash reached room content readNext⟩

/-- The root record of a chunk. -/
def chunkRecord (content : Bytes) : RootRecord :=
  ⟨1, sha256 content, sha256 [], sha256 [], sha256 [], sha256 []⟩

/-- A publish stores an object with a chunk that a pinned root guards, and a collection runs
before the commit. -/
def guardedPublish : List Op :=
  [.pin (sha256 [1]), .opened, .putObject (some 1) [1], .collect 100]

/-- The system after that publish. -/
def guardedSystem : System small := Runs.run step (around usedStore) guardedPublish

/-- The root record of the object of one byte. -/
def objectRecord : RootRecord :=
  ⟨1, sha256 (Store.objectContent 1 [sha256 [1]]), sha256 [], sha256 [], sha256 [], sha256 []⟩

theorem stored_guarded {hash : Digest}
    (reached : Reaches guardedSystem.store objectRecord.root hash) :
    hash ∈ [sha256 [1], objectRecord.root] := by
  have walked : (Mark.complete guardedSystem.store 5
      ((Mark.new 80).restart.walk objectRecord.root)).map (fun mark => mark.seen.toList.all
        (· ∈ [sha256 [1], objectRecord.root])) = some true := by
    decide +kernel
  obtain ⟨final, completes, all⟩ := Option.map_eq_some_iff.mp walked
  have seen := TreeSet.mem_toList.mpr ((Mark.complete_seen completes hash).mpr reached)
  exact of_decide_eq_true (List.all_eq_true.mp all hash seen)

theorem safe_guarded : Runs.Along step Safe (around usedStore) guardedPublish := by
  have parts : objectParts [1] = [[1], Store.objectContent 1 [sha256 [1]]] := by decide +kernel
  refine ⟨trivial, trivial, ⟨fun running => absurd rfl running, ?_⟩, ?_, trivial⟩
  · rw [parts]
    intro _ part member known
    rcases List.mem_pair.mp member with rfl | rfl
    · exact ⟨1, [1], by decide +kernel⟩
    · exact absurd known (by decide +kernel)
  · intro set publish isOpen hash member
    have shared : ∀ entry ∈ (step (step (step (around usedStore) (.pin (sha256 [1]))) .opened)
        (.putObject (some 1) [1])).publishes.toList, entry.2.shared = [sha256 [1]] := by
      decide +kernel
    rw [shared _ (TreeMap.mem_toList_iff_getElem?_eq_some.mpr isOpen), List.mem_singleton] at member
    exact .inl ⟨sha256 [1], by decide +kernel, member ▸ .refl⟩

/-- The other root is let go, and the tree is read after the next collection. -/
theorem publish_is_safe_guarded :
    (guardedSystem.commit 1 objectRecord).1 = .ok (Publisher.sealRecord objectRecord) ∧
    ∀ hash, Reaches (guardedSystem.commit 1 objectRecord).2.store objectRecord.root hash →
      ∃ (room : Nat) (content : Bytes),
        (guardedSystem.commit 1 objectRecord).2.store.get hash room = .ok content ∧
        (Runs.run step (guardedSystem.commit 1 objectRecord).2
          [.unpin (sha256 [1]), .collect 100]).store.get hash room = .ok content := by
  have commits : (guardedSystem.commit 1 objectRecord).1 =
      .ok (Publisher.sealRecord objectRecord) := by decide +kernel
  refine ⟨commits, ?_⟩
  unfold guardedSystem at commits ⊢
  refine publish_is_safe booted_used guardedPublish safe_guarded 1
    ⟨⟨1, 4⟩, [sha256 [1], objectRecord.root], [sha256 [1]]⟩ (by decide +kernel) objectRecord
    (Publisher.sealRecord objectRecord) (fun _ => stored_guarded) commits _
    ⟨⟨trivial, ?_⟩, ⟨trivial, nofun⟩, trivial⟩
  exact fun same => absurd (Op.unpin.inj same) (by decide +kernel)

/-- A publish stores a chunk that is there and that no root reaches; the collector drops it
before the commit, which succeeds. -/
def sharedPublish : List Op :=
  [.opened, .put (some 1) Abi.Kind.chunk.code [1], .begin, .step, .step, .step, .step, .step]

/-- The root it adopts cannot be read. -/
theorem publish_adopts_a_lost_root :
    Booted (around usedStore) ∧
      ((Runs.run step (around usedStore) sharedPublish).publishes[1]?.map Publish.stored =
        some [sha256 [1]]) ∧
      ((Runs.run step (around usedStore) sharedPublish).commit 1 (chunkRecord [1])).1 =
        .ok (Publisher.sealRecord (chunkRecord [1])) ∧
      ¬Readable ((Runs.run step (around usedStore) sharedPublish).commit 1
        (chunkRecord [1])).2.store (sha256 [1]) := by
  have lost : ((Runs.run step (around usedStore) sharedPublish).commit 1
      (chunkRecord [1])).2.store.head (sha256 [1]) = .error .address := by
    decide +kernel
  refine ⟨booted_used, by decide +kernel, by decide +kernel, ?_⟩
  exact not_readable_of_head lost

end System

end FSystem.Zone
