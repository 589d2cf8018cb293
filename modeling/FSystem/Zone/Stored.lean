import FSystem.Zone.Attendance

/-!
# A stored blob can be read

While a system runs, the blocks a record lies in are read as before, or were dropped.  So
a put that finds a record in the table is read back exactly when nothing of that record
was dropped and, where the system began with the record, it could be read then.
-/

namespace FSystem.Zone

open Abi Hash Blob Store

variable {g : Geometry}

/-- The second store has the records of the first, in blocks read as before or dropped. -/
structure Since (before after : Store (ZoneMap g)) : Prop where
  superblock : after.superblock = before.superblock
  settled : ∀ logical, Settled before logical → Settled after logical
  located : ∀ (hash : Digest) (start : Nat), before.located[hash]? = some start →
    after.located[hash]? = some start
  thins : ∀ logical place : Nat, Settled before logical →
    after.device.physical[logical]? = some place →
      (∃ old : Nat, before.device.physical[logical]? = some old) ∧
        after.device.read logical g.blockBytes = before.device.read logical g.blockBytes

/-- No block of the record the table lists for a content was dropped. -/
def Undropped (store : Store (ZoneMap g)) (content : Bytes) : Prop :=
  ∀ start : Nat, store.located[sha256 content]? = some start → ∀ index < span store.blockBytes
    content.length, ∃ place : Nat, store.device.physical[start + index]? = some place

section Since

variable {before between after : Store (ZoneMap g)}

theorem Since.trans (first : Since before between) (second : Since between after) :
    Since before after where
  superblock := second.superblock.trans first.superblock
  settled logical := second.settled logical ∘ first.settled logical
  located hash start := second.located hash start ∘ first.located hash start
  thins := by
    intro logical place settled mapped
    obtain ⟨⟨old, mappedBetween⟩, read⟩ :=
      second.thins logical place (first.settled logical settled) mapped
    obtain ⟨was, readBetween⟩ := first.thins logical old settled mappedBetween
    exact ⟨was, read.trans readBetween⟩

theorem Extends.since (grows : Extends before after) : Since before after where
  superblock := grows.superblock
  settled _ := grows.settled
  located := grows.kept
  thins := by
    intro logical place settled mapped
    rw [grows.physical logical settled] at mapped
    exact ⟨⟨place, mapped⟩, grows.read logical settled⟩

theorem Fades.since (fades : Fades before after) : Since before after where
  superblock := fades.superblock
  settled logical := by
    unfold Settled
    rw [fades.free, fades.blocks]
    exact id
  located hash start := by
    rw [fades.located]
    exact id
  thins logical place _ := fades.thins logical place

theorem Since.refl (store : Store (ZoneMap g)) : Since store store := (Fades.refl store).since

theorem Since.read
    (since : Since before after)
    {logical : Nat}
    {bytes : Bytes}
    (settled : Settled before logical)
    (read : after.device.read logical g.blockBytes = .ok bytes) :
    before.device.read logical g.blockBytes = .ok bytes := by
  obtain ⟨place, mapped⟩ := ZoneMap.exists_place read
  exact (since.thins logical place settled mapped).2.symm.trans read

/-- A blob is read as before exactly when nothing of its record was dropped. -/
theorem Since.get_iff
    {content : Bytes}
    {start room : Nat}
    (since : Since before after)
    (grounded : Grounded before)
    (groundedAfter : Grounded after)
    (located : before.located[sha256 content]? = some start) :
    after.get (sha256 content) room = .ok content ↔
      Undropped after content ∧ before.get (sha256 content) room = .ok content := by
  have blockBytes := blockBytes_congr since.superblock
  have locatedAfter := since.located _ start located
  constructor
  · intro ok
    obtain ⟨_, header, got⟩ := get_ok groundedAfter.sound ok
    refine ⟨fun first isFirst index inside => ?_, ?_⟩
    · cases isFirst.symm.trans got.located
      obtain ⟨bytes, read⟩ := got.readable index inside
      exact ZoneMap.exists_place read
    have head : before.head (sha256 content) = .ok header := by
      refine head_congr since.superblock.symm (located.trans locatedAfter.symm) ?_ got.head
      intro first bytes isFirst read
      cases isFirst.symm.trans locatedAfter
      rw [groundedAfter.blockBytes_eq] at read ⊢
      exact since.read (.inl (grounded.below _ _ located)) read
    refine get_congr groundedAfter.sound since.superblock.symm
      (located.trans locatedAfter.symm) ?_ ok
    intro first header' isFirst head' index inside bytes read
    cases isFirst.symm.trans locatedAfter
    cases head'.symm.trans got.head
    rw [blockBytes] at inside
    rw [groundedAfter.blockBytes_eq] at read ⊢
    exact since.read (Extends.settled_of_head grounded located head inside) read
  · rintro ⟨undropped, ok⟩
    obtain ⟨_, _, got⟩ := get_ok grounded.sound ok
    refine get_congr grounded.sound since.superblock (locatedAfter.trans located.symm) ?_ ok
    intro first header isFirst head index inside bytes read
    cases isFirst.symm.trans located
    cases head.symm.trans got.head
    obtain ⟨place, mapped⟩ := undropped start locatedAfter index
      (by rw [blockBytes, got.length]; exact inside)
    rw [grounded.blockBytes_eq] at read ⊢
    exact (since.thins _ place (Extends.settled_of_head grounded located head inside)
      mapped).2.trans read

end Since

/-- Each record since a first state was whole when stored, with a known content. -/
def Recorded (known : Bytes → Prop) (first now : Store (ZoneMap g)) : Prop :=
  ∀ (hash : Digest) (start : Nat), now.located[hash]? = some start →
    first.located[hash]? = some start ∨
      ∃ whole content, known content ∧ sha256 content = hash ∧ Grounded whole ∧
        whole.located[hash]? = some start ∧ Since whole now ∧
          ∀ room, content.length ≤ room → whole.get hash room = .ok content

section Recorded

variable {known : Bytes → Prop} {first now after : Store (ZoneMap g)} {content : Bytes}

theorem Recorded.later
    (recorded : Recorded known first now)
    (since : Since now after)
    {hash : Digest}
    {start : Nat}
    (located : now.located[hash]? = some start) :
    first.located[hash]? = some start ∨
      ∃ whole content, known content ∧ sha256 content = hash ∧ Grounded whole ∧
        whole.located[hash]? = some start ∧ Since whole after ∧
          ∀ room, content.length ≤ room → whole.get hash room = .ok content := by
  refine (recorded hash start located).imp_right ?_
  rintro ⟨whole, content, isKnown, hashes, grounded, there, sinceWhole, get⟩
  exact ⟨whole, content, isKnown, hashes, grounded, there, sinceWhole.trans since, get⟩

/-- A put, refused or not, keeps the table recorded. -/
theorem put_recorded (grounded : Grounded now) (recorded : Recorded known first now)
    (kind : UInt16) (isKnown : known content) :
    Recorded known first (now.put kind content).2 := by
  have grows := put_extends grounded kind content
  intro hash start located
  rcases put_leaves grounded.sound kind content with ⟨same, -⟩ | ⟨isKind, fresh⟩
  · exact recorded.later grows.since (same ▸ located)
  have locatedAfter := located
  rw [fresh.located_at] at located
  split at located
  next same =>
    subst same
    exact .inr ⟨_, content, isKnown, rfl, grows.grounded, locatedAfter, .refl _,
      fun room enough => PutFresh.get grounded fresh grows.grounded.sound enough⟩
  next => exact recorded.later grows.since located

theorem puts_recorded
    {contents : List Bytes}
    (grounded : Grounded now)
    (recorded : Recorded known first now)
    (puts : Puts contents now after)
    (areKnown : ∀ content ∈ contents, known content) : Recorded known first after := by
  induction puts with
  | refl => exact recorded
  | put kind member puts ih =>
    exact put_recorded (puts_extends grounded puts).grounded ih kind (areKnown _ member)

end Recorded

namespace System

/-- The table kept the records of a first system, and the others are recorded. -/
structure Chronicled (known : Bytes → Prop) (first : Store (ZoneMap g)) (system : System g) :
    Prop where
  since : Since first system.store
  recorded : Recorded known first system.store

section Step

variable {self : System g} {known : Bytes → Prop} {first : Store (ZoneMap g)}

theorem Chronicled.of_fades {after : System g} (chronicled : Chronicled known first self)
    (fades : Fades self.store after.store) : Chronicled known first after :=
  ⟨chronicled.since.trans fades.since, fun _ _ located =>
    chronicled.recorded.later fades.since (fades.located ▸ located)⟩

/-- Every operation that stores only known contents keeps the chronicle. -/
theorem step_chronicled (sane : Sane self) (chronicled : Chronicled known first self) (op : Op)
    (isKnown : ∀ content ∈ op.contents, known content) :
    Chronicled known first (self.step op) := by
  have grounded := sane.grounded
  have effect := step_effect sane op
  generalize self.step op = after at effect ⊢
  cases effect with
  | stored puts =>
    exact ⟨chronicled.since.trans (puts_extends grounded puts).since,
      puts_recorded grounded chronicled.recorded puts isKnown⟩
  | kept store => exact ⟨store ▸ chronicled.since, store ▸ chronicled.recorded⟩
  | committed set record aside =>
    exact chronicled.of_fades (aside.unchanged grounded.wellFormed).toFades
  | tallied map tallied =>
    exact chronicled.of_fades (Unchanged.of_bookkept tallied.bookkept).toFades
  | stepped => exact chronicled.of_fades (self.collector.step_store grounded self.roots).2
  | collected fuel =>
    exact chronicled.of_fades
      (Collector.collect_kept fuel self.roots grounded sane.sized).2.fades
  | begun | requeued queue => exact ⟨chronicled.since, chronicled.recorded⟩

end Step

variable {start : System g}

/-- Every state a booted system reaches has the records it began with, and others stored on the
way. -/
theorem run_chronicled (booted : Booted start) (ops : List Op) :
    Chronicled (· ∈ ops.flatMap Op.contents) start.store (Runs.run step start ops) := by
  have all : ∀ (system : System g) (rest : List Op), (∀ op ∈ rest, op ∈ ops) →
      Runs.Along step (fun _ op => op ∈ ops) system rest := by
    intro system rest within
    induction rest generalizing system with
    | nil => trivial
    | cons op rest ih =>
      exact ⟨within op List.mem_cons_self, ih _
        fun other member => within other (List.mem_cons_of_mem _ member)⟩
  exact (Runs.invariant_of_along
    (fun system => Sane system ∧ Chronicled (· ∈ ops.flatMap Op.contents) start.store system)
    (fun system op member kept => ⟨(step_sane kept.1 op).1, step_chronicled kept.1 kept.2 op
      fun content inside => List.mem_flatMap.mpr ⟨op, member, inside⟩⟩)
    ⟨booted.sane, .refl _, fun _ _ => .inl⟩
    (all start ops fun _ member => member)).2

/-- In every state a system reaches from a formatted or mounted store, a put that succeeds
is read back exactly when nothing of the record it found, if it found one, was dropped, and
a record the system began with could be read then.  The contents stored on the way must not
collide with the one that is put. -/
theorem put_reads_back_iff
    (booted : Booted start)
    (ops : List Op)
    (kind : UInt16)
    (content : Bytes)
    (distinct : ∀ other ∈ ops.flatMap Op.contents, sha256 other = sha256 content → other = content)
    (hash : Digest)
    (after : Store (ZoneMap g))
    (ok : (Runs.run step start ops).store.put kind content = (.ok hash, after))
    (room : Nat)
    (enough : content.length ≤ room) :
    after.get hash room = .ok content ↔ Undropped (Runs.run step start ops).store content ∧
      ∀ first : Nat, start.store.located[sha256 content]? = some first →
        start.store.get (sha256 content) room = .ok content := by
  have grounded := (run_sane booted ops).grounded
  obtain ⟨since, recorded⟩ := run_chronicled booted ops
  generalize Runs.run step start ops = system at *
  obtain ⟨rfl, isKind, -, ⟨known, rfl⟩ | fresh⟩ := put_ok grounded.sound ok
  · rw [Std.TreeMap.contains_eq_isSome_getElem?, Option.isSome_iff_exists] at known
    obtain ⟨place, located⟩ := known
    cases began : start.store.located[sha256 content]? with
    | some first =>
      rw [since.get_iff booted.sane.grounded grounded began]
      simp
    | none =>
      rcases recorded _ place located with absurdly | stored
      · cases began.symm.trans absurdly
      obtain ⟨whole, other, isKnown, hashes, groundedThen, there, sinceThen, get⟩ := stored
      cases distinct other isKnown hashes
      rw [sinceThen.get_iff groundedThen grounded there]
      simp [get room enough]
  have sound : Sound after := by
    have keeps := put_keeps grounded.sound kind content
    rw [ok] at keeps
    exact keeps.sound
  refine iff_of_true (PutFresh.get grounded fresh sound enough) ⟨?_, ?_⟩
  · intro first located
    cases fresh.fresh.symm.trans located
  · intro first located
    cases fresh.fresh.symm.trans (since.located _ first located)

/-- A chunk that stood on the device when it was mounted is stored again, beside another,
and read back. -/
theorem put_reads_back_used :
    (Runs.run step (around usedStore) [.put none Abi.Kind.chunk.code [3]]).store.located[sha256
      [1]]? = some 1 ∧
    ((Runs.run step (around usedStore) [.put none Abi.Kind.chunk.code [3]]).store.put
      Abi.Kind.chunk.code [1]).2.get (sha256 [1]) 1 = .ok [1] := by
  generalize ran : Runs.run step (around usedStore) [.put none Abi.Kind.chunk.code [3]] = system
  have facts : system.store.located[sha256 [1]]? = some 1 ∧
      span system.store.blockBytes ([1] : Bytes).length = 1 ∧
      (system.store.put Abi.Kind.chunk.code [1]).1 = .ok (sha256 [1]) := by
    subst ran
    decide +kernel
  have mapped : system.store.device.physical[1]? = some 48 := by
    subst ran
    decide +kernel
  obtain ⟨located, one, ok⟩ := facts
  refine ⟨located, ?_⟩
  subst ran
  refine (put_reads_back_iff booted_used [.put none Abi.Kind.chunk.code [3]]
    Abi.Kind.chunk.code [1] ?_ (sha256 [1]) _ (by rw [← ok]) 1 (Nat.le_refl _)).mpr ⟨?_, ?_⟩
  · decide +kernel
  · intro start isStart index inside
    cases located.symm.trans isStart
    rw [one, Nat.lt_one_iff] at inside
    exact ⟨48, by rw [inside]; exact mapped⟩
  · intro first _
    decide +kernel

/-- A device of five zones of one block, two of them for data. -/
def tiny : Geometry := ⟨512, 1, 5, small.zonesFit, by decide⟩

/-- The layout of the tiny device. -/
def tinyLayout : Superblock := superblockForThisBuild 512 5 512 1 2

/-- A map over it. -/
def tinyMap : ZoneMap tiny :=
  (ZoneMap.new (ZonedMemory.new tiny) 3).toOption.get (by decide +kernel)

/-- The tiny device, formatted. -/
def tinyStore : Store (ZoneMap tiny) :=
  (format tinyMap tinyLayout).toOption.get (by decide +kernel)

theorem booted_tiny : Booted (around tinyStore) :=
  .formatted (ZonedMemory.new tiny) 3 tinyMap tinyLayout tinyStore (Runs.eq_ok_get _)
    (Runs.eq_ok_get _)
    ⟨by unfold Reserved; decide +kernel, by unfold Reserved; decide +kernel⟩

/-- A chunk nothing names is dropped by a collection.  Storing it again succeeds
and writes nothing, and then it cannot be read. -/
theorem dropped_chunk_is_not_read_back :
    Booted (around tinyStore) ∧
      ((Runs.run step (around tinyStore) [.put none Abi.Kind.chunk.code [1],
        .put none Abi.Kind.chunk.code [2], .collect 100]).store.put
          Abi.Kind.chunk.code [1]).1 = .ok (sha256 [1]) ∧
      ((Runs.run step (around tinyStore) [.put none Abi.Kind.chunk.code [1],
        .put none Abi.Kind.chunk.code [2], .collect 100]).store.put
          Abi.Kind.chunk.code [1]).2.get (sha256 [1]) 1 = .error .address :=
  ⟨booted_tiny, by decide +kernel, by decide +kernel⟩

end System

end FSystem.Zone
