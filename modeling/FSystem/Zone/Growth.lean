import FSystem.Zone.MarkLaws

/-!
# Storing over a zone map

A put, refused or not, only adds past the free pointer: every record that was
there is read as before, from where it was.
-/

namespace FSystem.Zone

open Abi Hash Blob Store

variable {g : Geometry}

namespace ZoneMap

variable {self : ZoneMap g}

/-- A write maps no other block. -/
theorem write_physical
    (wellFormed : self.WellFormed)
    (block : Nat)
    (source : Bytes)
    {other : Nat}
    (apart : other ≠ block) :
    (self.write block source).2.physical[other]? = self.physical[other]? := by
  rcases write_cases wellFormed block source with ⟨_, map, -, kept, -, refused⟩ |
    ⟨-, device, -, -, -, ok⟩ | ⟨-, place, map, -, done, ok⟩
  · rw [refused, kept.physical]
  · rw [ok]
  · rw [ok]
    simp only [insert, Std.TreeMap.getElem?_insert, Std.compare_eq_iff_eq, Ne.symm apart, if_false]
    rw [done.physical]

/-- Writing blocks maps none before them and leaves the copies right. -/
theorem writeBlocks_keeps
    (pieces : List Bytes)
    {block : Nat}
    (positive : 0 < block)
    (wellFormed : self.WellFormed)
    (agree : self.CopiesAgree) :
    (writeBlocks self block pieces).2.CopiesAgree ∧
      ∀ other < block,
        (writeBlocks self block pieces).2.physical[other]? = self.physical[other]? := by
  induction pieces generalizing self block with
  | nil => exact ⟨agree, fun _ _ => rfl⟩
  | cons piece rest ih =>
    have agreeAfter : (self.write block piece).2.CopiesAgree := by
      refine agree.write wellFormed piece ?_
      intro place mapped conventional
      have zero := (wellFormed.conventional mapped conventional).1
      omega
    have wellFormedAfter := wellFormed.write block piece
    have physical := fun other (below : other < block) =>
      write_physical wellFormed block piece (Nat.ne_of_lt below)
    simp only [writeBlocks]
    rcases result : Device.write self block piece with ⟨answer, next⟩
    have result : self.write block piece = (answer, next) := result
    rw [result] at agreeAfter wellFormedAfter physical
    cases answer with
    | error refusal => exact ⟨agreeAfter, physical⟩
    | ok done =>
      obtain ⟨agreeLast, later⟩ := ih (Nat.succ_pos block) wellFormedAfter agreeAfter
      exact ⟨agreeLast, fun other below =>
        (later other (Nat.lt_succ_of_lt below)).trans (physical other below)⟩

/-- Some writes lead from one map to another. -/
def Writes : ZoneMap g → ZoneMap g → Prop :=
  Relation.ReflTransGen fun map next => ∃ block source, next = (map.write block source).2

theorem Writes.wellFormed {before after : ZoneMap g} (writes : Writes before after)
    (wellFormed : before.WellFormed) : after.WellFormed := by
  induction writes with
  | refl => exact wellFormed
  | tail _ written ih =>
    obtain ⟨block, source, rfl⟩ := written
    exact ih.write block source

theorem writeBlocks_writes (pieces : List Bytes) (block : Nat) (self : ZoneMap g) :
    Writes self (writeBlocks self block pieces).2 := by
  fun_induction writeBlocks self block pieces with
  | case1 => exact .refl
  | case2 self block piece _ _ _ written =>
    exact .single ⟨block, piece, (congrArg Prod.snd written).symm⟩
  | case3 self block piece _ _ written ih =>
    exact .trans (.single ⟨block, piece, (congrArg Prod.snd written).symm⟩) ih

end ZoneMap

/-- No later put can write the block: it is below the free pointer, or nothing is free. -/
def Settled (store : Store (ZoneMap g)) (logical : Nat) : Prop :=
  logical < store.free ∨ Device.blocks store.device ≤ store.free

/-- A record of a hash the table did not know stands past the free pointer,
whole. -/
structure Added (before after : Store (ZoneMap g)) (hash : Digest) : Prop where
  absent : before.located[hash]? = none
  whole : ∃ start content, after.located[hash]? = some start ∧ before.free ≤ start ∧
    start + span after.blockBytes content.length ≤ after.free ∧
    ∀ room, content.length ≤ room → after.get hash room = .ok content

/-- The second store has more records, past the free pointer of the first. -/
structure Extends (before after : Store (ZoneMap g)) : Prop where
  superblock : after.superblock = before.superblock
  blocks : Device.blocks after.device = Device.blocks before.device
  free : before.free ≤ after.free
  read : ∀ logical, Settled before logical →
    after.device.read logical g.blockBytes = before.device.read logical g.blockBytes
  physical : ∀ logical, Settled before logical →
    after.device.physical[logical]? = before.device.physical[logical]?
  kept : ∀ (hash : Digest) (start : Nat), before.located[hash]? = some start →
    after.located[hash]? = some start
  fresh : ∀ (hash : Digest) (start : Nat), after.located[hash]? = some start →
    before.located[hash]? = some start ∨ Added before after hash
  grounded : Grounded after

variable {header : Header} {start : Nat}

namespace Extends

variable {before between after : Store (ZoneMap g)} {hash : Digest}

theorem refl (grounded : Grounded before) : Extends before before where
  superblock := rfl
  blocks := rfl
  free := Nat.le_refl _
  read := fun _ _ => rfl
  physical := fun _ _ => rfl
  kept := fun _ _ located => located
  fresh := fun _ _ located => .inl located
  grounded := grounded

section

variable (grows : Extends before after)

include grows

theorem settled {logical : Nat} (settled : Settled before logical) : Settled after logical := by
  have free := grows.free
  unfold Settled at settled ⊢
  rw [grows.blocks]
  omega

theorem blockBytes : after.blockBytes = before.blockBytes := blockBytes_congr grows.superblock

/-- A device of the same size has the same data zones. -/
theorem dataFrom : after.device.dataFrom = before.device.dataFrom := by
  have blocks : 1 + (g.zoneCount - after.device.dataFrom) * g.zoneBlocks =
      1 + (g.zoneCount - before.device.dataFrom) * g.zoneBlocks := grows.blocks
  have same := Nat.eq_of_mul_eq_mul_right before.device.zoneBlocks_pos (Nat.add_left_cancel blocks)
  have inside := before.device.dataFrom_lt
  omega

/-- A header that was found is found. -/
theorem head (grounded : Grounded before) (ok : before.head hash = .ok header) :
    after.head hash = .ok header := by
  obtain ⟨start, _, located, -⟩ := head_ok ok
  refine head_congr grows.superblock ((grows.kept hash start located).trans located.symm) ?_ ok
  intro start bytes located read
  rw [grounded.sound.sized] at read ⊢
  exact (grows.read start (.inl (grounded.below hash start located))).trans read

/-- The header of a record that was there is the one that was there. -/
theorem head_old (grounded : Grounded before) (located : before.located[hash]? = some start)
    (ok : after.head hash = .ok header) : before.head hash = .ok header := by
  have locatedAfter := grows.kept hash start located
  refine head_congr grows.superblock.symm (located.trans locatedAfter.symm) ?_ ok
  intro start' bytes located' read
  rw [locatedAfter] at located'
  cases located'
  rw [grows.blockBytes, grounded.sound.sized] at read ⊢
  exact (grows.read start (.inl (grounded.below hash start located))).symm.trans read

end

/-- Every block of a record that was there is settled. -/
theorem settled_of_head
    (grounded : Grounded before)
    (located : before.located[hash]? = some start)
    (ok : before.head hash = .ok header)
    {index : Nat}
    (inside : index < span before.blockBytes header.contentBytes.toNat) :
    Settled before (start + index) := by
  rcases grounded.within hash start header located ok with below | full
  · exact .inl (by omega)
  · exact .inr full

variable {content : Bytes} {room : Nat}

/-- A blob that was read is read. -/
theorem get (grows : Extends before after) (grounded : Grounded before)
    (ok : before.get hash room = .ok content) : after.get hash room = .ok content := by
  obtain ⟨start, _, got⟩ := get_ok grounded.sound ok
  refine get_congr grounded.sound grows.superblock
    ((grows.kept hash start got.located).trans got.located.symm) ?_ ok
  intro start header located head index inside bytes read
  rw [grounded.sound.sized] at read ⊢
  exact (grows.read _ (settled_of_head grounded located head inside)).trans read

/-- A record that was added stays added while the store grows. -/
theorem added (grows : Extends between after) (grounded : Grounded between)
    (added : Added before between hash) : Added before after hash := by
  obtain ⟨start, content, located, above, below, get⟩ := added.whole
  refine ⟨added.absent, start, content, grows.kept _ start located, above, ?_, ?_⟩
  · rw [grows.blockBytes]
    exact Nat.le_trans below grows.free
  · intro room enough
    exact grows.get grounded (get room enough)

/-- A record added to a store that grew was added to the store it grew from. -/
theorem added_of (grows : Extends before between) (added : Added between after hash) :
    Added before after hash := by
  obtain ⟨start, content, located, above, below, get⟩ := added.whole
  refine ⟨?_, start, content, located, Nat.le_trans grows.free above, below, get⟩
  cases present : before.located[hash]? with
  | none => rfl
  | some other =>
    have absent := added.absent
    rw [grows.kept _ other present] at absent
    cases absent

theorem trans (first : Extends before between) (second : Extends between after) :
    Extends before after where
  superblock := second.superblock.trans first.superblock
  blocks := second.blocks.trans first.blocks
  free := Nat.le_trans first.free second.free
  read := fun logical settled =>
    (second.read logical (first.settled settled)).trans (first.read logical settled)
  physical := fun logical settled =>
    (second.physical logical (first.settled settled)).trans (first.physical logical settled)
  kept := fun hash start located => second.kept hash start (first.kept hash start located)
  fresh := by
    intro hash start located
    rcases second.fresh hash start located with earlier | added
    · exact (first.fresh hash start earlier).imp_right (second.added first.grounded)
    · exact .inr (first.added_of added)
  grounded := second.grounded

section

variable (grows : Extends before after) (grounded : Grounded before)

include grows grounded

/-- A record that was there reads as it did. -/
theorem get_old (located : before.located[hash]? = some start)
    (ok : after.get hash room = .ok content) : before.get hash room = .ok content := by
  have locatedAfter := grows.kept hash start located
  refine get_congr grows.grounded.sound grows.superblock.symm
    (located.trans locatedAfter.symm) ?_ ok
  intro start' header located' head index inside bytes read
  rw [locatedAfter] at located'
  cases located'
  have headBefore := grows.head_old grounded located head
  rw [grows.blockBytes] at inside
  rw [grows.blockBytes, grounded.sound.sized] at read ⊢
  exact (grows.read _ (settled_of_head grounded located headBefore inside)).symm.trans read

theorem names {parent child : Digest} (names : Names before parent child) :
    Names after parent child := by
  obtain ⟨header, content, hashes, head, isObject, get, children, member⟩ := names
  exact ⟨header, content, hashes, grows.head grounded head, isObject,
    grows.get grounded get, children, member⟩

theorem reaches {root : Digest} (reaches : Reaches before root hash) : Reaches after root hash := by
  induction reaches with
  | refl => exact .refl
  | tail _ names ih => exact ih.tail (grows.names grounded names)

end

end Extends

section Put

variable {store after : Store (ZoneMap g)} {content : Bytes} {contents : List Bytes}

/-- A header declares no more than the content it was made for has. -/
theorem span_headerOf_le (blockBytes : Nat) (kind : Abi.Kind) (content : Bytes) :
    span blockBytes (headerOf kind content).contentBytes.toNat ≤
      span blockBytes content.length := by
  apply Nat.div_le_div_right
  have declared : (headerOf kind content).contentBytes.toNat ≤ content.length := Nat.mod_le _ _
  omega

/-- A put writes to its device and does nothing else to it. -/
theorem put_writes (store : Store (ZoneMap g)) (kind : UInt16) (content : Bytes) :
    ZoneMap.Writes store.device (store.put kind content).2.device := by
  rcases put_cases store kind content with ⟨refusal, result⟩ | ⟨-, -, -, result⟩ |
      ⟨_, -, -, -, _, _, written, ⟨_, result⟩ | ⟨-, result⟩⟩ <;> rw [result]
  iterate 2 exact .refl
  all_goals
    generalize Bytes.blocks store.blockBytes _ _ = pieces at written
    have writes := ZoneMap.writeBlocks_writes pieces store.free store.device
    rwa [written] at writes

theorem puts_writes (puts : Puts contents store after) :
    ZoneMap.Writes store.device after.device := by
  induction puts with
  | refl => exact .refl
  | put kind member puts ih => exact ih.trans (put_writes _ kind _)

variable (ground : Grounded store)
include ground

/-- A put leaves the map's copies right and what is settled where it was. -/
theorem put_map (kind : UInt16) (content : Bytes) :
    (store.put kind content).2.device.CopiesAgree ∧
      ∀ logical, Settled store logical →
        (store.put kind content).2.device.physical[logical]? = store.device.physical[logical]? := by
  rcases put_cases store kind content with ⟨refusal, result⟩ | ⟨-, -, -, result⟩ |
      ⟨_, -, -, room, _, _, written, ⟨_, result⟩ | ⟨-, result⟩⟩ <;> rw [result]
  iterate 2 exact ⟨ground.agree, fun _ _ => rfl⟩
  all_goals
    generalize Bytes.blocks store.blockBytes _ _ = pieces at written
    obtain ⟨agree, physical⟩ :=
      ZoneMap.writeBlocks_keeps pieces ground.free_pos ground.wellFormed ground.agree
    rw [written] at agree physical
    refine ⟨agree, ?_⟩
    intro logical settled
    have some := span_pos ground.sound.positive content.length
    unfold Settled at settled
    exact physical logical (by omega)

/-- A put changes no header that was there. -/
theorem head_of_putKeeps
    (keeps : PutKeeps store after)
    {hash : Digest}
    (located : store.located[hash]? = some start)
    (locatedAfter : after.located[hash]? = some start)
    (ok : after.head hash = .ok header) : store.head hash = .ok header := by
  have blockBytes := blockBytes_congr keeps.superblock
  refine head_congr keeps.superblock.symm (located.trans locatedAfter.symm) ?_ ok
  intro start' bytes at' read
  rw [locatedAfter] at at'
  cases at'
  rw [blockBytes] at read ⊢
  exact (keeps.read start (.inl (ground.below hash start located))).symm.trans read

variable {known : Abi.Kind}

/-- A record just written lies where the free pointer was. -/
theorem PutFresh.grounded (fresh : PutFresh store after known content)
    (keeps : PutKeeps store after) (agree : after.device.CopiesAgree) : Grounded after := by
  have blockBytes := blockBytes_congr fresh.superblock
  have some := span_pos ground.sound.positive content.length
  have free := fresh.free
  refine ⟨keeps.sound, agree, by omega, ?_, ?_⟩
  · intro hash start located
    rw [fresh.located_at] at located
    split at located
    · cases located
      omega
    · have below := ground.below hash start located
      omega
  · intro hash start header located ok
    rw [blockBytes, keeps.blocks]
    have located' := located
    rw [fresh.located_at] at located
    split at located
    next same =>
      cases located
      subst same
      have found := head_of_holds keeps.sound.roomy located' fresh.recorded.2
      rw [ok] at found
      cases found
      have declared := span_headerOf_le store.blockBytes known content
      omega
    next apart =>
      have headBefore := head_of_putKeeps ground keeps located located' ok
      have within := ground.within hash start header located headBefore
      omega

/-- A record that fits a device is short enough for its header to say so. -/
theorem length_lt_of_room
    (room : store.free + span store.blockBytes content.length ≤ Device.blocks store.device) :
    content.length < 2 ^ 64 := by
  have positive := ground.free_pos
  have fits := le_span_mul ground.sound.positive content.length
  have blocks : Device.blocks store.device =
      1 + (g.zoneCount - store.device.dataFrom) * g.zoneBlocks := rfl
  have fewer : span store.blockBytes content.length ≤ g.zoneCount * g.zoneBlocks :=
    Nat.le_trans (by omega)
      (Nat.mul_le_mul_right g.zoneBlocks (Nat.sub_le g.zoneCount store.device.dataFrom))
  have bytes := Nat.mul_le_mul_right store.blockBytes fewer
  have addressable := g.addressable
  rw [Nat.mul_comm, Nat.mul_comm g.zoneBlocks, ← ground.blockBytes_eq] at addressable
  omega

/-- What was just stored can be read. -/
theorem PutFresh.get (fresh : PutFresh store after known content) (sound : Sound after)
    {room : Nat} (enough : content.length ≤ room) :
    after.get (sha256 content) room = .ok content := by
  obtain ⟨located, holds⟩ := fresh.recorded
  have short := length_lt_of_room ground (by rw [← fresh.free]; exact fresh.room)
  rw [get_of_holds sound.roomy short located holds room, if_neg (Nat.not_lt.mpr enough)]

theorem PutFresh.added (fresh : PutFresh store after known content) (sound : Sound after) :
    Added store after (sha256 content) := by
  refine ⟨fresh.fresh, store.free, content, fresh.recorded.1, Nat.le_refl _, ?_, ?_⟩
  · rw [fresh.free, blockBytes_congr fresh.superblock]
  · intro room enough
    exact PutFresh.get ground fresh sound enough

/-- A put, refused or not, only adds past the free pointer. -/
theorem put_extends (kind : UInt16) (content : Bytes) :
    Extends store (store.put kind content).2 := by
  have keeps := put_keeps ground.sound kind content
  obtain ⟨agree, physical⟩ := put_map ground kind content
  have leaves := put_leaves ground.sound kind content
  have read : ∀ logical, Settled store logical →
      (store.put kind content).2.device.read logical g.blockBytes =
        store.device.read logical g.blockBytes := by
    intro logical settled
    have same := keeps.read logical settled
    rw [ground.sound.sized] at same
    exact same
  generalize (store.put kind content).2 = after at keeps agree physical read leaves ⊢
  rcases leaves with ⟨located, free⟩ | ⟨known, fresh⟩
  · have groundedAfter : Grounded after := by
      refine ⟨keeps.sound, agree, free ▸ ground.free_pos, ?_, ?_⟩
      · rw [located, free]
        exact ground.below
      intro hash start header present ok
      have presentBefore := present
      rw [located] at presentBefore
      rw [free, keeps.blocks, blockBytes_congr keeps.superblock]
      exact ground.within hash start header presentBefore
        (head_of_putKeeps ground keeps presentBefore present ok)
    exact ⟨keeps.superblock, keeps.blocks, Nat.le_of_eq free.symm, read, physical,
      fun hash start present => by rw [located]; exact present,
      fun hash start present => by rw [located] at present; exact .inl present,
      groundedAfter⟩
  refine ⟨keeps.superblock, keeps.blocks, ?_, read, physical, fun _ _ => fresh.kept, ?_,
    PutFresh.grounded ground fresh keeps agree⟩
  · rw [fresh.free]
    exact Nat.le_add_right _ _
  · intro other start present
    rw [fresh.located_at] at present
    split at present
    next same =>
      subst same
      exact .inr (PutFresh.added ground fresh keeps.sound)
    next => exact .inl present

/-- Puts, refused or not, only add past the free pointer. -/
theorem puts_extends (puts : Puts contents store after) : Extends store after := by
  induction puts with
  | refl => exact .refl ground
  | put kind member puts ih => exact ih.trans (put_extends ih.grounded kind _)

end Put

/-- The blobs an object is stored as: its chunks and the list of them. -/
def objectParts (bytes : Bytes) : List Bytes :=
  chunksOf bytes ++ [objectContent bytes.length ((chunksOf bytes).map sha256)]

/-- Storing an object puts its parts. -/
theorem objectParts_puts {store : Store (ZoneMap g)} (grounded : Grounded store) (bytes : Bytes) :
    Puts (objectParts bytes) store (store.putObject bytes).2 :=
  (putObject_puts grounded.sound bytes rfl).1

/-- A mark's cover survives a put of no hash the walk is done with. -/
theorem Mark.Covers.of_extends
    {before after : Store (ZoneMap g)}
    {mark : Mark}
    (covers : Mark.Covers before mark)
    (grows : Extends before after)
    (grounded : Grounded before)
    (unseen : ∀ hash ∈ mark.seen, before.located[hash]? = none →
      after.located[hash]? = none) : Mark.Covers after mark := { covers with
  listed := by
    intro hash member start room content located ok
    cases present : before.located[hash]? with
    | none =>
      rw [unseen hash member present] at located
      cases located
    | some other =>
      have same := grows.kept hash other present
      rw [located] at same
      cases same
      rw [grows.blockBytes]
      exact covers.listed hash member start room content present (grows.get_old grounded present ok)
  named := by
    rintro parent member child ⟨header, content, hashes, head, isObject, get, children, named⟩
    obtain ⟨start, _, located, -⟩ := head_ok head
    cases present : before.located[parent]? with
    | none =>
      rw [unseen parent member present] at located
      cases located
    | some other =>
      exact covers.named parent member child ⟨header, content, hashes, grows.head_old grounded
        present head, isObject, grows.get_old grounded present get, children, named⟩
  entries := by
    intro start extent present
    obtain ⟨keyed, marked, bounded⟩ := covers.entries start extent present
    refine ⟨keyed, fun logical place above below mapped => ?_, ?_⟩
    · have settled : Settled before logical := bounded.imp_left (by omega)
      rw [grows.physical logical settled] at mapped
      exact marked logical place above below mapped
    · have free := grows.free
      rw [grows.blocks]
      omega }

end FSystem.Zone
