import FSystem.Blob.Extent
import FSystem.Blob.Laws

/-!
# What a store holds

A store holds a content when a whole record of it stands where the table says.  A put
keeps what is held, and holds its own content as long as the contents that were stored
do not collide; which kind the record has is the kind of the first put.
-/

namespace FSystem.Blob

open Abi Hash

/-- No two of some contents have one hash. -/
def CollisionFree (known : Bytes → Prop) : Prop :=
  ∀ first second, known first → known second → sha256 first = sha256 second → first = second

namespace Store

variable {D : Type} [Device D] [LawfulDevice D]

open LawfulDevice

/-- A whole record of some content stands where the table says. -/
structure Holds (store : Store D) (kind : Kind) (content : Bytes) : Prop where
  short : content.length < 2 ^ 64
  recorded : ∃ start, store.located[sha256 content]? = some start ∧
    HoldsRecord store.device store.blockBytes start kind content ∧
    start + span store.blockBytes content.length ≤ store.free

/-- A sound store whose table names whole records of known contents only. -/
structure Filled (known : Bytes → Prop) (store : Store D) : Prop where
  sound : Sound store
  recorded : ∀ (hash : Digest) (start : Nat), store.located[hash]? = some start →
    ∃ kind content, known content ∧ sha256 content = hash ∧ store.Holds kind content

/-- One store holds everything another one does. -/
def Grows (before after : Store D) : Prop :=
  ∀ kind content, before.Holds kind content → after.Holds kind content

section Held

variable {self before middle after : Store D} {kind : Kind} {content : Bytes}

omit [LawfulDevice D] in
theorem Grows.refl (self : Store D) : Grows self self := fun _ _ holds => holds

omit [LawfulDevice D] in
theorem Grows.trans (first : Grows before middle) (second : Grows middle after) :
    Grows before after :=
  fun kind content holds => second kind content (first kind content holds)

section

variable (holds : self.Holds kind content) (sound : Sound self)

include holds sound

/-- The header of what is held. -/
theorem Holds.head_eq : self.head (sha256 content) = .ok (headerOf kind content) := by
  obtain ⟨start, located, record, -⟩ := holds.recorded
  exact head_of_holds sound.roomy located record

/-- What is held is read, if it fits. -/
theorem Holds.get_eq (room : Nat) :
    self.get (sha256 content) room =
      if room < content.length then .error .shortBuffer else .ok content := by
  obtain ⟨start, located, record, -⟩ := holds.recorded
  exact get_of_holds sound.roomy holds.short located record room

/-- A buffer with room is filled with the content. -/
theorem Holds.get_ok {room : Nat} (fits : content.length ≤ room) :
    self.get (sha256 content) room = .ok content := by
  rw [holds.get_eq sound, if_neg (Nat.not_lt.mpr fits)]

end

omit [LawfulDevice D] in
theorem contentBytes_headerOf (kind : Kind) (short : content.length < 2 ^ 64) :
    (headerOf kind content).contentBytes.toNat = content.length :=
  UInt64.toNat_ofNat_of_lt short

end Held

section Kept

variable {self before after : Store D} {known : Bytes → Prop}

omit [LawfulDevice D] in
/-- A store whose table and blocks below the free pointer are kept holds what it held. -/
theorem grows_of_kept (superblock : after.superblock = before.superblock)
    (located : ∀ (hash : Digest) (start : Nat), before.located[hash]? = some start →
      after.located[hash]? = some start)
    (free : before.free ≤ after.free)
    (read : ∀ block < before.free, Device.read after.device block before.blockBytes =
      Device.read before.device block before.blockBytes) :
    Grows before after := by
  intro kind content holds
  obtain ⟨start, found, record, below⟩ := holds.recorded
  have sameBytes := blockBytes_congr superblock
  refine ⟨holds.short, start, located _ _ found, ?_, ?_⟩
  · intro index inside
    rw [sameBytes] at inside ⊢
    rw [read _ (by omega)]
    exact record index inside
  · rw [sameBytes]
    exact below.trans free

/-- A put keeps what the store holds. -/
theorem put_grows (sound : Sound self) (kind : UInt16) (content : Bytes) :
    Grows self (self.put kind content).2 := by
  have keeps := put_keeps sound kind content
  have read := fun block (below : block < self.free) => keeps.read block (.inl below)
  rcases put_leaves sound kind content with ⟨located, free⟩ | ⟨known, fresh⟩
  · refine grows_of_kept keeps.superblock ?_ (Nat.le_of_eq free.symm) read
    intro hash start found
    rw [located]
    exact found
  · refine grows_of_kept keeps.superblock (fun _ _ => fresh.kept) ?_ read
    rw [fresh.free]
    exact Nat.le_add_right _ _

variable {content : Bytes} {kind : Kind}

omit [LawfulDevice D] in
/-- A put that wrote a record holds it. -/
theorem PutFresh.holds_content (fresh : PutFresh self after kind content)
    (short : content.length < 2 ^ 64) : after.Holds kind content := by
  refine ⟨short, self.free, fresh.recorded.1, fresh.recorded.2, ?_⟩
  rw [blockBytes_congr fresh.superblock, fresh.free]

/-- A put of known content, refused or not, leaves the table with known contents. -/
theorem Filled.put (filled : self.Filled known) (kind : UInt16) (isKnown : known content)
    (short : content.length < 2 ^ 64) : (self.put kind content).2.Filled known := by
  have grows := put_grows filled.sound kind content
  have keeps := put_keeps filled.sound kind content
  have old : ∀ (hash : Digest) (start : Nat), self.located[hash]? = some start → ∃ stored held,
      known held ∧ sha256 held = hash ∧ (self.put kind content).2.Holds stored held := by
    intro hash start found
    obtain ⟨stored, held, isKnown, hashes, holds⟩ := filled.recorded hash start found
    exact ⟨stored, held, isKnown, hashes, grows _ _ holds⟩
  refine ⟨keeps.sound, ?_⟩
  intro hash start found
  rcases put_leaves filled.sound kind content with ⟨located, -⟩ | ⟨stored, fresh⟩
  · rw [located] at found
    exact old hash start found
  rw [fresh.located_at] at found
  split at found
  next same => exact ⟨stored, content, isKnown, same, fresh.holds_content short⟩
  next => exact old hash start found

section

variable (filled : self.Filled known) (collisionFree : CollisionFree known) {content : Bytes}
  (isKnown : known content)

include filled collisionFree isKnown

/-- Content whose hash is in the table is held, when known contents do not collide. -/
theorem Filled.holds_of_located (located : ∃ start, self.located[sha256 content]? = some start) :
    ∃ kind, self.Holds kind content := by
  obtain ⟨start, found⟩ := located
  obtain ⟨kind, stored, storedKnown, hashes, holds⟩ := filled.recorded _ start found
  rw [collisionFree stored content storedKnown isKnown hashes] at holds
  exact ⟨kind, holds⟩

variable {hash : Digest}

/-- A put that is not refused holds its content. -/
theorem Filled.put_holds {kind : UInt16} (short : content.length < 2 ^ 64)
    (ok : self.put kind content = (.ok hash, after)) :
    hash = sha256 content ∧ ∃ kind, after.Holds kind content := by
  have filledAfter := filled.put kind isKnown short
  rw [ok] at filledAfter
  obtain ⟨rfl, located⟩ := put_located filled.sound ok
  exact ⟨rfl, filledAfter.holds_of_located collisionFree isKnown located⟩

/-- A put holds its content under its kind, unless a record of it has another. -/
theorem Filled.put_holds_kind (short : content.length < 2 ^ 64)
    (unclaimed : ∀ header, self.head (sha256 content) = .ok header → header.kind = kind)
    (ok : self.put kind.code content = (.ok hash, after)) :
    hash = sha256 content ∧ after.Holds kind content := by
  obtain ⟨same, known, isKind, ⟨-, unchanged⟩ | fresh⟩ := put_ok filled.sound ok
  · obtain ⟨stored, holds⟩ := (filled.put_holds collisionFree isKnown short ok).2
    rw [unchanged] at holds
    have sameKind : stored = kind := unclaimed _ (holds.head_eq filled.sound)
    rw [unchanged, ← sameKind]
    exact ⟨same, holds⟩
  · have sameKind : known = kind := by
      rw [Kind.ofCode_code] at isKind
      exact (Option.some.inj isKind).symm
    exact ⟨same, sameKind ▸ fresh.holds_content short⟩

end

end Kept

section Barrier

variable {self : Store D} {known : Bytes → Prop}

/-- A barrier keeps what is held. -/
theorem barrier_grows (self : Store D) : Grows self self.barrier.2 :=
  grows_of_kept rfl (fun _ _ found => found) (Nat.le_refl _)
    fun block _ => read_flush self.device block _

/-- A barrier stores nothing. -/
theorem Filled.barrier (filled : self.Filled known) : self.barrier.2.Filled known := by
  obtain ⟨⟨valid, sized, roomy⟩, recorded⟩ := filled
  refine ⟨⟨valid_flush valid, sized.trans (blockBytes_flush self.device).symm, roomy⟩, ?_⟩
  intro hash start found
  obtain ⟨kind, content, isKnown, hashes, holds⟩ := recorded hash start found
  exact ⟨kind, content, isKnown, hashes, barrier_grows self _ _ holds⟩

theorem head_barrier (self : Store D) (hash : Digest) :
    self.barrier.2.head hash = self.head hash := by
  simp [head, barrier, Store.blockBytes, read_flush]

end Barrier

section Chunks

variable {self : Store D} {known : Bytes → Prop}

/-- Puts of known contents keep what the store holds. -/
theorem Filled.puts
    {after : Store D}
    {contents : List Bytes}
    (filled : self.Filled known)
    (puts : Puts contents self after)
    (areKnown : ∀ content ∈ contents, known content)
    (short : ∀ content ∈ contents, content.length < 2 ^ 64) :
    after.Filled known ∧ Grows self after := by
  induction puts with
  | refl => exact ⟨filled, Grows.refl self⟩
  | put kind member puts ih =>
    obtain ⟨filledNext, grows⟩ := ih
    exact ⟨filledNext.put kind (areKnown _ member) (short _ member),
      grows.trans (put_grows filledNext.sound kind _)⟩

/-- Storing known chunks keeps the store, and a list that is stored is held whole. -/
theorem Filled.putChunks
    (filled : self.Filled known)
    (collisionFree : CollisionFree known)
    {chunks : List Bytes}
    (areKnown : ∀ chunk ∈ chunks, known chunk)
    (short : ∀ chunk ∈ chunks, chunk.length < 2 ^ 64) :
    (self.putChunks chunks).2.Filled known ∧ Grows self (self.putChunks chunks).2 ∧
      ∀ hashes, (self.putChunks chunks).1 = .ok hashes →
        hashes = chunks.map sha256 ∧
          ∀ chunk ∈ chunks, ∃ kind, (self.putChunks chunks).2.Holds kind chunk := by
  obtain ⟨filledNext, grows⟩ :=
    filled.puts (.putChunks .refl chunks fun _ member => member) areKnown short
  refine ⟨filledNext, grows, ?_⟩
  intro hashes ok
  obtain ⟨same, present⟩ := putChunks_ok filled.sound ok
  refine ⟨same, fun chunk member => ?_⟩
  exact filledNext.holds_of_located collisionFree (areKnown chunk member) (present chunk member)

end Chunks

end Store

/-- The hashes behind a head are read back. -/
theorem hashesAfter_append
    {head : Bytes} {offset : Nat} (width : head.length = offset) (hashes : List Digest) :
    hashesAfter (head ++ hashes.flatMap Digest.bytes) offset hashes.length = hashes := by
  induction hashes generalizing head offset with
  | nil => rfl
  | cons hash rest ih =>
    have first : digest (head ++ (hash :: rest).flatMap Digest.bytes) (offset + 0 * 32) =
        hash := by
      rw [digest, Bytes.slice_append_right _ _ _ _ (by omega), List.flatMap_cons,
        show offset + 0 * 32 - head.length = 0 by omega,
        Bytes.slice_append_head _ _ _ hash.length_eq, Digest.ofBytes_bytes]
    have later := @ih (head ++ hash.bytes) (offset + 32) (by
      rw [List.length_append, hash.length_eq, width])
    rw [List.append_assoc, ← List.flatMap_cons] at later
    rw [hashesAfter, List.length_cons, List.range_succ_eq_map, List.map_cons, first, List.map_map]
    congr 1
    refine Eq.trans (List.map_congr_left ?_) later
    intro index _
    rw [Function.comp_apply, Nat.succ_mul]
    congr 1
    omega

theorem length_flatMap_bytes (hashes : List Digest) :
    (hashes.flatMap Digest.bytes).length = hashes.length * 32 := by
  induction hashes with
  | nil => rfl
  | cons hash rest ih =>
    rw [List.flatMap_cons, List.length_append, ih, hash.length_eq,
      List.length_cons, Nat.succ_mul, Nat.add_comm]

end FSystem.Blob
