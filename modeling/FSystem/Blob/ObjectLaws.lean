import FSystem.Blob.Holdings
import FSystem.Blob.Cuts

/-!
# An object is read back

The chunks of some bytes join to the bytes, so a list of the hashes of held chunks is read
back as the bytes, and so is the object whose content holds that list.
-/

namespace FSystem.Blob

open Abi Hash List

namespace Store

theorem length_of_drop {bytes rest : Bytes} {position : Nat} {byte : UInt8}
    (left : bytes.drop position = byte :: rest) :
    position < bytes.length ∧ bytes.drop (position + 1) = rest := by
  constructor
  · by_contra past
    rw [drop_eq_nil_of_le (Nat.le_of_not_lt past)] at left
    cases left
  · rw [← drop_drop, left, drop_one, tail_cons]

/-- The chunks from the last cut on join to the bytes from it on. -/
theorem flatten_chunksBetween
    (bytes rest : Bytes)
    (chunker : Chunker)
    (position : Nat)
    (left : bytes.drop position = rest)
    (inside : chunker.sinceCut ≤ position)
    (within : position ≤ bytes.length) :
    (chunksBetween bytes (chunker.feed position rest).2.finish
      (position - chunker.sinceCut) (chunker.feed position rest).1).flatten =
        bytes.drop (position - chunker.sinceCut) := by
  induction rest generalizing chunker position with
  | nil =>
    have ended : bytes.length ≤ position := List.drop_eq_nil_iff.mp left
    simp only [Chunker.feed, Chunker.finish, chunksBetween]
    by_cases open_ : 0 < chunker.sinceCut
    · rw [if_pos open_, flatten_singleton]
    · rw [if_neg open_, flatten_nil, drop_eq_nil_of_le (by omega)]
  | cons byte rest ih =>
    obtain ⟨more, leftNext⟩ := length_of_drop left
    have later := ih (chunker.step byte).2 (position + 1) leftNext
    have counted : (chunker.step byte).2.sinceCut =
        if chunker.Ends byte then 0 else chunker.sinceCut + 1 := by
      rw [chunker.step_eq]
    have ended : (chunker.step byte).1 = decide (chunker.Ends byte) := by rw [chunker.step_eq]
    rw [Chunker.feed]
    by_cases ends : chunker.Ends byte
    · rw [if_pos ends] at counted
      rw [ended, decide_eq_true ends]
      rw [counted, Nat.sub_zero] at later
      have joined := take_append_drop (position + 1 - (position - chunker.sinceCut))
        (bytes.drop (position - chunker.sinceCut))
      rw [drop_drop, show position - chunker.sinceCut +
        (position + 1 - (position - chunker.sinceCut)) = position + 1 by omega] at joined
      rw [if_pos rfl, chunksBetween, flatten_cons, later (Nat.zero_le _) more, Bytes.slice, joined]
    · rw [if_neg ends] at counted
      rw [ended, decide_eq_false ends, if_neg Bool.false_ne_true]
      rw [counted, Nat.add_sub_add_right] at later
      exact later (Nat.succ_le_succ inside) more

/-- The chunks of some bytes join to the bytes. -/
theorem flatten_chunksOf (bytes : Bytes) : (chunksOf bytes).flatten = bytes :=
  flatten_chunksBetween bytes bytes .new 0 rfl (Nat.le_refl _) (Nat.zero_le _)

/-- Only no bytes have no chunks. -/
theorem chunksOf_eq_nil (bytes : Bytes) : chunksOf bytes = [] ↔ bytes = [] := by
  constructor
  · intro nothing
    rw [← flatten_chunksOf bytes, nothing, flatten_nil]
  · intro nothing
    rw [nothing]
    rfl

theorem length_chunk_le {bytes chunk : Bytes} (member : chunk ∈ chunksOf bytes) :
    chunk.length ≤ bytes.length := by
  rw [← flatten_chunksOf bytes]
  exact (sublist_flatten_of_mem member).length_le

variable {D : Type} [Device D] [LawfulDevice D] {self : Store D} {bytes : Bytes}

/-- Held chunks are read back one after another. -/
theorem getChunks_eq
    (sound : Sound self)
    (chunks : List Bytes)
    (held : ∀ chunk ∈ chunks, ∃ kind, self.Holds kind chunk)
    {room : Nat}
    (fits : chunks.flatten.length ≤ room) :
    self.getChunks room (chunks.map sha256) = .ok chunks.flatten := by
  induction chunks generalizing room with
  | nil => rfl
  | cons chunk rest ih =>
    rw [flatten_cons, length_append] at fits
    obtain ⟨kind, holds⟩ := held chunk mem_cons_self
    rw [map_cons, getChunks, holds.get_ok sound (by omega)]
    dsimp only
    rw [ih (fun one member => held one (mem_cons_of_mem _ member)) (by omega), flatten_cons]

/-- The content of the object some bytes are stored as. -/
def objectOf (bytes : Bytes) : Bytes :=
  objectContent bytes.length ((chunksOf bytes).map sha256)

omit [LawfulDevice D] in
/-- The content of an object is its head, then the hashes of its chunks. -/
theorem head_objectOf (short : bytes.length < 2 ^ 64) (few : (chunksOf bytes).length ≤ chunksMax) :
    ∃ head : ObjectHead, head.objectBytes.toNat = bytes.length ∧
      head.chunks.toNat = (chunksOf bytes).length ∧ head.toBytes.length = headBytes ∧
      ObjectHead.fromBytes head.toBytes = .ok head ∧
      objectOf bytes = head.toBytes ++ ((chunksOf bytes).map sha256).flatMap Digest.bytes := by
  have lengthRead := UInt64.toNat_ofNat_of_lt' short
  have countRead : (UInt32.ofNat ((chunksOf bytes).map sha256).length).toNat =
      (chunksOf bytes).length := by
    rw [length_map]
    exact UInt32.toNat_ofNat_of_lt' (Nat.lt_of_le_of_lt few (by decide))
  refine ⟨_, lengthRead, countRead, by simp [ObjectHead.toBytes, headBytes], ?_, rfl⟩
  rw [ObjectHead.fromBytes, ObjectHead.toBytes, headFromBytes_encoded]
  · rw [countRead]
    exact few
  · have nothing := chunksOf_eq_nil bytes
    rw [← UInt64.toNat_inj, ← UInt32.toNat_inj, lengthRead, countRead]
    change bytes.length = 0 ↔ (chunksOf bytes).length = 0
    rw [length_eq_zero_iff, length_eq_zero_iff]
    exact nothing.symm

/-- An object whose content and chunks are held is read back. -/
theorem getObject_eq
    (sound : Sound self)
    (short : bytes.length < 2 ^ 64)
    (few : (chunksOf bytes).length ≤ chunksMax)
    (holds : self.Holds .object (objectOf bytes))
    (held : ∀ chunk ∈ chunksOf bytes, ∃ kind, self.Holds kind chunk)
    (room : Nat) :
    self.getObject (sha256 (objectOf bytes)) room =
      if room < bytes.length then .error .shortBuffer else .ok bytes := by
  obtain ⟨head, lengthRead, countRead, width, decoded, content⟩ := head_objectOf short few
  have contentLength : (objectOf bytes).length = headBytes + (chunksOf bytes).length * 32 := by
    rw [content, length_append, width, length_flatMap_bytes, length_map]
  have front : (objectOf bytes).take headBytes = head.toBytes := by rw [content, ← width, take_left]
  have hashes : hashesAfter (objectOf bytes) headBytes (chunksOf bytes).length =
      (chunksOf bytes).map sha256 := by
    have read := hashesAfter_append width ((chunksOf bytes).map sha256)
    rw [length_map, ← content] at read
    exact read
  have joined := flatten_chunksOf bytes
  have chunks := getChunks_eq sound (chunksOf bytes) held (Nat.le_of_eq (by rw [joined]))
  rw [joined] at chunks
  have isObject : ¬(headerOf .object (objectOf bytes)).kind ≠ .object := not_not.mpr rfl
  rw [getObject, holds.head_eq sound]
  dsimp only
  rw [if_neg isObject, contentBytes_headerOf _ holds.short, holds.get_ok sound (Nat.le_refl _)]
  dsimp only
  rw [if_neg (by omega), front, decoded]
  dsimp only
  rw [if_neg (by rw [ObjectHead.bytes, countRead, contentLength]; exact not_not.mpr rfl),
    lengthRead, countRead, hashes, chunks]
  dsimp only
  rw [if_neg (not_not.mpr rfl)]

/-- Storing an object keeps the store; if it is not refused, and no record of the content has
another kind, its chunks and its content are held. -/
theorem Filled.putObject
    {known : Bytes → Prop}
    (filled : self.Filled known)
    (collisionFree : CollisionFree known)
    (short : bytes.length < 2 ^ 64)
    (areKnown : ∀ chunk ∈ chunksOf bytes, known chunk)
    (isKnown : known (objectOf bytes))
    (noChunk : objectOf bytes ∉ chunksOf bytes)
    (unclaimed : ∀ header, self.head (sha256 (objectOf bytes)) = .ok header → header.kind = .object)
    :
    (self.putObject bytes).2.Filled known ∧ Grows self (self.putObject bytes).2 ∧
      ∀ hash, (self.putObject bytes).1 = .ok hash →
        hash = sha256 (objectOf bytes) ∧ (chunksOf bytes).length ≤ chunksMax ∧
          (self.putObject bytes).2.Holds .object (objectOf bytes) ∧
          ∀ chunk ∈ chunksOf bytes, ∃ kind, (self.putObject bytes).2.Holds kind chunk := by
  obtain ⟨filledNext, growsNext, stored⟩ := filled.putChunks collisionFree areKnown
    fun chunk member => Nat.lt_of_le_of_lt (length_chunk_le member) short
  have located := ((Puts.putChunks .refl (chunksOf bytes) fun _ member => member).located
    filled.sound).2
  rw [Store.putObject]
  rcases chunks : self.putChunks (chunksOf bytes) with ⟨_ | hashes, next⟩
  · rw [chunks] at filledNext growsNext
    exact ⟨filledNext, growsNext, nofun⟩
  rw [chunks] at filledNext growsNext stored located
  obtain ⟨same, held⟩ := stored hashes rfl
  have count : hashes.length = (chunksOf bytes).length := by rw [same, length_map]
  dsimp only
  by_cases many : chunksMax < hashes.length
  · rw [if_pos many]
    exact ⟨filledNext, growsNext, nofun⟩
  have few : (chunksOf bytes).length ≤ chunksMax := by
    rw [← count]
    exact Nat.le_of_not_lt many
  obtain ⟨head, -, -, width, -, content⟩ := head_objectOf short few
  have isShort : (objectOf bytes).length < 2 ^ 64 := by
    rw [content, length_append, width, length_flatMap_bytes, length_map]
    exact Nat.lt_of_le_of_lt (Nat.add_le_add_left (Nat.mul_le_mul_right 32 few) _) (by decide)
  have unclaimedNext : ∀ header, next.head (sha256 (objectOf bytes)) = .ok header →
      header.kind = .object := by
    intro header found
    obtain ⟨start, -, isLocated, -, -, -⟩ := head_ok found
    rcases located _ start isLocated with before | ⟨chunk, member, named⟩
    · obtain ⟨kind, holds⟩ := filled.holds_of_located collisionFree isKnown ⟨start, before⟩
      have isObject : kind = .object := unclaimed _ (holds.head_eq filled.sound)
      have same := (growsNext _ _ holds).head_eq filledNext.sound
      rw [found] at same
      rw [Except.ok.inj same]
      exact isObject
    · have isChunk := collisionFree chunk _ (areKnown chunk member) isKnown named
      exact absurd (isChunk ▸ member) noChunk
  rw [if_neg many, same]
  have growsLast := put_grows filledNext.sound Kind.object.code (objectOf bytes)
  refine ⟨filledNext.put _ isKnown isShort, growsNext.trans growsLast, ?_⟩
  intro hash ok
  have result : next.put Kind.object.code (objectOf bytes) =
      (.ok hash, (next.put Kind.object.code (objectOf bytes)).2) := Prod.ext ok rfl
  obtain ⟨named, holds⟩ := filledNext.put_holds_kind collisionFree isKnown isShort
    unclaimedNext result
  refine ⟨named, few, holds, ?_⟩
  intro chunk member
  obtain ⟨kind, chunkHolds⟩ := held chunk member
  exact ⟨kind, growsLast _ _ chunkHolds⟩

end Store

end FSystem.Blob
