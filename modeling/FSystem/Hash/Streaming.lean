import FSystem.Hash.Sha256

/-!
# Hashing piece by piece

A hasher that was fed a message in pieces answers the digest of the whole
message: what it holds depends only on the bytes it has seen.
-/

namespace FSystem.Hash.Sha256

open List

/-- The chaining words after the whole blocks of a message. -/
def compressed (message : Bytes) : Words :=
  (Bytes.blocks blockBytes message (message.length / blockBytes)).foldl compress Words.initial

/-- A hasher has seen a message. -/
structure Absorbed (hasher : Sha256) (message : Bytes) : Prop where
  state : hasher.state = compressed message
  buffered : hasher.buffered = message.length % blockBytes
  live : hasher.block.take hasher.buffered = message.drop (message.length / blockBytes * blockBytes)
  width : hasher.block.length = blockBytes
  counted : hasher.lengthBytes = UInt64.ofNat message.length

theorem absorbed_new : Absorbed new [] where
  state := rfl
  buffered := rfl
  live := rfl
  width := rfl
  counted := rfl

variable {count : Nat} {whole : Bytes}

/-- Bytes behind whole blocks make the blocks they make alone. -/
theorem length_append_div (rest : Bytes) (full : whole.length = count * blockBytes) :
    (whole ++ rest).length / blockBytes = count + rest.length / blockBytes ∧
      (whole ++ rest).length % blockBytes = rest.length % blockBytes := by
  rw [length_append, full, Nat.mul_add_mod_self_right, Nat.add_comm,
    Nat.add_mul_div_right _ _ (by decide), Nat.add_comm]
  exact ⟨rfl, rfl⟩

/-- Whole blocks are compressed one after another. -/
theorem compressed_append (rest : Bytes) (full : whole.length = count * blockBytes) :
    compressed (whole ++ rest) =
      (Bytes.blocks blockBytes rest (rest.length / blockBytes)).foldl compress
        (compressed whole) := by
  have divided : whole.length / blockBytes = count := by
    rw [full, Nat.mul_div_cancel _ (by decide)]
  rw [compressed, compressed, (length_append_div rest full).1, divided,
    Bytes.blocks_append _ _ _ full, foldl_append]

theorem length_overwrite_block {tail block : Bytes} (short : tail.length < blockBytes)
    (width : block.length = blockBytes) :
    (Bytes.overwrite tail block).length = blockBytes ∧
      (Bytes.overwrite tail block).take tail.length = tail := by
  constructor
  · rw [Bytes.length_overwrite _ _ (by omega), width]
  · simp [Bytes.overwrite]

variable {self : Sha256}

/-- Absorbing after whole blocks. -/
theorem absorb_absorbed
    (rest : Bytes)
    (full : whole.length = count * blockBytes)
    (state : self.state = compressed whole)
    (width : self.block.length = blockBytes)
    (counted : self.lengthBytes = UInt64.ofNat (whole ++ rest).length) :
    Absorbed (self.absorb rest) (whole ++ rest) := by
  obtain ⟨divided, remainder⟩ := length_append_div rest full
  have tailLength : (rest.drop (rest.length / blockBytes * blockBytes)).length =
      rest.length % blockBytes := by
    rw [length_drop, ← Nat.mod_eq_sub_div_mul]
  have short := Nat.mod_lt rest.length (show 0 < blockBytes by decide)
  obtain ⟨kept, front⟩ := length_overwrite_block (tailLength.trans_lt short) width
  refine ⟨?_, ?_, ?_, kept, counted⟩
  · rw [compressed_append rest full, ← state]
    rfl
  · rw [remainder]
    exact tailLength
  · rw [divided, Nat.add_mul, ← full, drop_append]
    simp only [absorb, front, Nat.add_sub_cancel_left]
    rw [drop_eq_nil_of_le (Nat.le_add_right _ _), nil_append]

variable {message : Bytes}

/-- A message is its whole blocks and what a hasher of it has buffered. -/
theorem Absorbed.split (absorbed : Absorbed self message) :
    (∃ whole count, message = whole ++ self.block.take self.buffered ∧
      whole.length = count * blockBytes ∧ self.state = compressed whole) ∧
    self.buffered < blockBytes ∧ (self.block.take self.buffered).length = self.buffered := by
  have bound : self.buffered < blockBytes := by
    rw [absorbed.buffered]
    exact Nat.mod_lt _ (by decide)
  refine ⟨?_, bound, by rw [length_take, absorbed.width, Nat.min_eq_left bound.le]⟩
  have full : (message.take (message.length / blockBytes * blockBytes)).length =
      message.length / blockBytes * blockBytes := by
    rw [length_take, Nat.min_eq_left (Nat.div_mul_le_self _ _)]
  have joined := take_append_drop (message.length / blockBytes * blockBytes) message
  have tailLength : (message.drop (message.length / blockBytes * blockBytes)).length /
      blockBytes = 0 := by
    rw [length_drop, ← Nat.mod_eq_sub_div_mul]
    exact Nat.div_eq_of_lt (Nat.mod_lt _ (by decide))
  have same := compressed_append (message.drop (message.length / blockBytes * blockBytes)) full
  rw [joined, tailLength] at same
  refine ⟨message.take (message.length / blockBytes * blockBytes),
    message.length / blockBytes, ?_, full, absorbed.state.trans same⟩
  rw [absorbed.live, joined]

/-- A hasher that buffers a short rest behind whole blocks. -/
theorem absorbed_of_short
    {tail : Bytes}
    (full : whole.length = count * blockBytes)
    (short : tail.length < blockBytes)
    (state : self.state = compressed whole)
    (buffered : self.buffered = tail.length)
    (live : self.block.take tail.length = tail)
    (width : self.block.length = blockBytes)
    (counted : self.lengthBytes = UInt64.ofNat (whole ++ tail).length) :
    Absorbed self (whole ++ tail) := by
  obtain ⟨divided, remainder⟩ := length_append_div tail full
  rw [Nat.div_eq_of_lt short, Nat.add_zero] at divided
  rw [Nat.mod_eq_of_lt short] at remainder
  refine ⟨?_, by rw [buffered, remainder], ?_, width, counted⟩
  · rw [state, compressed_append tail full, Nat.div_eq_of_lt short]
    rfl
  · rw [buffered, live, divided, ← full, drop_left]

/-- Feeding a hasher some bytes, it has seen them behind what it had seen. -/
theorem update_absorbed (absorbed : Absorbed self message)
    (bytes : Bytes) : Absorbed (self.update bytes) (message ++ bytes) := by
  have counted : self.lengthBytes + UInt64.ofNat bytes.length =
      UInt64.ofNat (message ++ bytes).length := by
    rw [absorbed.counted, length_append, UInt64.ofNat_add]
  obtain ⟨⟨whole, count, split, full, state⟩, bound, tailLength⟩ := absorbed.split
  have width := absorbed.width
  have restLength : (self.block.drop self.buffered).length = blockBytes - self.buffered := by
    rw [length_drop, width]
  unfold update
  by_cases waiting : 0 < self.buffered
  · rw [if_pos waiting]
    simp only
    split
    next closes =>
      -- The bytes close the buffered block, which is compressed before the rest.
      have inside := Nat.min_le_right (blockBytes - self.buffered) bytes.length
      generalize min (blockBytes - self.buffered) bytes.length = taken at closes inside ⊢
      have takenLength : (bytes.take taken).length = blockBytes - self.buffered := by
        rw [length_take]
        omega
      rw [Bytes.overwrite_full _ _ (takenLength.trans restLength.symm)]
      have blockLength : (self.block.take self.buffered ++ bytes.take taken).length =
          blockBytes := by
        rw [length_append, tailLength, takenLength]
        omega
      have message_eq : message ++ bytes =
          whole ++ (self.block.take self.buffered ++ bytes.take taken) ++ bytes.drop taken := by
        rw [split, append_assoc, append_assoc, append_assoc, take_append_drop]
      have longer : (whole ++ (self.block.take self.buffered ++ bytes.take taken)).length =
          (count + 1) * blockBytes := by
        rw [length_append, full, blockLength, Nat.succ_mul]
      rw [message_eq] at counted ⊢
      refine absorb_absorbed _ longer ?_ blockLength counted
      rw [compressed_append _ full, blockLength, ← state, Nat.div_self (by decide)]
      simp [Bytes.blocks, Bytes.block, Bytes.slice_all _ _ blockLength]
    next stays =>
      -- The bytes fit into the buffered block.
      have taken : min (blockBytes - self.buffered) bytes.length = bytes.length := by omega
      rw [taken, take_length]
      have blockLength : (self.block.take self.buffered ++ bytes).length =
          self.buffered + bytes.length := by
        rw [length_append, tailLength]
      have message_eq : message ++ bytes = whole ++ (self.block.take self.buffered ++ bytes) := by
        rw [split, append_assoc]
      rw [message_eq] at counted ⊢
      refine absorbed_of_short full (by omega) state blockLength.symm ?_ ?_ counted
      · simp [Bytes.overwrite, ← append_assoc]
      · rw [length_append, Bytes.length_overwrite _ _ (by omega), tailLength, restLength]
        omega
  · rw [if_neg waiting]
    have nothing : self.buffered = 0 := by omega
    rw [nothing, take_zero, append_nil] at split
    rw [split] at counted ⊢
    exact absorb_absorbed bytes full state width counted

/-- Two hashers that have seen one message answer one digest. -/
theorem Absorbed.finish_eq {first second : Sha256} (one : Absorbed first message)
    (other : Absorbed second message) : first.finish = second.finish := by
  have live := one.live.trans other.live.symm
  rw [one.buffered, other.buffered] at live
  simp [finish, one.state, other.state, one.counted, other.counted, one.buffered, other.buffered,
    live]

/-- The digest of a message does not depend on how it was fed. -/
theorem Absorbed.finish (absorbed : Absorbed self message) :
    self.finish = sha256 message :=
  absorbed.finish_eq (update_absorbed absorbed_new message)

section Each

variable {Item Index : Type}

/-- Feed a hasher the encodings of the items that are there. -/
def updateEach (encode : Item → Bytes) (item : Index → Option Item) (self : Sha256)
    (indices : List Index) : Sha256 :=
  indices.foldl (fun hasher index =>
    match item index with
    | none => hasher
    | some found => hasher.update (encode found)) self

theorem updateEach_absorbed
    (encode : Item → Bytes)
    (item : Index → Option Item)
    {self : Sha256}
    {message : Bytes}
    (absorbed : Absorbed self message)
    (indices : List Index) :
    Absorbed (updateEach encode item self indices)
      (message ++ ((indices.filterMap item).map encode).flatten) := by
  induction indices generalizing self message with
  | nil => simpa [updateEach] using absorbed
  | cons index rest ih =>
    cases found : item index with
    | none =>
      simp only [updateEach, foldl_cons, found, filterMap_cons]
      exact ih absorbed
    | some one =>
      have further := ih (update_absorbed absorbed (encode one))
      rw [append_assoc] at further
      simp only [updateEach, foldl_cons, found, filterMap_cons, map_cons, flatten_cons]
      exact further

end Each

/-- Pieces are absorbed as the whole is. -/
theorem absorbed_pieces (pieces : List Bytes) :
    Absorbed (pieces.foldl update new) pieces.flatten := by
  simpa [updateEach] using updateEach_absorbed id some absorbed_new pieces

/-- A message of any length has one digest, however it is fed. -/
theorem finish_pieces (pieces : List Bytes) :
    (pieces.foldl update new).finish = sha256 pieces.flatten :=
  (absorbed_pieces pieces).finish

end FSystem.Hash.Sha256
