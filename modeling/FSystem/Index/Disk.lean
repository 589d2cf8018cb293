import FSystem.Blob.Laws
import FSystem.Library.Writeback

/-!
# A disk that loses power

Blocks on stable media, and the writes a barrier has not reached yet.  A read sees the
writes; a power cut leaves, of each of them, none of its bytes, all of them or the
first few.
-/

namespace FSystem.Index

open Abi Blob

/-- A device with a write cache. -/
structure Disk where
  blockBytes : Nat
  blocks : Nat
  /-- What is on stable media. -/
  media : Nat → Bytes
  /-- The writes since the last barrier, oldest first. -/
  queue : List (Nat × Bytes)
  length_media : ∀ block, (media block).length = blockBytes
  length_queue : ∀ write ∈ queue, write.2.length = blockBytes

namespace Disk

variable (self : Disk)

/-- A disk of zeroed blocks. -/
def new (blockBytes blocks : Nat) : Disk where
  blockBytes := blockBytes
  blocks := blocks
  media _ := Bytes.zeros blockBytes
  queue := []
  length_media _ := Bytes.length_zeros blockBytes
  length_queue _ member := absurd member List.not_mem_nil

/-- What a read sees. -/
def seen : Nat → Bytes := Writeback.settle self.media self.queue

/-- Read one block. -/
def read (block length : Nat) : Except Refusal Bytes :=
  if length ≠ self.blockBytes ∨ self.blocks ≤ block then .error .address
  else .ok (self.seen block)

/-- Hold one more write back. -/
def hold (block : Nat) (source : Bytes) (fits : source.length = self.blockBytes) : Disk where
  blockBytes := self.blockBytes
  blocks := self.blocks
  media := self.media
  queue := self.queue ++ [(block, source)]
  length_media := self.length_media
  length_queue := by
    intro write member
    rcases List.mem_append.1 member with earlier | last
    · exact self.length_queue write earlier
    · rw [List.mem_singleton.1 last]
      exact fits

/-- Write one block. -/
def write (block : Nat) (source : Bytes) : Except Refusal Unit × Disk :=
  if fits : source.length = self.blockBytes ∧ block < self.blocks then
    (.ok (), self.hold block source fits.1)
  else (.error .address, self)

/-- A barrier: every write reaches the media. -/
def flush : Disk where
  blockBytes := self.blockBytes
  blocks := self.blocks
  media := self.seen
  queue := []
  length_media := Writeback.length_settle self.length_media self.length_queue
  length_queue _ member := absurd member List.not_mem_nil

/-- A power cut: so many bytes of each write reach the media. -/
def cut (lengths : List Nat) : Disk where
  blockBytes := self.blockBytes
  blocks := self.blocks
  media := Writeback.land self.media self.queue lengths
  queue := []
  length_media := Writeback.length_land self.length_media self.length_queue lengths
  length_queue _ member := absurd member List.not_mem_nil

instance : Device Disk where
  blockBytes := Disk.blockBytes
  blocks := Disk.blocks
  read := Disk.read
  write := Disk.write
  flush self := (.ok (), self.flush)

variable {self} {source : Bytes}

/-- A cut loses nothing of a disk that holds nothing back. -/
theorem cut_of_settled (settled : self.queue = []) (lengths : List Nat) :
    self.cut lengths = self := by
  obtain ⟨blockBytes, blocks, media, queue, lengthMedia, lengthQueue⟩ := self
  cases settled
  rfl

variable {block : Nat}

theorem read_eq (inside : block < self.blocks) :
    Device.read self block self.blockBytes = .ok (self.seen block) := by
  apply if_neg
  rintro (narrow | outside)
  · exact narrow rfl
  · omega

/-- What a write can do: it is refused and nothing changes, or it is held back. -/
theorem write_cases {answer : Except Refusal Unit} {after : Disk}
    (written : Device.write self block source = (answer, after)) :
    ((∃ refusal, answer = .error refusal) ∧ after = self) ∨
      ∃ fits : source.length = self.blockBytes, block < self.blocks ∧ answer = .ok () ∧
        after = self.hold block source fits := by
  have unfolded : self.write block source = (answer, after) := written
  unfold write at unfolded
  by_cases fits : source.length = self.blockBytes ∧ block < self.blocks
  · rw [dif_pos fits] at unfolded
    cases unfolded
    exact .inr ⟨fits.1, fits.2, rfl, rfl⟩
  · rw [dif_neg fits] at unfolded
    cases unfolded
    exact .inl ⟨⟨_, rfl⟩, rfl⟩

theorem seen_hold (fits : source.length = self.blockBytes) :
    (self.hold block source fits).seen = Function.update self.seen block source :=
  Writeback.settle_concat _ _ _

/-- A disk that holds one more write back reads the same everywhere else. -/
theorem read_hold_other {other : Nat} (fits : source.length = self.blockBytes)
    (apart : other ≠ block) (length : Nat) :
    (self.hold block source fits).read other length = self.read other length := by
  unfold read
  rw [seen_hold, Function.update_of_ne apart]
  rfl

instance : LawfulDevice Disk where
  Valid _ := True
  length_read := by
    intro device block bytes _ read
    have unfolded : device.read block device.blockBytes = .ok bytes := read
    unfold Disk.read at unfolded
    split at unfolded
    · cases unfolded
    · cases unfolded
      exact Writeback.length_settle device.length_media device.length_queue block
  valid_write _ _ _ := trivial
  blockBytes_write := by
    intro device block source
    change (device.write block source).2.blockBytes = _
    fun_cases device.write block source <;> rfl
  blocks_write := by
    intro device block source _
    change (device.write block source).2.blocks = _
    fun_cases device.write block source <;> rfl
  read_write_same := by
    intro device after block source _ written
    rcases write_cases written with ⟨⟨_, refused⟩, -⟩ | ⟨fits, inside, -, rfl⟩
    · cases refused
    · have read := @read_eq (device.hold block source fits) _ inside
      rw [seen_hold, Function.update_self] at read
      exact read
  read_write_other := by
    intro device block source other _ apart
    rcases written : Device.write device block source with ⟨answer, after⟩
    rcases write_cases written with ⟨-, rfl⟩ | ⟨fits, -, -, rfl⟩
    · rfl
    · exact read_hold_other fits apart _
  read_write_refused := by
    intro device after block source refusal _ written other
    rcases write_cases written with ⟨-, rfl⟩ | ⟨_, _, accepted, _⟩
    · rfl
    · cases accepted
  valid_flush _ := trivial
  blockBytes_flush _ := rfl
  blocks_flush _ := rfl
  read_flush _ _ _ := rfl

end Disk

end FSystem.Index
