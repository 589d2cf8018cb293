import FSystem.Blob.Store

/-!
# Writing a record and reading it back

What the store needs of a device, for any device: a write is read back and
changes nothing else.  From it: a record that was written whole is read back,
and a read depends only on the blocks of the record it reads.
-/

namespace FSystem.Blob

open Abi Hash Bytes List Header Nat

/-- A device whose valid states keep what is written to them. -/
class LawfulDevice (D : Type) [Device D] where
  Valid : D → Prop
  length_read : ∀ {device : D} {block : Nat} {bytes : Bytes}, Valid device →
    Device.read device block (Device.blockBytes device) = .ok bytes →
      bytes.length = Device.blockBytes device
  valid_write : ∀ {device : D} (block : Nat) (source : Bytes), Valid device →
    Valid (Device.write device block source).2
  blockBytes_write : ∀ (device : D) (block : Nat) (source : Bytes),
    Device.blockBytes (Device.write device block source).2 = Device.blockBytes device
  blocks_write : ∀ {device : D} (block : Nat) (source : Bytes), Valid device →
    Device.blocks (Device.write device block source).2 = Device.blocks device
  read_write_same : ∀ {device after : D} {block : Nat} {source : Bytes}, Valid device →
    Device.write device block source = (.ok (), after) →
      Device.read after block (Device.blockBytes device) = .ok source
  read_write_other : ∀ {device : D} {block : Nat} (source : Bytes) {other : Nat},
    Valid device → other ≠ block →
      Device.read (Device.write device block source).2 other (Device.blockBytes device) =
        Device.read device other (Device.blockBytes device)
  read_write_refused : ∀ {device after : D} {block : Nat} {source : Bytes}
    {refusal : Refusal}, Valid device →
    Device.write device block source = (.error refusal, after) → ∀ other,
      Device.read after other (Device.blockBytes device) =
        Device.read device other (Device.blockBytes device)
  valid_flush : ∀ {device : D}, Valid device → Valid (Device.flush device).2
  blockBytes_flush : ∀ device : D,
    Device.blockBytes (Device.flush device).2 = Device.blockBytes device
  blocks_flush : ∀ device : D, Device.blocks (Device.flush device).2 = Device.blocks device
  read_flush : ∀ (device : D) (block length : Nat),
    Device.read (Device.flush device).2 block length = Device.read device block length

section Span

variable {blockBytes : Nat}

/-- A record has a block for every block's worth of bytes it begins. -/
theorem lt_span (positive : 0 < blockBytes) (contentBytes index : Nat) :
    index < span blockBytes contentBytes ↔ index * blockBytes < bytes + contentBytes := by
  rw [span, Nat.lt_div_iff_mul_lt positive]
  omega

theorem span_pos (positive : 0 < blockBytes) (contentBytes : Nat) :
    0 < span blockBytes contentBytes := by
  rw [lt_span positive]
  simp [bytes]

/-- A record fits the blocks it takes. -/
theorem le_span_mul (positive : 0 < blockBytes) (contentBytes : Nat) :
    bytes + contentBytes ≤ span blockBytes contentBytes * blockBytes := by
  have := (lt_span positive contentBytes (span blockBytes contentBytes)).not.mp
  omega

end Span

namespace Store

variable {D : Type} [Device D]

open LawfulDevice

section Writing

variable [LawfulDevice D] {device after : D}

theorem write_keeps
    {block : Nat}
    {piece : Bytes}
    {answer : Except Refusal Unit}
    (valid : Valid device)
    (written : Device.write device block piece = (answer, after)) :
    Valid after ∧ Device.blockBytes after = Device.blockBytes device ∧
      Device.blocks after = Device.blocks device := by
  have kept := valid_write block piece valid
  have sameBytes := blockBytes_write device block piece
  have sameBlocks := blocks_write block piece valid
  rw [written] at kept sameBytes sameBlocks
  exact ⟨kept, sameBytes, sameBlocks⟩

section

variable (pieces : List Bytes) (block : Nat) (valid : Valid device)

include pieces block valid

theorem writeBlocks_keeps :
    Valid (writeBlocks device block pieces).2 ∧
      Device.blockBytes (writeBlocks device block pieces).2 = Device.blockBytes device ∧
      Device.blocks (writeBlocks device block pieces).2 = Device.blocks device := by
  fun_induction writeBlocks device block pieces with
  | case1 => exact ⟨valid, rfl, rfl⟩
  | case2 device block piece rest refusal next written => exact write_keeps valid written
  | case3 device block piece rest next written ih =>
    obtain ⟨validNext, sameBytes, sameBlocks⟩ := write_keeps valid written
    rw [← sameBytes, ← sameBlocks]
    exact ih validNext

/-- Writing some blocks changes no other block. -/
theorem read_writeBlocks_other (other : Nat)
    (outside : other < block ∨ block + pieces.length ≤ other) :
    Device.read (writeBlocks device block pieces).2 other (Device.blockBytes device) =
      Device.read device other (Device.blockBytes device) := by
  fun_induction writeBlocks device block pieces with
  | case1 => rfl
  | case2 device block piece rest refusal next written =>
    exact read_write_refused valid written other
  | case3 device block piece rest next written ih =>
    simp only [length_cons] at outside
    obtain ⟨validNext, sameBytes, -⟩ := write_keeps valid written
    have unseen := read_write_other piece valid (show other ≠ block by omega)
    rw [written] at unseen
    rw [← unseen, ← sameBytes]
    exact ih validNext (by omega)

/-- Blocks that were all written are read back. -/
theorem read_writeBlocks (ok : writeBlocks device block pieces = (.ok (), after)) {index : Nat}
    (inside : index < pieces.length) :
    Device.read after (block + index) (Device.blockBytes device) = .ok pieces[index] := by
  induction pieces generalizing device block index with
  | nil => cases inside
  | cons piece rest ih =>
    simp only [writeBlocks] at ok
    split at ok
    next => cases ok
    next next written =>
      obtain ⟨validNext, sameBytes, -⟩ := write_keeps valid written
      cases index with
      | zero =>
        have unseen := read_writeBlocks_other rest (block + 1) validNext block
          (.inl (Nat.lt_succ_self block))
        rw [sameBytes, ok] at unseen
        exact unseen.trans (read_write_same valid written)
      | succ index =>
        have later := ih (block + 1) validNext ok (Nat.lt_of_succ_lt_succ inside)
        rwa [sameBytes, add_assoc, add_comm 1 index] at later

end

end Writing

section Reading

variable {device after : D} {blockBytes : Nat}

/-- Blocks that hold the front of a string are read as that front. -/
theorem readRest_eq
    (positive : 0 < blockBytes)
    (bytes : Bytes)
    (fuel block remaining : Nat)
    (enough : remaining ≤ fuel)
    (long : remaining ≤ bytes.length)
    (reads : ∀ index, index * blockBytes < remaining →
      Device.read device (block + index) blockBytes = .ok (Bytes.block blockBytes bytes index)) :
    readRest device blockBytes fuel block remaining = .ok (bytes.take remaining) := by
  induction fuel generalizing bytes block remaining with
  | zero =>
    have : remaining = 0 := by omega
    simp [readRest, this]
  | succ fuel ih =>
    simp only [readRest]
    split
    next nothing => simp [nothing]
    next some =>
      have first := reads 0 (by omega)
      rw [add_zero] at first
      simp only [first]
      have later : readRest device blockBytes fuel (block + 1)
          (remaining - min blockBytes remaining) =
            .ok ((bytes.drop (min blockBytes remaining)).take
              (remaining - min blockBytes remaining)) := by
        apply ih
        · omega
        · simp only [length_drop]
          omega
        intro index inside
        have whole : min blockBytes remaining = blockBytes := by omega
        rw [whole] at inside ⊢
        have next := reads (index + 1) (by rw [succ_mul]; omega)
        rw [add_assoc, add_comm 1 index, next]
        simp only [Bytes.block, slice, drop_drop, succ_mul]
        rw [add_comm blockBytes]
      simp only [later]
      congr 1
      simp only [Bytes.block, slice, zero_mul, drop_zero, take_take]
      rw [min_eq_left (Nat.min_le_left _ _), ← take_add]
      congr 1
      omega

/-- A read depends only on the blocks it reads. -/
theorem readRest_congr (fuel block remaining : Nat)
    (same : ∀ index, index * blockBytes < remaining → Device.read after (block + index) blockBytes =
      Device.read device (block + index) blockBytes) :
    readRest after blockBytes fuel block remaining =
      readRest device blockBytes fuel block remaining := by
  induction fuel generalizing block remaining with
  | zero => rfl
  | succ fuel ih =>
    simp only [readRest]
    split
    next => rfl
    next some =>
      have first := same 0 (by omega)
      rw [add_zero] at first
      rw [first, ih]
      intro index inside
      have next := same (index + 1) (by
        rw [succ_mul]
        omega)
      rw [add_assoc, add_comm 1 index]
      exact next

variable [LawfulDevice D]

/-- What is read has the length asked for, and came from readable blocks. -/
theorem readRest_ok
    (valid : Valid device)
    (sized : blockBytes = Device.blockBytes device)
    (positive : 0 < blockBytes)
    (fuel block remaining : Nat)
    {content : Bytes}
    (enough : remaining ≤ fuel)
    (ok : readRest device blockBytes fuel block remaining = .ok content) :
    content.length = remaining ∧
      ∀ index, index * blockBytes < remaining →
        ∃ bytes, Device.read device (block + index) blockBytes = .ok bytes := by
  revert ok
  fun_induction readRest device blockBytes fuel block remaining generalizing content with
  | case1 block remaining =>
    rintro ⟨⟩
    simp [show remaining = 0 by omega]
  | case2 =>
    rintro ⟨⟩
    simp
  | case3 | case4 => nofun
  | case5 fuel block remaining some one first count rest later =>
    rename_i ih
    have isCount : count = min blockBytes remaining := rfl
    intro ok
    obtain rfl := Except.ok.inj ok
    obtain ⟨restLength, restReads⟩ := ih (by omega) later
    have oneLength : one.length = blockBytes := by
      rw [sized] at first ⊢
      exact length_read valid first
    constructor
    · simp only [length_append, length_take, oneLength, restLength]
      omega
    intro index inside
    cases index with
    | zero => exact ⟨one, first⟩
    | succ index =>
      rw [succ_mul] at inside
      rw [add_comm index, ← add_assoc]
      exact restReads index (by omega)

end Reading

section Record

variable {blockBytes : Nat} (kind : Kind) (content : Bytes)

/-- The padding after a record. -/
def padding (blockBytes : Nat) (content : Bytes) : Bytes :=
  zeros (span blockBytes content.length * blockBytes - (bytes + content.length))

theorem record_eq :
    record blockBytes kind content =
      (headerOf kind content).toBytes ++ (content ++ padding blockBytes content) := by
  simp [record, padding, overwrite, zeros, length_toBytes]

/-- A record fills its blocks. -/
theorem length_record (positive : 0 < blockBytes) :
    (record blockBytes kind content).length = span blockBytes content.length * blockBytes := by
  have fits := le_span_mul positive content.length
  rw [record_eq]
  simp only [length_append, length_toBytes, padding, length_zeros]
  omega

section

variable (roomy : bytes ≤ blockBytes)

include roomy

/-- The first block of a record opens with its header. -/
theorem headerAt_record :
    headerAt (Bytes.block blockBytes (record blockBytes kind content) 0) =
      .ok (headerOf kind content) := by
  have positive : 0 < blockBytes := lt_of_lt_of_le (by decide) roomy
  have total := length_record kind content positive
  have some := mul_le_mul_right blockBytes (span_pos positive content.length)
  have whole : (Bytes.block blockBytes (record blockBytes kind content) 0).length =
      blockBytes := by
    apply length_slice
    omega
  rw [headerAt, if_neg (by omega)]
  have front : (Bytes.block blockBytes (record blockBytes kind content) 0).take
      bytes = (headerOf kind content).toBytes := by
    simp only [Bytes.block, slice, zero_mul, drop_zero, take_take]
    rw [min_eq_left roomy, record_eq,
      take_append_of_le_length (by simp), take_of_length_le (by simp)]
  rw [front]
  exact fromBytes_toBytes _ rfl

omit roomy in
/-- A header is accepted for a hash when it is the header of that hash. -/
theorem headerIn_eq (block : Bytes) (hash : Digest) :
    headerIn block hash =
      match headerAt block with
      | .error refusal => .error refusal
      | .ok header => if header.hash ≠ hash then .error .content else .ok header := by
  unfold headerIn headerAt
  split <;> rfl

/-- The header of a record is read back. -/
theorem headerIn_record :
    headerIn (Bytes.block blockBytes (record blockBytes kind content) 0)
      (sha256 content) = .ok (headerOf kind content) := by
  rw [headerIn_eq, headerAt_record kind content roomy]
  simp [headerOf]

/-- The content in a record's first block. -/
theorem slice_first_block :
    slice (Bytes.block blockBytes (record blockBytes kind content) 0)
      bytes (min (blockBytes - bytes) content.length) =
        content.take (min (blockBytes - bytes) content.length) := by
  have header : (headerOf kind content).toBytes.length = bytes := by simp
  simp only [Bytes.block, slice, zero_mul, drop_zero, drop_take, take_take]
  rw [record_eq, drop_append_of_le_length (by omega), ← header,
    drop_length, nil_append, header,
    min_eq_left (by omega), take_append_of_le_length (by omega)]

/-- A later block of a record, in terms of what follows the first one. -/
theorem block_succ_record (index : Nat) :
    Bytes.block blockBytes (record blockBytes kind content) (index + 1) =
      Bytes.block blockBytes ((content ++ padding blockBytes content).drop
        (blockBytes - bytes)) index := by
  have header : (headerOf kind content).toBytes.length = bytes := by simp
  simp only [Bytes.block, slice, drop_drop]
  rw [record_eq, drop_append, header,
    drop_eq_nil_of_le (by rw [header, succ_mul]; omega), nil_append]
  congr 2
  rw [succ_mul]
  omega

end

end Record

/-- A whole record stands on a device, from some block on. -/
def HoldsRecord (device : D) (blockBytes start : Nat) (kind : Kind) (content : Bytes) :
    Prop :=
  ∀ index < span blockBytes content.length, Device.read device (start + index) blockBytes = .ok
    (Bytes.block blockBytes (record blockBytes kind content) index)

section Held

variable {self : Store D} {start : Nat} {kind : Kind} {content : Bytes}

/-- The header of a record that stands where the table says is read back. -/
theorem head_of_holds (roomy : bytes ≤ self.blockBytes)
    (located : self.located[sha256 content]? = some start)
    (holds : HoldsRecord self.device self.blockBytes start kind content) :
    self.head (sha256 content) = .ok (headerOf kind content) := by
  have positive : 0 < self.blockBytes := lt_of_lt_of_le (by decide) roomy
  have first := holds 0 (span_pos positive _)
  rw [add_zero] at first
  simp only [head, located, first]
  exact headerIn_record kind content roomy

/-- The content after a record's first block is read back. -/
theorem readRest_of_holds
    {device : D}
    {blockBytes : Nat}
    (roomy : bytes ≤ blockBytes)
    (holds : HoldsRecord device blockBytes start kind content)
    {first : Nat}
    (isFirst : first = min (blockBytes - bytes) content.length) :
    readRest device blockBytes (content.length - first) (start + 1)
      (content.length - first) = .ok (content.drop first) := by
  have positive : 0 < blockBytes := lt_of_lt_of_le (by decide) roomy
  rcases Nat.lt_or_ge (blockBytes - bytes) content.length with long | short
  · have first_eq : first = blockBytes - bytes := by omega
    subst first_eq
    have front : (((content ++ padding blockBytes content).drop
        (blockBytes - bytes)).take (content.length - (blockBytes - bytes))) =
        content.drop (blockBytes - bytes) := by
      rw [drop_append_of_le_length (by omega),
        take_append_of_le_length (by simp),
        take_of_length_le (by simp)]
    rw [← front]
    apply readRest_eq positive _ _ _ _ (Nat.le_refl _)
    · simp only [length_drop, length_append]
      omega
    intro index inside
    have within : index + 1 < span blockBytes content.length := by
      rw [lt_span positive, succ_mul]
      omega
    have reads := holds (index + 1) within
    rw [add_assoc, add_comm 1 index, reads, block_succ_record kind content roomy]
  · have first_eq : first = content.length := by omega
    subst first_eq
    simp [readRest]

/-- A record that stands where the table says is read back. -/
theorem get_of_holds
    (roomy : bytes ≤ self.blockBytes)
    (short : content.length < 2 ^ 64)
    (located : self.located[sha256 content]? = some start)
    (holds : HoldsRecord self.device self.blockBytes start kind content)
    (room : Nat) :
    self.get (sha256 content) room =
      if room < content.length then .error .shortBuffer else .ok content := by
  have positive : 0 < self.blockBytes := lt_of_lt_of_le (by decide) roomy
  have first := holds 0 (span_pos positive _)
  rw [add_zero] at first
  have length : (headerOf kind content).contentBytes.toNat = content.length :=
    UInt64.toNat_ofNat_of_lt short
  simp only [get, located, first, headerIn_record kind content roomy, length]
  split
  next => rfl
  next =>
    rw [readRest_of_holds roomy holds rfl, slice_first_block kind content roomy]
    simp

end Held

/-- A valid device with blocks of the superblock's size and room for a header. -/
structure Sound [LawfulDevice D] (store : Store D) : Prop where
  valid : Valid store.device
  sized : store.blockBytes = Device.blockBytes store.device
  roomy : bytes ≤ store.blockBytes

theorem Sound.positive [LawfulDevice D] {self : Store D} (sound : Sound self) :
    0 < self.blockBytes :=
  lt_of_lt_of_le (by decide) sound.roomy

section Get

variable {self after : Store D} {hash : Digest} {room : Nat} {content : Bytes}

/-- What a read found: the first block with its header, and the blocks after it. -/
structure Got (store : Store D) (hash : Digest) (start : Nat) (header : Header)
    (content : Bytes) : Prop where
  located : store.located[hash]? = some start
  head : store.head hash = .ok header
  length : content.length = header.contentBytes.toNat
  readable : ∀ index < span store.blockBytes content.length,
    ∃ bytes, Device.read store.device (start + index) store.blockBytes = .ok bytes

/-- The steps of a read that is not refused. -/
theorem get_steps (ok : self.get hash room = .ok content) :
    ∃ start one header rest,
      self.located[hash]? = some start ∧
      Device.read self.device start self.blockBytes = .ok one ∧
      headerIn one hash = .ok header ∧
      readRest self.device self.blockBytes
        (header.contentBytes.toNat -
          min (self.blockBytes - bytes) header.contentBytes.toNat) (start + 1)
        (header.contentBytes.toNat -
          min (self.blockBytes - bytes) header.contentBytes.toNat) = .ok rest ∧
      content = slice one bytes
        (min (self.blockBytes - bytes) header.contentBytes.toNat) ++ rest := by
  revert ok
  fun_cases get self hash room with
  | case7 start located one first header found _ _ _ rest later =>
    intro ok
    obtain rfl := Except.ok.inj ok
    exact ⟨start, one, header, rest, located, first, found, later, rfl⟩
  | _ => nofun

variable {header : Header}

/-- A header that is found is the one of the hash asked for, where the table says. -/
theorem head_ok (ok : self.head hash = .ok header) :
    ∃ start bytes, self.located[hash]? = some start ∧
      Device.read self.device start self.blockBytes = .ok bytes ∧
      headerAt bytes = .ok header ∧ header.hash = hash := by
  unfold head at ok
  split at ok
  · cases ok
  split at ok
  · cases ok
  rename_i start located _ bytes read
  rw [headerIn_eq] at ok
  split at ok
  · cases ok
  split at ok <;> cases ok
  rename_i found same
  exact ⟨start, bytes, located, read, found, not_not.mp same⟩

omit [Device D] in
theorem blockBytes_congr (superblock : after.superblock = self.superblock) :
    after.blockBytes = self.blockBytes := by
  rw [Store.blockBytes, Store.blockBytes, superblock]

/-- A header that can be read is read the same while its block is. -/
theorem head_congr (superblock : after.superblock = self.superblock)
    (located : after.located[hash]? = self.located[hash]?)
    (same : ∀ start bytes, self.located[hash]? = some start → Device.read self.device start
      self.blockBytes = .ok bytes → Device.read after.device start self.blockBytes = .ok bytes)
    (ok : self.head hash = .ok header) : after.head hash = .ok header := by
  have blockBytes := blockBytes_congr superblock
  rw [← ok]
  simp only [head, located, blockBytes] at ok ⊢
  cases found : self.located[hash]? with
  | none => rfl
  | some start =>
    cases read : Device.read self.device start self.blockBytes with
    | error refusal =>
      simp only [found, read] at ok
      cases ok
    | ok bytes => simp [same start bytes found read, read]

variable [LawfulDevice D]

/-- A read that is not refused found a whole record. -/
theorem get_ok (sound : Sound self) (ok : self.get hash room = .ok content) :
    ∃ start header, Got self hash start header content := by
  obtain ⟨start, one, header, rest, located, first, found, later, joined⟩ := get_steps ok
  have roomy := sound.roomy
  obtain ⟨restLength, restReads⟩ := readRest_ok sound.valid sound.sized
    sound.positive _ _ _ (Nat.le_refl _) later
  have oneLength : one.length = self.blockBytes := by
    have read := first
    rw [sound.sized] at read ⊢
    exact length_read sound.valid read
  have length : content.length = header.contentBytes.toNat := by
    rw [joined, length_append, restLength, length_slice one _ _ (by rw [oneLength]; omega)]
    omega
  refine ⟨start, header, located, ?_, length, ?_⟩
  · simp only [head, located, first]
    exact found
  intro index inside
  cases index with
  | zero => exact ⟨one, first⟩
  | succ index =>
    rw [add_comm index 1, ← add_assoc]
    apply restReads
    rw [lt_span sound.positive, succ_mul] at inside
    omega

/-- A blob that can be read is read the same while its blocks are. -/
theorem get_congr
    (sound : Sound self)
    (superblock : after.superblock = self.superblock)
    (located : after.located[hash]? = self.located[hash]?)
    (same : ∀ start header, self.located[hash]? = some start →
      self.head hash = .ok header →
      ∀ index < span self.blockBytes header.contentBytes.toNat, ∀ bytes,
        Device.read self.device (start + index) self.blockBytes = .ok bytes →
          Device.read after.device (start + index) self.blockBytes = .ok bytes)
    (ok : self.get hash room = .ok content) :
    after.get hash room = .ok content := by
  obtain ⟨start, header, got⟩ := get_ok sound ok
  have equal : ∀ index < span self.blockBytes header.contentBytes.toNat,
      Device.read after.device (start + index) self.blockBytes =
        Device.read self.device (start + index) self.blockBytes := by
    intro index inside
    obtain ⟨bytes, read⟩ := got.readable index (got.length ▸ inside)
    rw [read]
    exact same start header got.located got.head index inside bytes read
  have blockBytes := blockBytes_congr superblock
  have first := equal 0 (span_pos sound.positive _)
  rw [add_zero] at first
  rw [← ok]
  simp only [get, located, got.located, blockBytes, first]
  have head := got.head
  simp only [Store.head, got.located] at head
  cases read : Device.read self.device start self.blockBytes with
  | error refusal => rfl
  | ok one =>
    simp only [read] at head
    simp only [head]
    rw [readRest_congr]
    intro index inside
    have inside : index + 1 < span self.blockBytes header.contentBytes.toNat := by
      rw [lt_span sound.positive, succ_mul]
      omega
    rw [add_assoc, add_comm 1 index]
    exact equal (index + 1) inside

end Get

section Put

variable {self after : Store D} {kind : UInt16} {content : Bytes}

/-- What a put that wrote a record leaves. -/
structure PutFresh (before after : Store D) (kind : Kind) (content : Bytes) : Prop where
  fresh : before.located[sha256 content]? = none
  superblock : after.superblock = before.superblock
  located : after.located = before.located.insert (sha256 content) before.free
  free : after.free = before.free + span before.blockBytes content.length
  room : after.free ≤ Device.blocks before.device
  holds : HoldsRecord after.device before.blockBytes before.free kind content

variable {known : Kind} {hash : Digest}

theorem PutFresh.located_at (fresh : PutFresh self after known content) (hash : Digest) :
    after.located[hash]? =
      if sha256 content = hash then some self.free else self.located[hash]? := by
  rw [fresh.located, Std.TreeMap.getElem?_insert]
  simp only [Std.compare_eq_iff_eq]

/-- The record a put wrote stands where the table says. -/
theorem PutFresh.recorded (fresh : PutFresh self after known content) :
    after.located[sha256 content]? = some self.free ∧
      HoldsRecord after.device after.blockBytes self.free known content := by
  rw [fresh.located_at, if_pos rfl, blockBytes_congr fresh.superblock]
  exact ⟨rfl, fresh.holds⟩

/-- What a put does: nothing, or some writes from the free pointer on. -/
theorem put_cases (self : Store D) (kind : UInt16) (content : Bytes) :
    (∃ refusal, self.put kind content = (.error refusal, self)) ∨
      (∃ known, Kind.ofCode kind = some known ∧ self.located.contains (sha256 content) = true ∧
        self.put kind content = (.ok (sha256 content), self)) ∨
      ∃ known, Kind.ofCode kind = some known ∧
        self.located.contains (sha256 content) = false ∧
        self.free + span self.blockBytes content.length ≤ Device.blocks self.device ∧
        ∃ answer device, writeBlocks self.device self.free (Bytes.blocks self.blockBytes
          (record self.blockBytes known content) (span self.blockBytes content.length)) =
            (answer, device) ∧
          ((∃ refusal, self.put kind content = (.error refusal, { self with device := device })) ∨
          answer = .ok () ∧ self.put kind content = (.ok (sha256 content), { self with
            device := device
            located := self.located.insert (sha256 content) self.free
            free := self.free + span self.blockBytes content.length })) := by
  fun_cases put self kind content with
  | case1 => exact .inl ⟨.unknown, rfl⟩
  | case2 known found _ present => exact .inr (.inl ⟨known, found, present, rfl⟩)
  | case3 => exact .inl ⟨.full, rfl⟩
  | case4 known found _ absent _ room _ refusal device written =>
    exact .inr (.inr ⟨known, found, eq_false_of_ne_true absent, Nat.le_of_not_lt room, _, device,
      written, .inl ⟨refusal, rfl⟩⟩)
  | case5 known found _ absent _ room _ device written =>
    exact .inr (.inr ⟨known, found, eq_false_of_ne_true absent, Nat.le_of_not_lt room, _, device,
      written, .inr ⟨rfl, rfl⟩⟩)

/-- A put that wrote a record keeps what the table names. -/
theorem PutFresh.kept (fresh : PutFresh self after known content) {start : Nat}
    (located : self.located[hash]? = some start) : after.located[hash]? = some start := by
  have apart : ¬sha256 content = hash := by
    rintro rfl
    rw [fresh.fresh] at located
    cases located
  rw [fresh.located_at, if_neg apart, located]

variable [LawfulDevice D]

/-- A put never changes the superblock, the device's size or a block below the free pointer; and
no block when nothing is free. -/
structure PutKeeps (before after : Store D) : Prop where
  sound : Sound after
  superblock : after.superblock = before.superblock
  blocks : Device.blocks after.device = Device.blocks before.device
  read : ∀ block, block < before.free ∨ Device.blocks before.device ≤ before.free →
    Device.read after.device block before.blockBytes =
      Device.read before.device block before.blockBytes

/-- A put keeps the store sound, and what is below the free pointer. -/
theorem put_keeps (sound : Sound self) (kind : UInt16) (content : Bytes) :
    PutKeeps self (self.put kind content).2 := by
  have unchanged : PutKeeps self self := ⟨sound, rfl, rfl, fun _ _ => rfl⟩
  rcases put_cases self kind content with ⟨refusal, result⟩ | ⟨-, -, -, result⟩ |
      ⟨known, -, -, room, _, device, written, ⟨_, result⟩ | ⟨-, result⟩⟩
  iterate 2 exact result ▸ unchanged
  all_goals
    generalize Bytes.blocks self.blockBytes _ _ = parts at written
    obtain ⟨valid, blockBytes, blocks⟩ := writeBlocks_keeps parts self.free sound.valid
    have read := fun block (below : block < self.free) =>
      read_writeBlocks_other parts self.free sound.valid block (.inl below)
    rw [written] at valid blockBytes blocks read
    rw [result]
    refine ⟨⟨valid, sound.sized.trans blockBytes.symm, sound.roomy⟩, rfl, blocks, ?_⟩
    intro block outside
    rw [sound.sized]
    have some := span_pos sound.positive content.length
    exact read block (by omega)

/-- A put that is not refused either knew the content or wrote a record of it. -/
theorem put_ok (sound : Sound self) (ok : self.put kind content = (.ok hash, after)) :
    hash = sha256 content ∧ ∃ known, Kind.ofCode kind = some known ∧
      ((self.located.contains (sha256 content) = true ∧ after = self) ∨
        PutFresh self after known content) := by
  rcases put_cases self kind content with ⟨_, result⟩ | ⟨known, isKnown, present, result⟩ |
      ⟨known, isKnown, absent, room, _, device, written, ⟨_, result⟩ | ⟨rfl, result⟩⟩
  · cases result.symm.trans ok
  · cases result.symm.trans ok
    exact ⟨rfl, known, isKnown, .inl ⟨present, rfl⟩⟩
  · cases result.symm.trans ok
  cases result.symm.trans ok
  refine ⟨rfl, known, isKnown, .inr ⟨?_, rfl, rfl, rfl, room, ?_⟩⟩
  · exact Std.TreeMap.getElem?_eq_none_of_contains_eq_false absent
  intro index inside
  have read := read_writeBlocks _ _ sound.valid written (inside.trans_eq (length_blocks ..).symm)
  rw [← sound.sized] at read
  rw [read]
  simp [Bytes.blocks]

/-- A put leaves the table and the free pointer alone, or writes a record. -/
theorem put_leaves (sound : Sound self) (kind : UInt16) (content : Bytes) :
    ((self.put kind content).2.located = self.located ∧
        (self.put kind content).2.free = self.free) ∨
      ∃ known, PutFresh self (self.put kind content).2 known content := by
  rcases result : self.put kind content with ⟨answer, after⟩
  rcases put_cases self kind content with ⟨_, same⟩ | ⟨_, -, -, same⟩ |
      ⟨_, -, -, -, _, _, -, ⟨_, same⟩ | ⟨-, same⟩⟩
  iterate 3
    · cases result.symm.trans same
      exact .inl ⟨rfl, rfl⟩
  · cases result.symm.trans same
    obtain ⟨-, known, -, ⟨-, same⟩ | fresh⟩ := put_ok sound result
    · exact .inl ⟨congrArg located same, congrArg free same⟩
    · exact .inr ⟨known, fresh⟩

/-- What was stored is in the table. -/
theorem put_located (sound : Sound self) (ok : self.put kind content = (.ok hash, after)) :
    hash = sha256 content ∧ ∃ start, after.located[hash]? = some start := by
  obtain ⟨rfl, known, -, ⟨present, rfl⟩ | fresh⟩ := put_ok sound ok
  · rw [Std.TreeMap.contains_eq_isSome_getElem?, Option.isSome_iff_exists] at present
    exact ⟨rfl, present⟩
  · exact ⟨rfl, self.free, fresh.recorded.1⟩

/-- What puts of some contents, refused or not, make of a store. -/
inductive Puts (contents : List Bytes) (self : Store D) : Store D → Prop
  | refl : Puts contents self self
  | put {after : Store D} (kind : UInt16) {content : Bytes} (member : content ∈ contents)
      (puts : Puts contents self after) : Puts contents self (after.put kind content).2

namespace Puts

variable {contents : List Bytes}

theorem sound (puts : Puts contents self after) (sound : Sound self) : Sound after := by
  induction puts with
  | refl => exact sound
  | put kind member puts ih => exact (put_keeps ih kind _).sound

/-- The table keeps what it names and names some of the contents besides. -/
theorem located (puts : Puts contents self after) (sound : Sound self) :
    (∀ (hash : Digest) (start : Nat), self.located[hash]? = some start →
      after.located[hash]? = some start) ∧
    ∀ (hash : Digest) (start : Nat), after.located[hash]? = some start →
      self.located[hash]? = some start ∨ ∃ content ∈ contents, sha256 content = hash := by
  induction puts with
  | refl => exact ⟨fun _ _ found => found, fun _ _ found => .inl found⟩
  | put kind member puts ih =>
    rcases put_leaves (puts.sound sound) kind _ with ⟨same, -⟩ | ⟨known, fresh⟩
    · rw [same]
      exact ih
    refine ⟨fun hash start found => fresh.kept (ih.1 hash start found), ?_⟩
    intro hash start found
    rw [fresh.located_at] at found
    split at found
    next same => exact .inr ⟨_, member, same⟩
    next => exact ih.2 hash start found

omit [LawfulDevice D] in
theorem putChunks {origin : Store D} (puts : Puts contents origin self) (chunks : List Bytes)
    (among : ∀ chunk ∈ chunks, chunk ∈ contents) :
    Puts contents origin (self.putChunks chunks).2 := by
  induction chunks generalizing self with
  | nil => exact puts
  | cons chunk rest ih =>
    have first := puts.put Kind.chunk.code (among chunk mem_cons_self)
    unfold Store.putChunks
    rcases result : self.put Kind.chunk.code chunk with ⟨_ | hash, next⟩
    · rwa [result] at first
    rw [result] at first
    have later := ih first fun one member => among one (mem_cons_of_mem _ member)
    dsimp only
    rcases others : next.putChunks rest with ⟨_ | hashes, last⟩ <;> rwa [others] at later

end Puts

/-- The chunks of a list that is stored are in the table. -/
theorem putChunks_ok (sound : Sound self) {chunks : List Bytes} {hashes : List Digest}
    (ok : (self.putChunks chunks).1 = .ok hashes) :
    hashes = chunks.map sha256 ∧ ∀ chunk ∈ chunks, ∃ start,
      (self.putChunks chunks).2.located[sha256 chunk]? = some start := by
  induction chunks generalizing self hashes with
  | nil =>
    cases ok
    exact ⟨rfl, nofun⟩
  | cons chunk rest ih =>
    have soundNext := (put_keeps sound Kind.chunk.code chunk).sound
    unfold putChunks at ok ⊢
    rcases first : self.put Kind.chunk.code chunk with ⟨_ | hash, next⟩
    · rw [first] at ok
      cases ok
    rw [first] at ok soundNext
    have kept := ((Puts.putChunks .refl rest fun _ member => member).located soundNext).1
    have later := @ih next
    dsimp only at ok ⊢
    rcases others : next.putChunks rest with ⟨_ | tail, last⟩
    · rw [others] at ok
      cases ok
    rw [others] at ok kept later
    cases ok
    obtain ⟨rfl, start, located⟩ := put_located sound first
    obtain ⟨rfl, present⟩ := later soundNext rfl
    refine ⟨rfl, ?_⟩
    intro one member
    rcases mem_cons.mp member with rfl | member
    · exact ⟨start, kept _ start located⟩
    · exact present one member

/-- Storing an object puts its chunks, then their list; all parts are then in the table. -/
theorem putObject_puts (sound : Sound self) (bytes : Bytes) {object : Bytes}
    (isObject : objectContent bytes.length ((chunksOf bytes).map sha256) = object) :
    Puts (chunksOf bytes ++ [object]) self (self.putObject bytes).2 ∧
      ∀ hash, (self.putObject bytes).1 = .ok hash →
        hash = sha256 object ∧ ∀ part ∈ chunksOf bytes ++ [object], ∃ start,
          (self.putObject bytes).2.located[sha256 part]? = some start := by
  have puts : Puts (chunksOf bytes ++ [object]) self (self.putChunks (chunksOf bytes)).2 :=
    .putChunks .refl _ fun _ member => mem_append_left _ member
  have listed := @putChunks_ok D _ self _ sound (chunksOf bytes)
  unfold putObject
  rcases result : self.putChunks (chunksOf bytes) with ⟨_ | hashes, next⟩
  · rw [result] at puts
    exact ⟨puts, nofun⟩
  rw [result] at puts listed
  obtain ⟨rfl, present⟩ := listed rfl
  dsimp only
  split
  · exact ⟨puts, nofun⟩
  rw [isObject]
  have last := puts.put Kind.object.code (mem_append_right _ (mem_singleton_self object))
  refine ⟨last, ?_⟩
  intro hash ok
  obtain ⟨rfl, start, located⟩ := put_located (puts.sound sound) (Prod.ext ok rfl)
  refine ⟨rfl, ?_⟩
  intro part member
  rcases mem_append.mp member with chunk | isLast
  · obtain ⟨start, located⟩ := present part chunk
    exact ⟨start, ((Puts.put _ (mem_singleton_self _) .refl).located (puts.sound sound)).1 _ start
      located⟩
  · rw [mem_singleton.mp isLast]
    exact ⟨start, located⟩

end Put

end Store

namespace Memory

/-- What a write to memory does. -/
theorem write_cases (self : Memory) (block : Nat) (source : Bytes) :
    (∃ refusal, self.write block source = (.error refusal, self)) ∨
      ∃ addressable, source.length = self.blockBytes ∧
        block * self.blockBytes + source.length ≤ self.bytes.length ∧
        self.write block source = (.ok (), { self with
          bytes := splice self.bytes (block * self.blockBytes) source
          addressable := addressable }) := by
  unfold write
  split
  next => exact .inl ⟨.address, rfl⟩
  next same =>
    split
    next inside =>
      have fits := (congrArg (block * self.blockBytes + ·) (not_not.mp same)).trans_le inside
      exact .inr ⟨length_splice _ _ _ fits ▸ self.addressable, not_not.mp same, fits, rfl⟩
    next => exact .inl ⟨.address, rfl⟩

variable {block : Nat} {self : Memory}

/-- Two blocks of one width do not overlap. -/
theorem blocks_apart {width other : Nat} (apart : other ≠ block) :
    other * width + width ≤ block * width ∨ block * width + width ≤ other * width := by
  rcases Nat.lt_or_gt_of_ne apart with below | above
  · left
    rw [← succ_mul]
    exact mul_le_mul_right width below
  · right
    rw [← succ_mul]
    exact mul_le_mul_right width above

theorem length_of_read_ok {length : Nat} {bytes : Bytes} (ok : self.read block length = .ok bytes) :
    bytes.length = self.blockBytes := by
  unfold read at ok
  split at ok
  · cases ok
  split at ok
  next inside =>
    cases ok
    exact length_slice _ _ _ inside
  next => cases ok

theorem read_write_same {after : Memory} {source : Bytes}
    (ok : self.write block source = (.ok (), after)) :
    after.read block self.blockBytes = .ok source := by
  rcases self.write_cases block source with ⟨_, result⟩ | ⟨addressable, same, fits, result⟩
  · cases result.symm.trans ok
  cases result.symm.trans ok
  have back := slice_splice_same _ _ _ fits
  have kept := length_splice _ _ _ fits
  rw [same] at fits back
  simp [read, Memory.inside, kept, fits, back]

theorem read_write_other {other : Nat} (source : Bytes) (apart : other ≠ block) :
    (self.write block source).2.read other self.blockBytes = self.read other self.blockBytes := by
  rcases self.write_cases block source with ⟨_, result⟩ | ⟨addressable, same, fits, result⟩ <;>
    rw [result]
  have kept := length_splice _ _ _ fits
  have unseen := slice_splice_other self.bytes (block * self.blockBytes) source
    (other * self.blockBytes) self.blockBytes fits (same ▸ blocks_apart apart)
  refine if_congr Iff.rfl rfl (if_congr ?_ (congrArg _ unseen) rfl)
  simp [Memory.inside, kept]

instance : LawfulDevice Memory where
  Valid _ := True
  length_read _ ok := length_of_read_ok ok
  valid_write _ _ _ := trivial
  blockBytes_write device block source := by
    rcases device.write_cases block source with ⟨_, result⟩ | ⟨_, -, -, result⟩ <;>
      exact congrArg (fun pair => pair.2.blockBytes) result
  blocks_write {device} block source _ := by
    rcases device.write_cases block source with ⟨_, result⟩ | ⟨_, same, fits, result⟩
    · exact congrArg (fun pair => pair.2.bytes.length / pair.2.blockBytes) result
    have blocks := congrArg (fun pair => pair.2.bytes.length / pair.2.blockBytes) result
    rwa [length_splice _ _ _ fits] at blocks
  read_write_same _ ok := Memory.read_write_same ok
  read_write_other source _ _ apart := Memory.read_write_other source apart
  read_write_refused {device after block source refusal} _ refused other := by
    rcases device.write_cases block source with ⟨_, result⟩ | ⟨_, -, -, result⟩ <;>
      cases result.symm.trans refused
    rfl
  valid_flush _ := trivial
  blockBytes_flush _ := rfl
  blocks_flush _ := rfl
  read_flush _ _ _ := rfl

end Memory

end FSystem.Blob
