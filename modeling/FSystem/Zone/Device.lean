import FSystem.Blob.Device

/-!
# The zoned device

Zones of equal length, the first conventional and the others written only at
their write pointer.  The device keeps the journal of what it was asked to do,
which is what a power cut is cut out of.
-/

namespace FSystem.Zone

open Abi

/-- The shape of a device this host can address. -/
structure Geometry where
  blockBytes : Nat
  zoneBlocks : Nat
  zoneCount : Nat
  zonesFit : zoneCount < 2 ^ 32
  addressable : blockBytes * (zoneBlocks * zoneCount) < 2 ^ 64

/-- How a zone may be written. -/
inductive Kind
  | conventional
  | sequentialWriteRequired
  deriving DecidableEq

/-- Only the first zone may be written in place. -/
def kindOf (zone : Nat) : Kind :=
  if zone = 0 then .conventional else .sequentialWriteRequired

namespace Geometry

/-- The zone a block lies in. -/
def zoneOf (g : Geometry) (block : Nat) : Option Nat :=
  if block / g.zoneBlocks < g.zoneCount then some (block / g.zoneBlocks) else none

/-- The first block of a zone. -/
def startOf (g : Geometry) (zone : Nat) : Nat := zone * g.zoneBlocks

/-- Whether a zone takes appends at all. -/
def sequential (g : Geometry) (zone : Nat) : Bool :=
  decide (zone < g.zoneCount ∧ kindOf zone = .sequentialWriteRequired)

/-- Whether a block lies in a zone. -/
def inZone (g : Geometry) (zone block : Nat) : Bool :=
  decide (g.startOf zone ≤ block ∧ block < g.startOf zone + g.zoneBlocks)

end Geometry

/-- Where a zone's write pointer stands. -/
inductive Pointer
  | empty
  | opened
  | full
  deriving DecidableEq

/-- What a device says about one of its zones. -/
structure Report where
  zone : Nat
  kind : Kind
  start : Nat
  blocks : Nat
  writePointer : Nat
  state : Pointer
  deriving DecidableEq

/-- One operation a device was asked for and did not refuse. -/
inductive Op
  | write (block : Nat) (bytes : Bytes)
  | append (block : Nat) (bytes : Bytes)
  | finish (zone : Nat)
  | reset (zone : Nat)
  | flush
  deriving DecidableEq

/-- A zoned device in memory. -/
structure ZonedMemory (g : Geometry) where
  /-- The bytes of each block. -/
  contents : Nat → Bytes
  /-- A block is a block. -/
  length_contents : ∀ block, (contents block).length = g.blockBytes
  /-- How many blocks of each zone are written. -/
  written : Nat → Nat
  /-- A zone does not run past its end. -/
  written_le : ∀ zone, written zone ≤ g.zoneBlocks
  /-- Whether a zone was finished. -/
  sealed : Nat → Bool
  /-- The operations the device took, oldest first. -/
  journal : List Op

namespace Geometry

theorem kindOf_eq_conventional (zone : Nat) : kindOf zone = .conventional ↔ zone = 0 := by
  unfold kindOf
  split <;> simp_all

theorem kindOf_eq_sequential (zone : Nat) : kindOf zone = .sequentialWriteRequired ↔ zone ≠ 0 := by
  unfold kindOf
  split <;> simp_all

variable (g : Geometry)

theorem sequential_eq_true (zone : Nat) :
    g.sequential zone = true ↔ zone < g.zoneCount ∧ zone ≠ 0 := by
  simp [sequential, kindOf_eq_sequential]

/-- A block lies in the zone its number divides into. -/
theorem inZone_eq_true (zone block : Nat) (positive : 0 < g.zoneBlocks) :
    g.inZone zone block = true ↔ block / g.zoneBlocks = zone := by
  rw [inZone, decide_eq_true_iff, startOf, Nat.div_eq_iff positive]
  omega

/-- A block's place inside its zone. -/
theorem sub_startOf (block : Nat) :
    block - g.startOf (block / g.zoneBlocks) = block % g.zoneBlocks := by
  rw [startOf, Nat.mod_eq_sub_div_mul]

theorem startOf_add_div (zone offset : Nat) (inside : offset < g.zoneBlocks) :
    (g.startOf zone + offset) / g.zoneBlocks = zone := by
  rw [startOf, Nat.mul_comm, Nat.mul_add_div (by omega), Nat.div_eq_of_lt inside, Nat.add_zero]

theorem startOf_add_mod (zone offset : Nat) (inside : offset < g.zoneBlocks) :
    (g.startOf zone + offset) % g.zoneBlocks = offset := by
  rw [startOf, Nat.mul_comm, Nat.mul_add_mod, Nat.mod_eq_of_lt inside]

end Geometry

namespace ZonedMemory

variable {g : Geometry}

/-- A zeroed device. -/
def new (g : Geometry) : ZonedMemory g where
  contents := fun _ => Bytes.zeros g.blockBytes
  length_contents := fun _ => Bytes.length_zeros _
  written := fun _ => 0
  written_le := fun _ => Nat.zero_le _
  sealed := fun _ => false
  journal := []

variable (self : ZonedMemory g)

/-- Note one operation in the journal. -/
def record (op : Op) : ZonedMemory g :=
  { self with journal := self.journal ++ [op] }

/-- Replace the bytes of one block. -/
def setBlock (block : Nat) (bytes : Bytes) (whole : bytes.length = g.blockBytes) : ZonedMemory g :=
  { self with
    contents := fun other => if other = block then bytes else self.contents other
    length_contents := by
      intro other
      split
      · exact whole
      · exact self.length_contents other }

/-- Move a zone's write pointer. -/
def setWritten (zone count : Nat) (inside : count ≤ g.zoneBlocks) : ZonedMemory g :=
  { self with
    written := fun other => if other = zone then count else self.written other
    written_le := by
      intro other
      split
      · exact inside
      · exact self.written_le other }

/-- Read one block.  Past a sequential zone's write pointer there is nothing. -/
def read (block length : Nat) : Except Refusal Bytes :=
  if length ≠ g.blockBytes then .error .address
  else
    match g.zoneOf block with
    | none => .error .address
    | some zone =>
      if kindOf zone = .sequentialWriteRequired ∧
          self.written zone ≤ block - g.startOf zone then
        .error .address
      else .ok (self.contents block)

/-- Write one block in place, which only the conventional zone allows. -/
def write (self : ZonedMemory g) (block : Nat) (source : Bytes) :
    Except Refusal (ZonedMemory g) :=
  if whole : source.length = g.blockBytes then
    match g.zoneOf block with
    | none => .error .address
    | some zone =>
      if kindOf zone = .sequentialWriteRequired then .error .address
      else .ok ((self.setBlock block source whole).record (.write block source))
  else .error .address

/-- The barrier. -/
def flush (self : ZonedMemory g) : ZonedMemory g := self.record .flush

/-- What the device says about a zone. -/
def report (zone : Nat) : Except Refusal Report :=
  if g.zoneCount ≤ zone then .error .address
  else
    let start := g.startOf zone
    let written := self.written zone
    let full := self.sealed zone || written == g.zoneBlocks
    .ok {
      zone := zone
      kind := kindOf zone
      start := start
      blocks := g.zoneBlocks
      writePointer := if full then start + g.zoneBlocks else start + written
      state := if full then .full else if written = 0 then .empty else .opened }

/-- Append one block at a zone's write pointer and say where it went. -/
def append (self : ZonedMemory g) (zone : Nat) (source : Bytes) :
    Except Refusal (Nat × ZonedMemory g) :=
  if whole : source.length = g.blockBytes then
    if g.sequential zone then
      if room : self.sealed zone = false ∧ self.written zone < g.zoneBlocks then
        let block := g.startOf zone + self.written zone
        .ok (block,
          ((self.setBlock block source whole).setWritten zone
            (self.written zone + 1) room.2).record (.append block source))
      else .error .full
    else .error .address
  else .error .address

/-- Close a zone to appends. -/
def finish (self : ZonedMemory g) (zone : Nat) : Except Refusal (ZonedMemory g) :=
  if g.sequential zone then
    .ok ({ self with
      sealed := fun other => if other = zone then true else self.sealed other
      }.record (.finish zone))
  else .error .address

/-- Empty a zone: zero its blocks and rewind its write pointer. -/
def reset (self : ZonedMemory g) (zone : Nat) : Except Refusal (ZonedMemory g) :=
  if g.sequential zone then
    .ok ({ self with
      contents := fun block =>
        if g.inZone zone block then Bytes.zeros g.blockBytes
        else self.contents block
      length_contents := by
        intro block
        split
        · exact Bytes.length_zeros _
        · exact self.length_contents block
      written := fun other => if other = zone then 0 else self.written other
      written_le := by
        intro other
        split
        · exact Nat.zero_le _
        · exact self.written_le other
      sealed := fun other => if other = zone then false else self.sealed other
      }.record (.reset zone))
  else .error .address

/-- Whether a block holds something a read returns. -/
def Readable (block : Nat) : Prop :=
  block / g.zoneBlocks < g.zoneCount ∧
    (block / g.zoneBlocks = 0 ∨ block % g.zoneBlocks < self.written (block / g.zoneBlocks))

instance (self : ZonedMemory g) (block : Nat) : Decidable (self.Readable block) :=
  inferInstanceAs (Decidable (_ ∧ _))

/-- A read of one block, in closed form. -/
theorem read_eq (block : Nat) :
    self.read block g.blockBytes =
      if self.Readable block then .ok (self.contents block) else .error .address := by
  unfold read Readable Geometry.zoneOf
  by_cases inside : block / g.zoneBlocks < g.zoneCount
  · simp only [inside, if_true, true_and, Geometry.kindOf_eq_sequential,
      Geometry.sub_startOf]
    by_cases conventional : block / g.zoneBlocks = 0
    · simp [conventional]
    · by_cases written :
        self.written (block / g.zoneBlocks) ≤ block % g.zoneBlocks
      · simp [conventional, written]
      · simp [conventional, written, Nat.lt_of_not_le written]
  · simp [inside]

variable {block : Nat}

/-- Devices that agree on a block and what of it is written answer the same read. -/
theorem read_congr {left right : ZonedMemory g} (bytes : right.contents block = left.contents block)
    (pointer : right.written (block / g.zoneBlocks) = left.written (block / g.zoneBlocks)) :
    right.read block g.blockBytes = left.read block g.blockBytes := by
  have readable : right.Readable block ↔ left.Readable block := by
    unfold Readable
    rw [pointer]
  simp [read_eq, readable, bytes]

section Operations

variable {self after : ZonedMemory g}

theorem length_of_read_ok {bytes : Bytes} (ok : self.read block g.blockBytes = .ok bytes) :
    bytes.length = g.blockBytes := by
  rw [read_eq] at ok
  split at ok
  · cases ok
    exact self.length_contents block
  · cases ok

variable {source : Bytes} {zone block : Nat}

section

variable (ok : self.append zone source = .ok (block, after))
include ok

/-- What an append that is not refused does. -/
theorem append_ok :
    source.length = g.blockBytes ∧ zone < g.zoneCount ∧ zone ≠ 0 ∧
      self.sealed zone = false ∧ self.written zone < g.zoneBlocks ∧
      block = g.startOf zone + self.written zone ∧
      after.contents = (fun other => if other = block then source else self.contents other) ∧
      after.written = (fun other =>
        if other = zone then self.written zone + 1 else self.written other) ∧
      after.sealed = self.sealed ∧
      after.journal = self.journal ++ [.append block source] := by
  revert ok
  fun_cases append self zone source with
  | case1 whole sequential room =>
    intro ok
    obtain ⟨rfl, rfl⟩ := Prod.mk.inj (Except.ok.inj ok)
    obtain ⟨zoneInside, notFirst⟩ := (g.sequential_eq_true zone).mp sequential
    exact ⟨whole, zoneInside, notFirst, room.1, room.2, rfl, rfl, rfl, rfl, rfl⟩
  | _ => nofun

/-- Where the block of an append stands. -/
theorem append_place : block / g.zoneBlocks = zone ∧ block % g.zoneBlocks = self.written zone := by
  obtain ⟨-, -, -, -, room, place, -⟩ := append_ok ok
  rw [place]
  exact ⟨g.startOf_add_div zone _ room, g.startOf_add_mod zone _ room⟩

/-- An append is read back, and changes no other read. -/
theorem read_append (other : Nat) :
    after.read other g.blockBytes =
      if other = block then .ok source else self.read other g.blockBytes := by
  obtain ⟨-, zoneInside, -, -, room, place, contents, written, -, -⟩ := append_ok ok
  obtain ⟨divides, offset⟩ := append_place ok
  by_cases same : other = block
  · subst same
    rw [read_eq, if_pos rfl, if_pos]
    · simp [contents]
    · refine ⟨by rw [divides]; exact zoneInside, .inr ?_⟩
      rw [written, divides, offset]
      simp
  · rw [if_neg same, read_eq, read_eq]
    have sameBytes : after.contents other = self.contents other := by simp [contents, same]
    have sameReadable : after.Readable other ↔ self.Readable other := by
      unfold Readable
      rw [written]
      by_cases sameZone : other / g.zoneBlocks = zone
      · have apart : other % g.zoneBlocks ≠ self.written zone := by
          intro equal
          apply same
          rw [place, ← equal, ← sameZone, Geometry.startOf, Nat.mul_comm]
          exact (Nat.div_add_mod other g.zoneBlocks).symm
        simp only [sameZone, if_true]
        refine and_congr_right fun _ => or_congr_right ?_
        omega
      · simp [sameZone]
    simp [sameBytes, sameReadable]

end

variable {zone : Nat}

/-- What a finish that is not refused does. -/
theorem finish_ok (ok : self.finish zone = .ok after) :
    after.contents = self.contents ∧ after.written = self.written ∧
      after.journal = self.journal ++ [.finish zone] := by
  unfold finish at ok
  split at ok
  · cases ok
    exact ⟨rfl, rfl, rfl⟩
  · cases ok

/-- What a reset that is not refused does. -/
theorem reset_ok (ok : self.reset zone = .ok after) :
    after.contents = (fun block =>
        if g.inZone zone block then Bytes.zeros g.blockBytes else self.contents block) ∧
      after.written = (fun other => if other = zone then 0 else self.written other) ∧
      after.sealed = (fun other => if other = zone then false else self.sealed other) ∧
      after.journal = self.journal ++ [.reset zone] := by
  unfold reset at ok
  split at ok
  · cases ok
    exact ⟨rfl, rfl, rfl, rfl⟩
  · cases ok

/-- A reset changes no read outside the zone it empties. -/
theorem read_reset (positive : 0 < g.zoneBlocks)
    (ok : self.reset zone = .ok after) (outside : block / g.zoneBlocks ≠ zone) :
    after.read block g.blockBytes = self.read block g.blockBytes := by
  obtain ⟨contents, written, -, -⟩ := reset_ok ok
  apply read_congr
  · rw [contents]
    have : ¬g.inZone zone block = true := by
      rw [g.inZone_eq_true zone block positive]
      exact outside
    simp [this]
  · simp [written, outside]

/-- What a write in place that is not refused does. -/
theorem write_ok (ok : self.write block source = .ok after) :
    block / g.zoneBlocks = 0 ∧ 0 < g.zoneCount ∧
      after.contents = (fun other => if other = block then source else self.contents other) ∧
      after.written = self.written ∧ after.sealed = self.sealed ∧
      after.journal = self.journal ++ [.write block source] := by
  unfold write Geometry.zoneOf at ok
  split at ok
  · by_cases inside : block / g.zoneBlocks < g.zoneCount
    · simp only [inside, if_true] at ok
      split at ok
      · cases ok
      rename_i conventional
      cases ok
      rw [Geometry.kindOf_eq_sequential, not_not] at conventional
      exact ⟨conventional, by omega, rfl, rfl, rfl, rfl⟩
    · simp only [inside, if_false] at ok
      cases ok
  · cases ok

/-- A write in place is read back, and changes no other read. -/
theorem read_write (ok : self.write block source = .ok after) (other : Nat) :
    after.read other g.blockBytes =
      if other = block then .ok source else self.read other g.blockBytes := by
  obtain ⟨conventional, inside, contents, written, -, -⟩ := write_ok ok
  by_cases same : other = block
  · subst same
    rw [read_eq, if_pos rfl, if_pos ⟨by omega, .inl conventional⟩]
    simp [contents]
  · rw [if_neg same]
    exact read_congr (by simp [contents, same]) (by rw [written])

end Operations

end ZonedMemory

end FSystem.Zone
