import FSystem.Blob.Laws

/-!
# What a mount finds

A mount walks the device once, from header to header.  The walk as a relation
between cursors, what it keeps, and what of it depends on which blocks.
-/

namespace FSystem.Blob

open Abi Hash

/-- Where a scan stands and what it has found. -/
structure Cursor where
  block : Nat
  free : Nat
  located : Std.TreeMap Digest Nat

namespace Cursor

/-- Where every scan begins. -/
def start : Cursor := ⟨1, 1, ∅⟩

/-- The cursor after a block without a header. -/
def nextBlock (self : Cursor) : Cursor := { self with block := self.block + 1 }

/-- The cursor after a record of some blocks, on a device of some blocks. -/
def past (self : Cursor) (blocks count : Nat) (hash : Digest) : Cursor where
  block := min (2 ^ 64 - 1) (self.block + count)
  free := min (min (2 ^ 64 - 1) (self.block + count)) blocks
  located := self.located.insertIfNew hash self.block

end Cursor

namespace Store

variable {D : Type} [Device D] (device : D)

/-- The header a scan takes a block for. -/
def scanned (device : D) (block : Nat) : Option Header :=
  match Device.read device block (Device.blockBytes device) with
  | .error _ => none
  | .ok bytes =>
    match headerAt bytes with
    | .error _ => none
    | .ok header => if 2 ^ 64 ≤ Header.bytes + header.contentBytes.toNat then none else some header

/-- One turn of a scan. -/
def advance (device : D) (cursor : Cursor) : Cursor :=
  match scanned device cursor.block with
  | none => cursor.nextBlock
  | some header => cursor.past (Device.blocks device)
      (span (Device.blockBytes device) header.contentBytes.toNat) header.hash

/-- A scan gets from one cursor to another. -/
def Scans (device : D) : Cursor → Cursor → Prop :=
  Relation.ReflTransGen fun before after =>
    before.block < Device.blocks device ∧ after = advance device before

/-- A scan, one turn unrolled. -/
theorem scan_succ (fuel : Nat) (cursor : Cursor) (inside : cursor.block < Device.blocks device) :
    scan device (fuel + 1) cursor.block cursor.free cursor.located =
      scan device fuel (advance device cursor).block (advance device cursor).free
        (advance device cursor).located := by
  simp only [scan, inside, if_true, advance, scanned]
  cases Device.read device cursor.block (Device.blockBytes device) with
  | error refusal => rfl
  | ok bytes =>
    simp only
    cases headerAt bytes with
    | error refusal => rfl
    | ok header =>
      simp only
      split <;> rfl

theorem scan_past (fuel : Nat) (cursor : Cursor) (outside : Device.blocks device ≤ cursor.block) :
    scan device fuel cursor.block cursor.free cursor.located = (cursor.free, cursor.located) := by
  cases fuel with
  | zero => rfl
  | succ fuel => simp [scan, Nat.not_lt.mpr outside]

/-- Every turn of a scan moves on. -/
theorem lt_advance (cursor : Cursor) (positive : 0 < Device.blockBytes device)
    (addressable : cursor.block + 1 < 2 ^ 64) : cursor.block < (advance device cursor).block := by
  unfold advance
  split
  next => exact Nat.lt_succ_self _
  next header _ =>
    have some := span_pos positive header.contentBytes.toNat
    simp only [Cursor.past]
    omega

/-- A scan ends at what it answers. -/
theorem scan_scans
    (fuel : Nat)
    (cursor : Cursor)
    (positive : 0 < Device.blockBytes device)
    (addressable : Device.blocks device < 2 ^ 64)
    (enough : Device.blocks device ≤ cursor.block + fuel) :
    ∃ last, Scans device cursor last ∧
      scan device fuel cursor.block cursor.free cursor.located = (last.free, last.located) := by
  induction fuel generalizing cursor with
  | zero => exact ⟨cursor, .refl, rfl⟩
  | succ fuel ih =>
    by_cases inside : cursor.block < Device.blocks device
    · have moves := lt_advance device cursor positive (by omega)
      obtain ⟨last, scans, answer⟩ := ih (advance device cursor) (by omega)
      refine ⟨last, .head ⟨inside, rfl⟩ scans, ?_⟩
      rw [scan_succ device fuel cursor inside]
      exact answer
    · exact ⟨cursor, .refl, scan_past device _ cursor (Nat.le_of_not_lt inside)⟩

/-- Every address a scan lists is the first block of a record it stepped over. -/
structure Found (device : D) (cursor : Cursor) : Prop where
  free_pos : 0 < cursor.free
  free_le : cursor.free ≤ cursor.block
  below : ∀ (hash : Digest) (start : Nat), cursor.located[hash]? = some start → start < cursor.free
  within : ∀ (hash : Digest) (start : Nat), cursor.located[hash]? = some start →
    ∃ header, scanned device start = some header ∧ header.hash = hash ∧
      (start + span (Device.blockBytes device) header.contentBytes.toNat ≤ cursor.free ∨
        Device.blocks device ≤ cursor.free)

theorem found_start : Found device Cursor.start :=
  ⟨Nat.one_pos, Nat.le_refl _, by simp [Cursor.start], by simp [Cursor.start]⟩

/-- The table after a record: what it had, and the record if its hash is new. -/
theorem located_past
    (cursor : Cursor)
    (blocks count : Nat)
    (hash other : Digest)
    (start : Nat)
    (located : (cursor.past blocks count hash).located[other]? = some start) :
    cursor.located[other]? = some start ∨
      other = hash ∧ start = cursor.block := by
  simp only [Cursor.past, Std.TreeMap.getElem?_insertIfNew] at located
  split at located
  next new =>
    cases located
    have same := Std.LawfulEqOrd.eq_of_compare new.1
    subst same
    exact .inr ⟨rfl, rfl⟩
  next => exact .inl located

variable {device : D}

/-- The step lemma. -/
theorem found_advance
    {cursor : Cursor}
    (positive : 0 < Device.blockBytes device)
    (addressable : Device.blocks device < 2 ^ 64)
    (inside : cursor.block < Device.blocks device)
    (found : Found device cursor) : Found device (advance device cursor) := by
  have free := found.free_le
  unfold advance
  cases isHeader : scanned device cursor.block with
  | none => exact ⟨found.free_pos, Nat.le_succ_of_le free, found.below, found.within⟩
  | some header =>
    have some := span_pos positive header.contentBytes.toNat
    have grown : cursor.block < (cursor.past (Device.blocks device)
        (span (Device.blockBytes device) header.contentBytes.toNat) header.hash).free := by
      simp only [Cursor.past]
      omega
    change Found device (cursor.past (Device.blocks device)
      (span (Device.blockBytes device) header.contentBytes.toNat) header.hash)
    refine ⟨Nat.lt_of_le_of_lt (Nat.zero_le _) grown, Nat.min_le_left _ _, ?_, ?_⟩
    · intro hash start located
      rcases located_past _ _ _ _ _ _ located with before | ⟨-, rfl⟩
      · have := found.below hash start before
        omega
      · exact grown
    · intro hash start located
      rcases located_past _ _ _ _ _ _ located with before | ⟨rfl, rfl⟩
      · obtain ⟨other, isOther, names, bound⟩ := found.within hash start before
        exact ⟨other, isOther, names, by omega⟩
      · refine ⟨header, isHeader, rfl, ?_⟩
        simp only [Cursor.past]
        omega

/-- The run lemma. -/
theorem found_scans
    {before after : Cursor}
    (positive : 0 < Device.blockBytes device)
    (addressable : Device.blocks device < 2 ^ 64)
    (scans : Scans device before after)
    (found : Found device before) : Found device after := by
  induction scans with
  | refl => exact found
  | tail _ turn ih =>
    obtain ⟨inside, rfl⟩ := turn
    exact found_advance positive addressable inside ih

/-- What formatting a device does. -/
theorem format_ok {layout : Superblock} {store : Store D} (ok : format device layout = .ok store) :
    minBlockBytes ≤ layout.blockBytes.toNat ∧
      layout.blockBytes.toNat = Device.blockBytes device ∧
      ∃ block, store = ⟨(Device.flush (Device.write device 0 block).2).2, layout, 1, ∅⟩ := by
  revert ok
  fun_cases format device layout with
  | case6 sized _ _ block written writes flushed flushes => ?_
  | _ => nofun
  rintro ⟨⟩
  simp only [not_or, not_lt, ne_eq, not_not] at sized
  refine ⟨sized.1, sized.2, block, ?_⟩
  rw [writes, flushes]

/-- What mounting a device does. -/
theorem mount_ok {store : Store D} (ok : mount device = .ok store) :
    ∃ block, Device.read device 0 (Device.blockBytes device) = .ok block ∧
      Superblock.bytes ≤ block.length ∧
      store.superblock.blockBytes.toNat = Device.blockBytes device ∧
      store = ⟨device, store.superblock, (scan device (Device.blocks device) 1 1 ∅).1,
        (scan device (Device.blocks device) 1 1 ∅).2⟩ := by
  revert ok
  fun_cases mount device with
  | case6 block read long superblock _ sized =>
    rintro ⟨⟩
    exact ⟨block, read, Nat.le_of_not_lt long, not_not.mp sized, rfl⟩
  | _ => nofun

end Store

end FSystem.Blob
