import FSystem.Abi.Records

/-!
# Entries of the index log

One entry says what a name means in a namespace, or that it means nothing.  A log is
read block by block; four zero bytes are where a block's entries stop, and anything
else must decode or be refused.
-/

namespace FSystem.Index

open Abi Hash Bytes

/-- The magic number of an entry. -/
def magic : UInt32 := 0x58495f46

/-- How many bytes of every entry precede its name. -/
def headBytes : Nat := 44

/-- The longest name. -/
def nameMax : Nat := 448

/-- The widest an entry encodes to. -/
def entryMaxBytes : Nat := headBytes + nameMax

namespace Ns

def path : UInt8 := 1
def «meta» : UInt8 := 2
def attr : UInt8 := 3
def pin : UInt8 := 4

/-- Whether this is a namespace this build knows. -/
def known (value : UInt8) : Bool :=
  value == path || value == «meta» || value == attr || value == pin

end Ns

namespace Op

def set : UInt8 := 1
def remove : UInt8 := 2

/-- Whether this is an operation this build knows. -/
def known (value : UInt8) : Bool := value == set || value == remove

end Op

/-- One record in the log. -/
structure Entry where
  namespace_ : UInt8
  op : UInt8
  /-- The content address the name means, or zeros for a removal. -/
  hash : Digest
  name : Bytes
  deriving DecidableEq

/-- How many bytes an entry with a name of some length encodes to. -/
def entryBytes (nameBytes : Nat) : Except Refusal Nat :=
  if nameBytes = 0 ∨ nameMax < nameBytes then .error .malformed
  else .ok (headBytes + nameBytes)

/-- Whether the four bytes at an offset are zero. -/
def paddingAt (raw : Bytes) (offset : Nat) : Bool :=
  if offset + 4 ≤ raw.length then slice raw offset 4 == zeros 4 else true

namespace Entry

variable (self : Entry)

/-- How many bytes this entry encodes to. -/
def encodedBytes : Except Refusal Nat := entryBytes self.name.length

/-- The bytes that precede the name. -/
def head : Bytes :=
  wordBytes magic ++ (shortBytes (UInt16.ofNat (headBytes + self.name.length)) ++
    ([self.namespace_, self.op] ++ (self.hash.bytes ++
    (shortBytes (UInt16.ofNat self.name.length) ++ shortBytes 0))))

/-- The entry as the log holds it. -/
def toBytes : Bytes := self.head ++ self.name

/-- Encode into a buffer of some length, which must be exactly the entry's. -/
def toSlice (room : Nat) : Except Refusal Bytes :=
  match self.encodedBytes with
  | .error refusal => .error refusal
  | .ok bytes =>
    if room ≠ bytes then .error .malformed
    else if ¬Ns.known self.namespace_ ∨ ¬Op.known self.op then .error .unknown
    else .ok self.toBytes

/-- Decode the entry at the start of a string. -/
def fromSlice (raw : Bytes) : Except Refusal Entry :=
  if raw.length < headBytes then .error .malformed
  else if word raw 0 ≠ magic then .error .malformed
  else
    let declared := (short raw 4).toNat
    let nameBytes := (short raw 40).toNat
    match entryBytes nameBytes with
    | .error refusal => .error refusal
    | .ok bytes =>
      if declared ≠ bytes ∨ raw.length < declared then .error .malformed
      else if short raw 42 ≠ 0 then .error .unknown
      else if ¬Ns.known (raw.getD 6 0) ∨ ¬Op.known (raw.getD 7 0) then .error .unknown
      else .ok ⟨raw.getD 6 0, raw.getD 7 0, digest raw 8,
        slice raw headBytes (declared - headBytes)⟩

/-- An entry the log can hold. -/
structure Valid (entry : Entry) : Prop where
  named : entry.name.length ≠ 0
  bounded : entry.name.length ≤ nameMax
  namespace_ : Ns.known entry.namespace_ = true
  op : Op.known entry.op = true

@[simp] theorem length_head : self.head.length = headBytes := by
  simp [head, headBytes, self.hash.length_eq]

@[simp] theorem length_toBytes : self.toBytes.length = headBytes + self.name.length := by
  simp [toBytes]

variable {self}

theorem Valid.encodedBytes_eq (valid : self.Valid) :
    self.encodedBytes = .ok (headBytes + self.name.length) := by
  unfold Entry.encodedBytes entryBytes
  rw [if_neg]
  have named := valid.named
  have bounded := valid.bounded
  omega

theorem Valid.toSlice_eq (valid : self.Valid) :
    self.toSlice (headBytes + self.name.length) = .ok self.toBytes := by
  unfold Entry.toSlice
  rw [valid.encodedBytes_eq]
  simp [valid.namespace_, valid.op]

/-- What was encoded is decoded, whatever follows it in the block. -/
theorem Valid.fromSlice_toBytes (valid : self.Valid) (rest : Bytes) :
    fromSlice (self.toBytes ++ rest) = .ok self := by
  have bounded := valid.bounded
  unfold nameMax at bounded
  have declared : (UInt16.ofNat (headBytes + self.name.length)).toNat =
      headBytes + self.name.length :=
    UInt16.toNat_ofNat_of_lt (by unfold headBytes UInt16.size; omega)
  have counted : (UInt16.ofNat self.name.length).toNat = self.name.length :=
    UInt16.toNat_ofNat_of_lt (by unfold UInt16.size; omega)
  have split : self.toBytes ++ rest = wordBytes magic ++
      (shortBytes (UInt16.ofNat (headBytes + self.name.length)) ++
      ([self.namespace_, self.op] ++ (self.hash.bytes ++
      (shortBytes (UInt16.ofNat self.name.length) ++ (shortBytes 0 ++ (self.name ++ rest)))))) := by
    simp [toBytes, head]
  have fields : word (self.toBytes ++ rest) 0 = magic ∧ short (self.toBytes ++ rest) 4 =
      UInt16.ofNat (headBytes + self.name.length) ∧ digest (self.toBytes ++ rest) 8 = self.hash ∧
      short (self.toBytes ++ rest) 40 = UInt16.ofNat self.name.length ∧
      short (self.toBytes ++ rest) 42 = 0 := by
    rw [split]
    refine ⟨?_, ?_, ?_, ?_, ?_⟩ <;> simp (disch := simp [self.hash.length_eq]) only [word, short,
      digest, slice_append_right, slice_append_head, length_wordBytes, length_shortBytes,
      self.hash.length_eq, List.length_cons, List.length_nil, Nat.reduceAdd, Nat.reduceSub,
      ofNat_toNat_wordBytes, ofNat_toNat_shortBytes, Digest.ofBytes_bytes]
  obtain ⟨opens, declares, hashed, names, zero⟩ := fields
  have codes : (self.toBytes ++ rest).getD 6 0 = self.namespace_ ∧
      (self.toBytes ++ rest).getD 7 0 = self.op := by
    rw [split]
    constructor <;> simp [List.getElem?_append_right]
  have calls : slice (self.toBytes ++ rest) headBytes self.name.length = self.name := by
    rw [toBytes, List.append_assoc, slice_append_right _ _ _ _ (by simp), length_head,
      Nat.sub_self, slice_append_head _ _ _ rfl]
  unfold Entry.fromSlice
  rw [if_neg (by simp; omega), if_neg (not_not.2 opens)]
  dsimp only
  rw [declares, names, declared, counted, show entryBytes self.name.length = _ from
    valid.encodedBytes_eq]
  dsimp only
  rw [if_neg (by simp), if_neg (not_not.2 zero), codes.1, codes.2,
    if_neg (by simp [valid.namespace_, valid.op]), hashed, Nat.add_sub_cancel_left, calls]

/-- An entry does not begin with padding. -/
theorem paddingAt_toBytes (rest : Bytes) : paddingAt (self.toBytes ++ rest) 0 = false := by
  unfold paddingAt
  rw [if_pos (by simp [headBytes]; omega)]
  have opens : slice (self.toBytes ++ rest) 0 4 = wordBytes magic := by
    simp only [toBytes, head, List.append_assoc]
    exact slice_append_head _ _ _ (by simp)
  rw [opens]
  decide

variable {kept lost : Nat}

/-- An entry of which anything is there is not padding. -/
theorem paddingAt_torn (some_ : 0 < kept) (room : headBytes ≤ kept + lost) :
    paddingAt (self.toBytes.take kept ++ zeros lost) 0 = false := by
  unfold paddingAt
  unfold headBytes at room
  rw [if_pos (by simp [headBytes]; omega)]
  obtain ⟨-, rfl⟩ := Nat.exists_eq_succ_of_ne_zero (by omega : kept ≠ 0)
  -- The first byte of the magic is there, and it is not zero.
  rfl

/-- An entry cut off in its first forty bytes has no magic, or no length for its name. -/
theorem fromSlice_torn (some_ : 0 < kept) (short : kept ≤ 40) (room : headBytes ≤ kept + lost) :
    ∃ refusal, fromSlice (self.toBytes.take kept ++ zeros lost) = .error refusal := by
  unfold headBytes at room
  unfold fromSlice
  rw [if_neg (by simp [headBytes]; omega)]
  by_cases opens : word (self.toBytes.take kept ++ zeros lost) 0 = magic
  · rw [if_neg (not_not.2 opens)]
    have nameless : Abi.short (self.toBytes.take kept ++ zeros lost) 40 = 0 := by
      have length : (self.toBytes.take kept).length = kept := by simp [headBytes]; omega
      have blank : slice (self.toBytes.take kept ++ zeros lost) 40 2 =
          zeros 2 := by
        rw [slice_append_right _ _ _ _ (by omega), length]
        simp only [slice, zeros, List.drop_replicate, List.take_replicate]
        rw [Nat.min_eq_left (by omega)]
      unfold Abi.short
      rw [blank]
      decide
    rw [nameless]
    exact ⟨_, rfl⟩
  · rw [if_pos opens]
    exact ⟨_, rfl⟩

end Entry

end FSystem.Index
