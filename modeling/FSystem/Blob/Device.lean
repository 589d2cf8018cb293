import FSystem.Abi.Records

/-!
# Block devices

The interface the store writes to, and the device that runs in memory.  A read
names the length of the buffer it fills, since a device refuses a buffer that
is not one block long.
-/

namespace FSystem.Blob

open Abi

/-- A block device as the store needs it.  A write or a barrier may change it even when refused. -/
class Device (D : Type) where
  blockBytes : D → Nat
  blocks : D → Nat
  read : D → Nat → Nat → Except Refusal Bytes
  write : D → Nat → Bytes → Except Refusal Unit × D
  flush : D → Except Refusal Unit × D

/-- Blocks in memory. -/
structure Memory where
  /-- The length of a block. -/
  blockBytes : Nat
  /-- The contents, end to end. -/
  bytes : Bytes
  /-- A vector's length is a machine word. -/
  addressable : bytes.length < 2 ^ 64

namespace Memory

/-- A zeroed device. -/
def new (blockBytes blocks : Nat) (addressable : blockBytes * blocks < 2 ^ 64) :
    Memory where
  blockBytes := blockBytes
  bytes := Bytes.zeros (blockBytes * blocks)
  addressable := by simpa using addressable

/-- Whether a block lies inside the device. -/
def inside (self : Memory) (block : Nat) : Prop :=
  block * self.blockBytes + self.blockBytes ≤ self.bytes.length

instance (self : Memory) (block : Nat) : Decidable (self.inside block) :=
  inferInstanceAs (Decidable (_ ≤ _))

/-- Read one block. -/
def read (self : Memory) (block length : Nat) : Except Refusal Bytes :=
  if length ≠ self.blockBytes then .error .address
  else if self.inside block then
    .ok (Bytes.slice self.bytes (block * self.blockBytes) self.blockBytes)
  else .error .address

/-- Write one block. -/
def write (self : Memory) (block : Nat) (source : Bytes) :
    Except Refusal Unit × Memory :=
  if same : source.length ≠ self.blockBytes then (.error .address, self)
  else if inside : self.inside block then
    (.ok (), { self with
      bytes := Bytes.splice self.bytes (block * self.blockBytes) source
      addressable := by
        rw [Bytes.length_splice _ _ _ (by
          rw [not_not.mp same]
          exact inside)]
        exact self.addressable })
  else (.error .address, self)

instance : Device Memory where
  blockBytes := Memory.blockBytes
  blocks self := self.bytes.length / self.blockBytes
  read := Memory.read
  write := Memory.write
  flush self := (.ok (), self)

end Memory

end FSystem.Blob
