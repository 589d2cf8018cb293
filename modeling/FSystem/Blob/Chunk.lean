import FSystem.Env.Split

/-!
# The content-defined chunker

The gear table and the mask are drawn from labelled streams; the chunker rolls
the gear over the bytes and cuts where the masked register is zero, far enough
from the last candidate and the last cut, or at the largest chunk.
-/

namespace FSystem.Blob

open Env

/-- The name of the gear table: `f-blob gear v1`. -/
def gearName : Bytes :=
  [0x66, 0x2d, 0x62, 0x6c, 0x6f, 0x62, 0x20, 0x67, 0x65, 0x61, 0x72, 0x20, 0x76, 0x31]

/-- The name of the mask: `f-blob mask v2`. -/
def maskName : Bytes :=
  [0x66, 0x2d, 0x62, 0x6c, 0x6f, 0x62, 0x20, 0x6d, 0x61, 0x73, 0x6b, 0x20, 0x76, 0x32]

/-- The smallest distance between two cuts. -/
def chunkMinBytes : Nat := 16 * 1024

/-- The chunk size the mask aims at. -/
def chunkTargetBytes : Nat := 64 * 1024

/-- The largest chunk. -/
def chunkMaxBytes : Nat := 256 * 1024

/-- How many bits of the register the mask looks at. -/
def maskBits : Nat := 16

/-- The first `count` words of a stream. -/
def drawn : Nat → Stream → List UInt64
  | 0, _ => []
  | count + 1, stream =>
    let next := stream.nextU64
    next.1 :: drawn count next.2

/-- The gear table. -/
def gearTable : List UInt64 := drawn 256 (Stream.fromSeed (label gearName))

/-- Set `missing` more bits of a mask at drawn positions.  The source draws until there are
enough distinct ones; the fuel bounds the draws. -/
def spread : Nat → Nat → Stream → UInt64 → UInt64
  | 0, _, _, mask => mask
  | _ + 1, 0, _, mask => mask
  | fuel + 1, missing + 1, stream, mask =>
    let next := stream.nextU64
    let bit := (1 : UInt64) <<< (next.1 % 63)
    if mask &&& bit = 0 then spread fuel missing next.2 (mask ||| bit)
    else spread fuel (missing + 1) next.2 mask

/-- The mask. -/
def mask : UInt64 :=
  spread 256 (maskBits - 1) (Stream.fromSeed (label maskName)) ((1 : UInt64) <<< 63)

/-- The zero byte's entry is the negated fixed point the source names, and sixteen bits of the
mask are set. -/
example :
    gearTable.getD 0 0 = 0 - 0x127ee44bae552daa ∧
      ((List.range 64).filter fun bit => mask.toNat.testBit bit).length = 16 := by
  decide +kernel

/-- A chunker in progress. -/
structure Chunker where
  register : UInt64
  sinceCandidate : Nat
  sinceCut : Nat

namespace Chunker

/-- A chunker at the start of a stream. -/
def new : Chunker := ⟨0, 0, 0⟩

/-- Roll one byte in, and say whether a chunk ends after it. -/
def step (self : Chunker) (byte : UInt8) : Bool × Chunker :=
  let register := (self.register <<< 1) + gearTable.getD byte.toNat 0
  let sinceCut := self.sinceCut + 1
  let sinceCandidate :=
    if self.sinceCandidate < chunkMinBytes then self.sinceCandidate + 1
    else self.sinceCandidate
  let candidate := register &&& mask = 0
  if candidate ∧ chunkMinBytes ≤ sinceCandidate ∧ chunkMinBytes ≤ sinceCut then
    (true, ⟨register, 0, 0⟩)
  else
    let sinceCandidate := if candidate then 0 else sinceCandidate
    if sinceCut = chunkMaxBytes then (true, ⟨register, sinceCandidate, 0⟩)
    else (false, ⟨register, sinceCandidate, sinceCut⟩)

/-- Feed bytes from `position` on: where chunks end, and the chunker afterwards. -/
def feed (self : Chunker) : Nat → Bytes → List Nat × Chunker
  | _, [] => ([], self)
  | position, byte :: rest =>
    let stepped := self.step byte
    let fed := stepped.2.feed (position + 1) rest
    (if stepped.1 then (position + 1) :: fed.1 else fed.1, fed.2)

/-- The length of the chunk the stream ends in. -/
def finish (self : Chunker) : Nat := self.sinceCut

end Chunker

end FSystem.Blob
