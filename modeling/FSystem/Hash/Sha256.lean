import FSystem.Library.Bytes

/-!
# SHA-256

The streaming hasher of the `hash` crate: the chained state, the partial block,
and the length so far.  Every content address in the store is the digest this
module computes, and `Digest` is the type of those addresses.
-/

namespace FSystem.Hash

/-- Thirty-two bytes: a content address. -/
@[ext] structure Digest where
  /-- The bytes, in the order the standard produces them. -/
  bytes : Bytes
  /-- There are exactly thirty-two of them. -/
  length_eq : bytes.length = 32
  deriving DecidableEq

namespace Digest

/-- Digests are ordered bytewise, as an array of bytes is. -/
instance : Ord Digest where
  compare left right := compare left.bytes right.bytes

instance : Std.TransOrd Digest where
  eq_swap := by
    intro left right
    change compare left.bytes right.bytes = (compare right.bytes left.bytes).swap
    exact Std.OrientedOrd.eq_swap
  isLE_trans := by
    intro first second third lower upper
    change (compare first.bytes third.bytes).isLE
    exact Std.TransOrd.isLE_trans lower upper

instance : Std.LawfulEqOrd Digest where
  eq_of_compare := by
    intro left right equal
    change compare left.bytes right.bytes = .eq at equal
    exact Digest.ext (Std.LawfulEqOrd.eq_of_compare equal)

/-- The first thirty-two bytes of a string, padded with zeros when it is
shorter. -/
def ofBytes (bytes : Bytes) : Digest where
  bytes := (bytes ++ Bytes.zeros 32).take 32
  length_eq := by simp [Bytes.zeros]

@[simp] theorem ofBytes_bytes (digest : Digest) : ofBytes digest.bytes = digest := by
  ext1
  simp only [ofBytes]
  rw [List.take_append_of_le_length (by simp [digest.length_eq])]
  exact List.take_of_length_le (by simp [digest.length_eq])

/-- The digest of zero bytes, which the format uses for "no root". -/
def zero : Digest := ofBytes []

end Digest

/-- The block SHA-256 compresses, in bytes. -/
def blockBytes : Nat := 64

/-- Where the length field starts in the final block, in bytes. -/
def lengthOffset : Nat := blockBytes - 8

/-- The round constants. -/
def roundConstants : List UInt32 := [
  0x428a2f98, 0x71374491, 0xb5c0fbcf, 0xe9b5dba5,
  0x3956c25b, 0x59f111f1, 0x923f82a4, 0xab1c5ed5,
  0xd807aa98, 0x12835b01, 0x243185be, 0x550c7dc3,
  0x72be5d74, 0x80deb1fe, 0x9bdc06a7, 0xc19bf174,
  0xe49b69c1, 0xefbe4786, 0x0fc19dc6, 0x240ca1cc,
  0x2de92c6f, 0x4a7484aa, 0x5cb0a9dc, 0x76f988da,
  0x983e5152, 0xa831c66d, 0xb00327c8, 0xbf597fc7,
  0xc6e00bf3, 0xd5a79147, 0x06ca6351, 0x14292967,
  0x27b70a85, 0x2e1b2138, 0x4d2c6dfc, 0x53380d13,
  0x650a7354, 0x766a0abb, 0x81c2c92e, 0x92722c85,
  0xa2bfe8a1, 0xa81a664b, 0xc24b8b70, 0xc76c51a3,
  0xd192e819, 0xd6990624, 0xf40e3585, 0x106aa070,
  0x19a4c116, 0x1e376c08, 0x2748774c, 0x34b0bcb5,
  0x391c0cb3, 0x4ed8aa4a, 0x5b9cca4f, 0x682e6ff3,
  0x748f82ee, 0x78a5636f, 0x84c87814, 0x8cc70208,
  0x90befffa, 0xa4506ceb, 0xbef9a3f7, 0xc67178f2]

/-- The eight chaining words. -/
structure Words where
  a : UInt32
  b : UInt32
  c : UInt32
  d : UInt32
  e : UInt32
  f : UInt32
  g : UInt32
  h : UInt32
  deriving DecidableEq

namespace Words

/-- The initial state. -/
def initial : Words where
  a := 0x6a09e667
  b := 0xbb67ae85
  c := 0x3c6ef372
  d := 0xa54ff53a
  e := 0x510e527f
  f := 0x9b05688c
  g := 0x1f83d9ab
  h := 0x5be0cd19

/-- Wordwise addition. -/
def add (left right : Words) : Words where
  a := left.a + right.a
  b := left.b + right.b
  c := left.c + right.c
  d := left.d + right.d
  e := left.e + right.e
  f := left.f + right.f
  g := left.g + right.g
  h := left.h + right.h

end Words

/-- Rotate a word right. -/
def rotateRight (word amount : UInt32) : UInt32 :=
  (word >>> amount) ||| (word <<< (32 - amount))

/-- The big-endian words of a block. -/
def wordsOf : Bytes → List UInt32
  | first :: second :: third :: fourth :: rest =>
    (first.toUInt32 <<< 24 ||| second.toUInt32 <<< 16 |||
      third.toUInt32 <<< 8 ||| fourth.toUInt32) :: wordsOf rest
  | _ => []

/-- Extend the message schedule, newest word first, by `count` words. -/
def extendSchedule : Nat → List UInt32 → List UInt32
  | 0, words => words
  | count + 1, words =>
    let fifteen := words.getD 14 0
    let two := words.getD 1 0
    let s0 := rotateRight fifteen 7 ^^^ rotateRight fifteen 18 ^^^ (fifteen >>> 3)
    let s1 := rotateRight two 17 ^^^ rotateRight two 19 ^^^ (two >>> 10)
    extendSchedule count ((words.getD 15 0 + s0 + words.getD 6 0 + s1) :: words)

/-- One round. -/
def compressRound (state : Words) (constant word : UInt32) : Words :=
  let s1 := rotateRight state.e 6 ^^^ rotateRight state.e 11 ^^^ rotateRight state.e 25
  let ch := (state.e &&& state.f) ^^^ (~~~state.e &&& state.g)
  let t1 := state.h + s1 + ch + constant + word
  let s0 := rotateRight state.a 2 ^^^ rotateRight state.a 13 ^^^ rotateRight state.a 22
  let maj := (state.a &&& state.b) ^^^ (state.a &&& state.c) ^^^ (state.b &&& state.c)
  let t2 := s0 + maj
  { a := t1 + t2, b := state.a, c := state.b, d := state.c,
    e := state.d + t1, f := state.e, g := state.f, h := state.g }

/-- One block, compressed into the chaining state. -/
def compress (state : Words) (block : Bytes) : Words :=
  let schedule := (extendSchedule 48 (wordsOf block).reverse).reverse
  let mixed := (roundConstants.zip schedule).foldl
    (fun words pair => compressRound words pair.1 pair.2) state
  state.add mixed

/-- A SHA-256 in progress. -/
structure Sha256 where
  /-- The chaining words. -/
  state : Words
  /-- Bytes seen since the last compression; only `buffered` of them are live. -/
  block : Bytes
  /-- How many bytes of `block` are live. -/
  buffered : Nat
  /-- The message length so far, in bytes. -/
  lengthBytes : UInt64

namespace Sha256

/-- A hasher over the empty message. -/
def new : Sha256 where
  state := Words.initial
  block := Bytes.zeros blockBytes
  buffered := 0
  lengthBytes := 0

/-- Compress the whole blocks of `rest` and buffer what is left of it. -/
def absorb (self : Sha256) (rest : Bytes) : Sha256 :=
  let count := rest.length / blockBytes
  let tail := rest.drop (count * blockBytes)
  { self with
    state := (Bytes.blocks blockBytes rest count).foldl compress self.state
    block := Bytes.overwrite tail self.block
    buffered := tail.length }

/-- Feed some more of the message. -/
def update (self : Sha256) (bytes : Bytes) : Sha256 :=
  let counted := { self with
    lengthBytes := self.lengthBytes + UInt64.ofNat bytes.length }
  if 0 < self.buffered then
    let take := min (blockBytes - self.buffered) bytes.length
    let block := self.block.take self.buffered ++
      Bytes.overwrite (bytes.take take) (self.block.drop self.buffered)
    if self.buffered + take = blockBytes then
      absorb { counted with
        state := compress self.state block, block := block, buffered := 0 }
        (bytes.drop take)
    else
      { counted with block := block, buffered := self.buffered + take }
  else
    counted.absorb bytes

/-- The big-endian bytes of a 32-bit word. -/
def wordBytes (word : UInt32) : Bytes := (Bytes.ofNat 4 word.toNat).reverse

/-- The chaining state as the thirty-two bytes of a digest. -/
def digestOf (state : Words) : Digest where
  bytes := wordBytes state.a ++ wordBytes state.b ++ wordBytes state.c ++
    wordBytes state.d ++ wordBytes state.e ++ wordBytes state.f ++
    wordBytes state.g ++ wordBytes state.h
  length_eq := by simp [wordBytes]

/-- Close the message and return its digest. -/
def finish (self : Sha256) : Digest :=
  let bits := self.lengthBytes * 8
  let marked := self.block.take self.buffered ++ [0x80] ++
    Bytes.zeros (blockBytes - (self.buffered + 1))
  let length := (Bytes.ofNat 8 bits.toNat).reverse
  if lengthOffset < self.buffered + 1 then
    let state := compress self.state marked
    digestOf (compress state (Bytes.zeros lengthOffset ++ length))
  else
    digestOf (compress self.state (marked.take lengthOffset ++ length))

end Sha256

/-- The SHA-256 of some bytes, in one call. -/
def sha256 (bytes : Bytes) : Digest :=
  (Sha256.new.update bytes).finish

/-- The published vector for the three bytes `abc`. -/
example :
    (sha256 [0x61, 0x62, 0x63]).bytes.take 4 = [0xba, 0x78, 0x16, 0xbf] := by
  decide +kernel

end FSystem.Hash
