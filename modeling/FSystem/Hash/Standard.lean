import FSystem.Hash.Streaming

/-!
# The standard's SHA-256

The digest as FIPS 180-4 states it: the message is padded to whole blocks, and the compression
function is folded over them.  A hasher that was fed the message in any pieces answers it.
-/

namespace FSystem.Hash

open Bytes List
namespace Standard

/-- The choice of the standard. -/
def ch (x y z : UInt32) : UInt32 := (x &&& y) ^^^ (~~~x &&& z)

/-- The majority of the standard. -/
def maj (x y z : UInt32) : UInt32 := (x &&& y) ^^^ (x &&& z) ^^^ (y &&& z)

/-- The three rotations that the rounds mix a word by. -/
def sum (first second third x : UInt32) : UInt32 :=
  rotateRight x first ^^^ rotateRight x second ^^^ rotateRight x third

/-- The two rotations and the shift that the schedule mixes a word by. -/
def sigma (first second shift x : UInt32) : UInt32 :=
  rotateRight x first ^^^ rotateRight x second ^^^ (x >>> shift)

/-- Word `t` of the message schedule. -/
def schedule (block : Bytes) (t : Nat) : UInt32 :=
  if t < 16 then (wordsOf block).getD t 0
  else
    sigma 17 19 10 (schedule block (t - 2)) + schedule block (t - 7) +
      sigma 7 18 3 (schedule block (t - 15)) + schedule block (t - 16)
termination_by t

/-- Round `t` of the compression. -/
def round (block : Bytes) (words : Words) (t : Nat) : Words :=
  let t1 := words.h + sum 6 11 25 words.e + ch words.e words.f words.g +
    roundConstants.getD t 0 + schedule block t
  let t2 := sum 2 13 22 words.a + maj words.a words.b words.c
  { a := t1 + t2, b := words.a, c := words.b, d := words.c,
    e := words.d + t1, f := words.e, g := words.f, h := words.g }

/-- The hash value after one more block. -/
def compress (hash : Words) (block : Bytes) : Words :=
  hash.add ((range 64).foldl (round block) hash)

/-- How many zero bytes follow the mark, to leave room for the length in whole blocks. -/
def zeroBytes (length : Nat) : Nat := (119 - length % blockBytes) % blockBytes

/-- The message with a one bit, zeros and its length in bits behind it. -/
def padded (message : Bytes) : Bytes :=
  message ++ ([0x80] ++ Bytes.zeros (zeroBytes message.length) ++
    (ofNat 8 (8 * message.length)).reverse)

/-- The digest of a message. -/
def digest (message : Bytes) : Digest :=
  Sha256.digestOf ((blocks blockBytes (padded message)
    ((padded message).length / blockBytes)).foldl compress Words.initial)

/-! ## The compression function -/

theorem length_wordsOf : ∀ block : Bytes, (wordsOf block).length = block.length / 4
  | [] | [_] | [_, _] | [_, _, _] => by simp [wordsOf]
  | _ :: _ :: _ :: _ :: rest => by
    simp only [wordsOf, length_cons, length_wordsOf rest]
    omega

theorem schedule_late (block : Bytes) {t : Nat} (late : 16 ≤ t) :
    schedule block t = schedule block (t - 16) + sigma 7 18 3 (schedule block (t - 15)) +
      schedule block (t - 7) + sigma 17 19 10 (schedule block (t - 2)) := by
  rw [schedule, if_neg (by omega)]
  ac_rfl

/-- Extending a schedule that is held newest word first. -/
theorem extendSchedule_eq (block : Bytes) (count : Nat) {t : Nat} (late : 16 ≤ t) :
    extendSchedule count ((range t).map (schedule block)).reverse =
      ((range (t + count)).map (schedule block)).reverse := by
  induction count generalizing t with
  | zero => rfl
  | succ count ih =>
    have back : ∀ distance, distance < t →
        ((range t).map (schedule block)).reverse.getD distance 0 =
          schedule block (t - 1 - distance) := by
      intro distance inside
      rw [getD_eq_getElem?_getD, getElem?_reverse (by simpa using inside)]
      simp [show t - 1 - distance < t by omega]
    have longer := ih (Nat.le_succ_of_le late)
    rw [range_succ, map_append, reverse_append, map_singleton, reverse_singleton, singleton_append,
      schedule_late block late, Nat.succ_add_eq_add_succ] at longer
    rw [← longer, extendSchedule, back 14 (by omega), back 1 (by omega), back 15 (by omega),
      back 6 (by omega)]
    rfl

/-- The two compressions agree. -/
theorem compress_eq (hash : Words) {block : Bytes} (width : block.length = blockBytes) :
    Hash.compress hash block = compress hash block := by
  have words : wordsOf block = (range 16).map (schedule block) := by
    apply ext_getElem?
    intro t
    by_cases inside : t < 16
    · have present : t < (wordsOf block).length := by
        rw [length_wordsOf, width]
        exact inside
      simp only [getElem?_map, getElem?_range inside, Option.map_some]
      rw [schedule, if_pos inside, getD_eq_getElem?_getD, getElem?_eq_getElem present,
        Option.getD_some]
    · rw [getElem?_eq_none, getElem?_eq_none]
      · simpa using inside
      · rw [length_wordsOf, width]
        exact Nat.le_of_not_lt inside
  have constants : roundConstants = (range 64).map fun t => roundConstants.getD t 0 := by decide
  rw [Hash.compress, compress, words, extendSchedule_eq block 48 (Nat.le_refl 16)]
  rw [reverse_reverse]
  conv_lhs => rw [constants, zip_map', foldl_map]
  rfl

/-- The digest is the code's compression folded over the padded message. -/
theorem digest_eq (message : Bytes) :
    digest message = Sha256.digestOf (Sha256.compressed (padded message)) := by
  unfold digest Sha256.compressed
  congr 1
  apply foldl_ext
  intro hash block member
  obtain ⟨index, inside, rfl⟩ := List.mem_map.mp member
  refine (compress_eq hash ?_).symm
  refine length_slice _ _ _ ?_
  rw [← Nat.succ_mul]
  exact (Nat.mul_le_mul_right _ (List.mem_range.mp inside)).trans (Nat.div_mul_le_self _ _)

end Standard

namespace Sha256

/-- The first block is compressed before the others. -/
theorem foldl_block {one : Bytes} (rest : Bytes) (state : Words) (width : one.length = blockBytes) :
    (blocks blockBytes (one ++ rest) ((one ++ rest).length / blockBytes)).foldl compress
        state =
      (blocks blockBytes rest (rest.length / blockBytes)).foldl compress (compress state one) := by
  have full : one.length = 1 * blockBytes := width.trans (Nat.one_mul _).symm
  rw [(length_append_div rest full).1, blocks_append _ rest _ full, foldl_append]
  simp [blocks, Bytes.block, slice_all _ _ width]

/-- Closing a hasher compresses what the padding makes of its message. -/
theorem Absorbed.finish_padded {self : Sha256} {message : Bytes} (absorbed : Absorbed self message)
    (short : message.length < 2 ^ 61) :
    self.finish = digestOf (compressed (Standard.padded message)) := by
  obtain ⟨⟨whole, count, split, full, state⟩, bound, tailLength⟩ := absorbed.split
  change self.buffered < 64 at bound
  have bits : (self.lengthBytes * 8).toNat = 8 * message.length := by
    rw [absorbed.counted, UInt64.toNat_mul, UInt64.toNat_ofNat']
    change message.length % 2 ^ 64 * 8 % 2 ^ 64 = 8 * message.length
    omega
  unfold Sha256.finish Standard.padded
  dsimp only
  rw [bits, Standard.zeroBytes, ← absorbed.buffered]
  generalize lengthIs : (ofNat 8 (8 * message.length)).reverse = length
  have eight : length.length = 8 := by simp [← lengthIs]
  rw [split, append_assoc whole, compressed_append _ full, ← state]
  generalize self.block.take self.buffered = tail at tailLength
  have joined : ∀ first second : Nat, Bytes.zeros first ++ Bytes.zeros second =
      Bytes.zeros (first + second) := fun _ _ => replicate_append_replicate
  have nothing (state : Words) : (blocks blockBytes [] (([] : Bytes).length / blockBytes)).foldl
      compress state = state := rfl
  split_ifs with crowded
  · -- The mark leaves no room for the length, which goes to a block of its own.
    have zeros : (119 - self.buffered) % blockBytes =
        blockBytes - (self.buffered + 1) + lengthOffset := by
      unfold lengthOffset blockBytes at *
      omega
    have layout : tail ++
        ([0x80] ++ Bytes.zeros (blockBytes - (self.buffered + 1) + lengthOffset) ++ length) =
        tail ++ [0x80] ++ Bytes.zeros (blockBytes - (self.buffered + 1)) ++
          (Bytes.zeros lengthOffset ++ length ++ []) := by
      rw [← joined]
      simp
    rw [zeros, layout, foldl_block, foldl_block, nothing]
    · simp [eight, lengthOffset, blockBytes]
    · simp only [length_append, tailLength, length_singleton, length_zeros]
      unfold blockBytes
      omega
  · have fewer : (119 - self.buffered) % blockBytes = 55 - self.buffered := by
      unfold lengthOffset blockBytes at *
      omega
    have more : blockBytes - (self.buffered + 1) = 55 - self.buffered + 8 := by
      unfold lengthOffset blockBytes at *
      omega
    have front : (tail ++ [0x80] ++ Bytes.zeros (55 - self.buffered)).length = lengthOffset := by
      simp only [length_append, tailLength, length_singleton, length_zeros]
      unfold lengthOffset blockBytes at *
      omega
    have layout : tail ++ ([0x80] ++ Bytes.zeros (55 - self.buffered) ++ length) =
        tail ++ [0x80] ++ Bytes.zeros (55 - self.buffered) ++ length ++ [] := by
      simp
    rw [fewer, more, layout, ← joined, ← append_assoc, take_left' front, foldl_block, nothing]
    rw [length_append, front, eight]
    rfl

/-- Whatever pieces a message is fed in, a hasher answers the standard's digest of it. -/
theorem streaming_equals_the_standard
    (pieces : List Bytes)
    (short : pieces.flatten.length < 2 ^ 61) :
    (pieces.foldl update new).finish = Standard.digest pieces.flatten := by
  rw [(absorbed_pieces pieces).finish_padded short, Standard.digest_eq]

theorem streaming_equals_the_standard_abc :
    ([[0x61], [], [0x62, 0x63]].foldl update new).finish = Standard.digest [0x61, 0x62, 0x63] :=
  streaming_equals_the_standard [[0x61], [], [0x62, 0x63]] (by decide)

end Sha256

end FSystem.Hash
