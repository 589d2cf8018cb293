import Mathlib.Data.Nat.Log
import Mathlib.Data.List.Basic
import Mathlib.Tactic.Ring

/-!
# Byte strings

Little-endian integers, slices at an offset, overwriting a prefix, and the
division of a byte string into blocks of one width.  Nothing in this module
knows what the bytes are for.
-/

namespace FSystem

open List

/-- A byte string. -/
abbrev Bytes := List UInt8

namespace Bytes

/-- The `width` little-endian bytes of a natural number. -/
def ofNat : Nat → Nat → Bytes
  | 0, _ => []
  | width + 1, value => UInt8.ofNat value :: ofNat width (value / 256)

/-- The natural number a little-endian byte string denotes. -/
def toNat : Bytes → Nat
  | [] => 0
  | byte :: rest => byte.toNat + 256 * toNat rest

@[simp] theorem length_ofNat (width value : Nat) : (ofNat width value).length = width := by
  induction width generalizing value with
  | zero => rfl
  | succ width ih => simp [ofNat, ih]

/-- A number that fits its width survives the encoding. -/
theorem toNat_ofNat (width value : Nat) (fits : value < 256 ^ width) :
    toNat (ofNat width value) = value := by
  induction width generalizing value with
  | zero =>
    have : value = 0 := by simpa using fits
    simp [ofNat, toNat, this]
  | succ width ih =>
    have quotientFits : value / 256 < 256 ^ width := by
      rw [Nat.div_lt_iff_lt_mul (by norm_num)]
      rwa [pow_succ] at fits
    simp only [ofNat, toNat, ih _ quotientFits, UInt8.toNat_ofNat']
    omega

variable (bytes : Bytes)

/-- A byte string of some width denotes a number that fits the width. -/
theorem toNat_lt : toNat bytes < 256 ^ bytes.length := by
  induction bytes with
  | nil => simp [toNat]
  | cons byte rest ih =>
    have small := byte.toNat_lt
    simp only [toNat, length_cons, pow_succ]
    omega

/-- A byte string is the encoding of the number it denotes. -/
theorem ofNat_toNat (width : Nat) (bytes : Bytes) (same : bytes.length = width) :
    ofNat width (toNat bytes) = bytes := by
  induction bytes generalizing width with
  | nil =>
    subst same
    rfl
  | cons byte rest ih =>
    subst same
    have small := byte.toNat_lt
    have low : UInt8.ofNat (byte.toNat + 256 * toNat rest) = byte := by
      apply UInt8.toNat_inj.mp
      rw [UInt8.toNat_ofNat']
      omega
    have high : (byte.toNat + 256 * toNat rest) / 256 = toNat rest := by omega
    simp only [length_cons, ofNat, toNat, low, high]
    rw [ih _ rfl]

/-- The `length` bytes that start at an offset. -/
def slice (bytes : Bytes) (offset length : Nat) : Bytes :=
  (bytes.drop offset).take length

theorem getElem?_slice (offset length index : Nat) :
    (slice bytes offset length)[index]? =
      if index < length then bytes[offset + index]? else none := by
  rw [slice, getElem?_take, getElem?_drop]

theorem length_slice (offset length : Nat) (inside : offset + length ≤ bytes.length) :
    (slice bytes offset length).length = length := by
  simp only [slice, length_take, length_drop]
  omega

/-- A slice past the first part of a concatenation is a slice of the second. -/
theorem slice_append_right (first second : Bytes) (offset length : Nat)
    (past : first.length ≤ offset) :
    slice (first ++ second) offset length = slice second (offset - first.length) length := by
  simp only [slice]
  rw [drop_append, drop_eq_nil_of_le past, nil_append]

/-- A slice inside the first part of a concatenation does not see the second. -/
theorem slice_append_left (first second : Bytes) (offset length : Nat)
    (inside : offset + length ≤ first.length) :
    slice (first ++ second) offset length = slice first offset length := by
  simp only [slice]
  rw [drop_append_of_le_length (by omega), take_append_of_le_length (by simp; omega)]

/-- A slice of a slice. -/
theorem slice_slice (offset length inner count : Nat) :
    slice (slice bytes offset length) inner count =
      slice bytes (offset + inner) (min count (length - inner)) := by
  simp only [slice]
  rw [drop_take, take_take, drop_drop]

/-- Two slices, one right behind the other, are one. -/
theorem slice_append_slice (offset first second : Nat) :
    slice bytes offset first ++ slice bytes (offset + first) second =
      slice bytes offset (first + second) := by
  simp only [slice]
  rw [take_add, drop_drop]

/-- The first part of a concatenation, read back by its length. -/
theorem slice_append_head (first second : Bytes) (length : Nat) (same : first.length = length) :
    slice (first ++ second) 0 length = first := by
  simp [slice, ← same]

/-- The whole string is its own slice. -/
theorem slice_all (length : Nat) (same : bytes.length = length) : slice bytes 0 length = bytes := by
  simp [slice, ← same]

/-- A run of zero bytes. -/
def zeros (length : Nat) : Bytes := replicate length 0

@[simp] theorem length_zeros (length : Nat) : (zeros length).length = length := by
  simp [zeros]

/-- `source` written over the front of `target`, the rest of `target` kept. -/
def overwrite (source target : Bytes) : Bytes :=
  source ++ target.drop source.length

theorem length_overwrite (source target : Bytes) (inside : source.length ≤ target.length) :
    (overwrite source target).length = target.length := by
  simp only [overwrite, length_append, length_drop]
  omega

/-- Overwriting the whole of a string leaves the new one. -/
theorem overwrite_full (source target : Bytes) (same : source.length = target.length) :
    overwrite source target = source := by
  simp [overwrite, same]

/-- `source` written at an offset, everything around it kept. -/
def splice (target : Bytes) (offset : Nat) (source : Bytes) : Bytes :=
  target.take offset ++ (source ++ target.drop (offset + source.length))

variable (target : Bytes)

theorem length_splice (offset : Nat) (source : Bytes)
    (inside : offset + source.length ≤ target.length) :
    (splice target offset source).length = target.length := by
  simp only [splice, length_append, length_take, length_drop]
  omega

/-- A byte of a splice is one that was spliced in, or the one that was there. -/
theorem getElem?_splice {offset : Nat} (source : Bytes) (index : Nat)
    (inside : offset ≤ target.length) :
    (splice target offset source)[index]? =
      if offset ≤ index ∧ index < offset + source.length then source[index - offset]?
      else target[index]? := by
  have front := length_take_of_le inside
  rw [splice]
  by_cases before : index < offset
  · rw [getElem?_append_left (by omega), getElem?_take, if_pos before, if_neg (by omega)]
  rw [getElem?_append_right (by omega), front]
  by_cases within : index < offset + source.length
  · rw [getElem?_append_left (by omega), if_pos (by omega)]
  · rw [getElem?_append_right (by omega), getElem?_drop, if_neg (by omega)]
    congr 1
    omega

/-- What was spliced in is read back. -/
theorem slice_splice_same (offset : Nat) (source : Bytes)
    (inside : offset + source.length ≤ target.length) :
    slice (splice target offset source) offset source.length = source := by
  have front : (target.take offset).length = offset := length_take_of_le (by omega)
  rw [splice, slice_append_right _ _ _ _ (by omega), front, Nat.sub_self,
    slice_append_head _ _ _ rfl]

/-- A splice changes no slice it does not meet. -/
theorem slice_splice_other
    (offset : Nat)
    (source : Bytes)
    (other length : Nat)
    (inside : offset + source.length ≤ target.length)
    (apart : other + length ≤ offset ∨ offset + source.length ≤ other) :
    slice (splice target offset source) other length = slice target other length := by
  refine ext_getElem? fun index => ?_
  rw [getElem?_slice, getElem?_slice, getElem?_splice _ _ _ (by omega)]
  split_ifs
  · omega
  · rfl
  · rfl

/-- Block `index` of a byte string cut into blocks of `width` bytes. -/
def block (width : Nat) (bytes : Bytes) (index : Nat) : Bytes :=
  slice bytes (index * width) width

/-- A byte string cut into `count` consecutive blocks. -/
def blocks (width : Nat) (bytes : Bytes) (count : Nat) : List Bytes :=
  (range count).map (block width bytes)

@[simp] theorem length_blocks (width : Nat) (bytes : Bytes) (count : Nat) :
    (blocks width bytes count).length = count := by
  simp [blocks]

/-- Joining the first blocks of a byte string gives the front of it back. -/
theorem flatten_blocks (width : Nat) (bytes : Bytes) (count : Nat) :
    (blocks width bytes count).flatten = bytes.take (count * width) := by
  induction count with
  | zero => simp [blocks]
  | succ count ih =>
    have step : blocks width bytes (count + 1) =
        blocks width bytes count ++ [block width bytes count] := by
      simp [blocks, range_succ]
    rw [step, flatten_append, ih]
    simp only [block, slice, flatten_cons, flatten_nil, append_nil]
    rw [Nat.succ_mul, take_add]

/-- Pieces of one width are found again in what they join to. -/
theorem flatten_injective
    (width : Nat)
    {first second : List Bytes}
    (firstWide : ∀ piece ∈ first, piece.length = width)
    (secondWide : ∀ piece ∈ second, piece.length = width)
    (count : first.length = second.length)
    (same : first.flatten = second.flatten) : first = second := by
  induction first generalizing second with
  | nil => exact (List.length_eq_zero_iff.mp count.symm).symm
  | cons piece rest ih =>
    cases second with
    | nil => cases count
    | cons other others =>
      obtain ⟨head, tail⟩ := append_inj same
        ((firstWide piece mem_cons_self).trans (secondWide other mem_cons_self).symm)
      rw [head, ih
        (fun one member => firstWide one (mem_cons_of_mem _ member))
        (fun one member => secondWide one (mem_cons_of_mem _ member))
        (Nat.succ.inj count) tail]

/-- A byte string behind whole blocks is cut as it is alone. -/
theorem blocks_append
    (width : Nat)
    {whole : Bytes}
    (rest : Bytes)
    {first : Nat}
    (count : Nat)
    (full : whole.length = first * width) :
    blocks width (whole ++ rest) (first + count) =
      blocks width whole first ++ blocks width rest count := by
  have front : ∀ index ∈ range first,
      block width (whole ++ rest) index = block width whole index := by
    intro index inside
    have below : (index + 1) * width ≤ first * width :=
      Nat.mul_le_mul_right width (List.mem_range.mp inside)
    rw [Nat.succ_mul] at below
    exact slice_append_left _ _ _ _ (by omega)
  have back : ∀ index, block width (whole ++ rest) (first + index) = block width rest index := by
    intro index
    rw [block, Nat.add_mul, ← full]
    rw [slice_append_right _ _ _ _ (Nat.le_add_right _ _), Nat.add_sub_cancel_left]
    rfl
  simp only [blocks, range_add, map_append, map_map]
  rw [map_congr_left front]
  congr 1
  exact map_congr_left fun index _ => back index

end Bytes
end FSystem
