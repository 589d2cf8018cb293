import Mathlib.Logic.Function.Basic

/-!
# Write-back storage

Cells that hold strings, and the writes that have not settled in them yet.  Settling
applies every write; losing power instead leaves, of each write, the symbols it had
stored by then over what its cell held before.
-/

namespace FSystem.Writeback

open Function List

variable {α : Type}

/-- A string stored over another one, up to some length. -/
def overlay (old new : List α) (length : Nat) : List α := new.take length ++ old.drop length

@[simp] theorem overlay_zero (old new : List α) : overlay old new 0 = old := rfl

theorem overlay_of_le {old new : List α} {length : Nat} (whole : new.length ≤ length)
    (covered : old.length ≤ length) : overlay old new length = new := by
  rw [overlay, take_of_length_le whole, drop_eq_nil_of_le covered, append_nil]

theorem length_overlay {old new : List α} (same : new.length = old.length) (length : Nat) :
    (overlay old new length).length = old.length := by
  simp only [overlay, length_append, length_take, length_drop]
  omega

/-- The cells after some writes, each the address of a cell and its new string. -/
def settle (media : Nat → List α) (queue : List (Nat × List α)) : Nat → List α :=
  queue.foldl (fun cells write => update cells write.1 write.2) media

theorem settle_concat (media : Nat → List α) (queue : List (Nat × List α)) (write : Nat × List α) :
    settle media (queue ++ [write]) = update (settle media queue) write.1 write.2 := by
  rw [settle, foldl_append]
  rfl

/-- The cells when of each write only a beginning was stored. -/
def land (media : Nat → List α) : List (Nat × List α) → List Nat → Nat → List α
  | [], _ => media
  | write :: rest, lengths =>
    land (update media write.1
      (overlay (media write.1) write.2 (lengths.headD 0))) rest lengths.tail

variable {media : Nat → List α}

/-- Cells and writes of one length leave cells of that length. -/
theorem length_land
    {queue : List (Nat × List α)}
    {width : Nat}
    (cells : ∀ address, (media address).length = width)
    (writes : ∀ write ∈ queue, write.2.length = width)
    (lengths : List Nat)
    (address : Nat) :
    (land media queue lengths address).length = width := by
  induction queue generalizing media lengths with
  | nil => exact cells address
  | cons write rest ih =>
    apply ih
    · intro other
      by_cases same : other = write.1
      · have equal := (writes write mem_cons_self).trans (cells write.1).symm
        rw [same, update_self, length_overlay equal, cells]
      · rw [update_of_ne same]
        exact cells other
    · exact fun later member => writes later (mem_cons_of_mem _ member)

/-- Writes to cells that follow each other. -/
def consecutive : Nat → List (List α) → List (Nat × List α)
  | _, [] => []
  | base, piece :: rest => (base, piece) :: consecutive (base + 1) rest

@[simp] theorem length_consecutive (base : Nat) (pieces : List (List α)) :
    (consecutive base pieces).length = pieces.length := by
  induction pieces generalizing base with
  | nil => rfl
  | cons piece rest ih => rw [consecutive, length_cons, ih, length_cons]

theorem consecutive_append (base : Nat) (pieces more : List (List α)) :
    consecutive base (pieces ++ more) =
      consecutive base pieces ++ consecutive (base + pieces.length) more := by
  induction pieces generalizing base with
  | nil => rfl
  | cons piece rest ih =>
    rw [cons_append, consecutive, ih, consecutive, length_cons, Nat.add_assoc, Nat.add_comm 1]
    rfl

theorem getElem?_consecutive (base : Nat) (pieces : List (List α)) (position : Nat) :
    (consecutive base pieces)[position]? =
      pieces[position]?.map fun piece => (base + position, piece) := by
  induction pieces generalizing base position with
  | nil => rfl
  | cons piece rest ih =>
    cases position with
    | zero => rfl
    | succ position =>
      rw [consecutive, getElem?_cons_succ, ih, getElem?_cons_succ, Nat.add_assoc, Nat.add_comm 1]

/-- A cell outside the ones written keeps its string. -/
theorem land_consecutive_outside {base address : Nat} (pieces : List (List α)) (lengths : List Nat)
    (outside : address < base ∨ base + pieces.length ≤ address) :
    land media (consecutive base pieces) lengths address = media address := by
  induction pieces generalizing media base lengths with
  | nil => rfl
  | cons piece rest ih =>
    rw [length_cons] at outside
    rw [consecutive, land, ih _ (by omega), update_of_ne (by omega)]

/-- A cell that was written holds the beginning of its write over what it held. -/
theorem land_consecutive
    {base position : Nat}
    {pieces : List (List α)}
    {piece : List α}
    (lengths : List Nat)
    (written : pieces[position]? = some piece) :
    land media (consecutive base pieces) lengths (base + position) =
      overlay (media (base + position)) piece (lengths.getD position 0) := by
  induction pieces generalizing media base position lengths with
  | nil => cases written
  | cons head rest ih =>
    cases position with
    | zero =>
      cases written
      rw [consecutive, land, land_consecutive_outside _ _ (by omega), Nat.add_zero, update_self]
      cases lengths <;> rfl
    | succ position =>
      have shift : base + (position + 1) = base + 1 + position := by omega
      rw [consecutive, land, shift, ih _ written, update_of_ne (by omega)]
      cases lengths <;> rfl

section

variable {media : Nat → List α} {queue : List (Nat × List α)} {width : Nat}
  (cells : ∀ address, (media address).length = width)
  (writes : ∀ write ∈ queue, write.2.length = width)

include cells writes

/-- To settle is to store every write whole. -/
theorem settle_eq_land :
    settle media queue = land media queue (replicate queue.length width) := by
  induction queue generalizing media with
  | nil => rfl
  | cons write rest ih =>
    have head := writes write mem_cons_self
    rw [length_cons, replicate_succ, land, headD_cons, tail_cons,
      overlay_of_le (Nat.le_of_eq head) (Nat.le_of_eq (cells write.1)), ← ih]
    · rfl
    · intro address
      by_cases same : address = write.1
      · rw [same, update_self, head]
      · rw [update_of_ne same, cells]
    · exact fun later member => writes later (mem_cons_of_mem _ member)

theorem length_settle (address : Nat) : (settle media queue address).length = width := by
  rw [settle_eq_land cells writes]
  exact length_land cells writes _ address

end

end FSystem.Writeback
