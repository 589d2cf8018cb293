import Mathlib.Data.List.DropRight
import Mathlib.Data.List.Rotate

/-!
# Rings of the last values

A list of slots is written in turn, from the first to the last and over again.  Read from the
slot that is written next, it is always the last values in the order they came.
-/

namespace FSystem.Rings

variable {α : Type} {initial slots values : List α} {held next : Nat}

/-- The slot that is written next holds the oldest value. -/
theorem rotate_set (inside : next < slots.length) (value : α) :
    (slots.set next value).rotate (next + 1) = (slots.rotate next).tail ++ [value] := by
  obtain ⟨before, after, ring, place, set⟩ := @List.exists_of_set _ _ value _ inside
  generalize slots[next] = oldest at ring
  have behind : before ++ value :: after = (before ++ [value]) ++ after := by simp
  have long : next + 1 = (before ++ [value]).length := by simp [place]
  rw [set, ring, behind, long, List.rotate_append_length_eq, ← place,
    List.rotate_append_length_eq, List.cons_append, List.tail_cons, List.append_assoc]

/-- What the slots hold, how many of them do, and where the next value goes. -/
structure Keeps (initial slots : List α) (held next : Nat) (values : List α) : Prop where
  length : slots.length = initial.length
  held : held = min values.length initial.length
  next : next = values.length % initial.length
  view : slots.rotate values.length = (initial ++ values).drop values.length

theorem Keeps.new (initial : List α) : Keeps initial initial 0 0 [] where
  length := rfl
  held := (Nat.zero_min _).symm
  next := (Nat.zero_mod _).symm
  view := by simp

section

variable (keeps : Keeps initial slots held next values)

include keeps

/-- A push keeps the ring. -/
theorem Keeps.push (some : 0 < initial.length) (value : α) :
    Keeps initial (slots.set next value) (if held < initial.length then held + 1 else held)
      ((next + 1) % initial.length) (values ++ [value]) := by
  obtain ⟨length, held, next, view⟩ := keeps
  have inside : values.length % slots.length < slots.length := Nat.mod_lt _ (length ▸ some)
  refine ⟨by rw [List.length_set, length], ?_, ?_, ?_⟩
  · rw [held, List.length_append, List.length_singleton]
    split <;> omega
  · rw [next, List.length_append, List.length_singleton, Nat.mod_add_mod]
  have set := rotate_set inside value
  rw [List.rotate_mod, view] at set
  rw [List.length_append, List.length_singleton, ← List.append_assoc,
    List.drop_append_of_le_length (by rw [List.length_append]; omega), ← List.tail_drop, ← set,
    next, ← length, ← List.rotate_mod _ (_ % _ + 1), ← List.rotate_mod _ (values.length + 1),
    List.length_set, Nat.mod_add_mod]

/-- Slots that were not all written hold the values from the first slot on. -/
theorem Keeps.take_of_lt (few : values.length < initial.length) :
    slots.take values.length = values := by
  have view := keeps.view
  rw [List.rotate_eq_drop_append_take (keeps.length ▸ few.le),
    List.drop_append_of_le_length few.le] at view
  exact (List.append_inj view (by rw [List.length_drop, List.length_drop, keeps.length])).2

theorem Keeps.rotate_of_le (many : initial.length ≤ values.length) :
    slots.rotate values.length = values.rtake initial.length := by
  rw [keeps.view, List.drop_append, List.drop_eq_nil_of_le many, List.nil_append, List.rtake]

/-- The slots that were written hold the last values, in some order. -/
theorem Keeps.perm : (slots.take held).Perm (values.rtake initial.length) := by
  rw [keeps.held]
  rcases Nat.lt_or_ge values.length initial.length with few | many
  · rw [Nat.min_eq_left few.le, keeps.take_of_lt few, List.rtake, Nat.sub_eq_zero_of_le few.le,
      List.drop_zero]
  · rw [Nat.min_eq_right many, List.take_of_length_le keeps.length.le, ← keeps.rotate_of_le many]
    exact (List.rotate_perm slots _).symm

end

end FSystem.Rings
