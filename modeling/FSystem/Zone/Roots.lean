import FSystem.Abi.Records
import Std.Data.TreeMap
import Std.Data.TreeSet

/-!
# The roots of the collection

What a collection must keep: the pinned roots, and the blocks of publishes that
are still being written.
-/

namespace FSystem.Zone

open Abi Hash Std

/-- The name of an open publish's write set. -/
abbrev WriteSet := Nat

/-- The pinned roots and the open write sets. -/
structure Roots where
  pinned : TreeSet Digest
  transient : TreeMap WriteSet (List Nat)
  next : Nat
  remarksOwed : Nat

namespace Roots

/-- No root and no write set. -/
def new : Roots := ⟨∅, ∅, 0, 0⟩

variable (self : Roots)

/-- The logical blocks of every open write set. -/
def transientBlocks : TreeSet Nat :=
  TreeSet.ofList (self.transient.toList.flatMap Prod.snd)

/-- Every root was marked again. -/
def remarked : Roots := { self with remarksOwed := 0 }

/-- Pin a root. -/
def pin (root : Digest) : Bool × Roots :=
  (!self.pinned.contains root, { self with pinned := self.pinned.insert root })

/-- Let a root go. -/
def unpin (root : Digest) : Bool × Roots :=
  if self.pinned.contains root then
    (true, { self with
      pinned := self.pinned.erase root
      remarksOwed := self.remarksOwed + 1 })
  else (false, self)

/-- Open a write set. -/
def opened : WriteSet × Roots :=
  (self.next + 1, { self with
    next := self.next + 1
    transient := self.transient.insert (self.next + 1) [] })

/-- Add a block to a write set. -/
def appended (set : WriteSet) (block : Nat) : Except Refusal Roots :=
  match self.transient[set]? with
  | none => .error .address
  | some blocks => .ok { self with transient := self.transient.insert set (blocks ++ [block]) }

/-- Turn a write set into a pinned root. -/
def adopt (set : WriteSet) (root : Digest) : Except Refusal Roots :=
  if self.transient.contains set then
    .ok { self with
      pinned := self.pinned.insert root
      transient := self.transient.erase set }
  else .error .address

/-- Drop a write set. -/
def abandon (set : WriteSet) : Except Refusal Roots :=
  if self.transient.contains set then
    .ok { self with
      transient := self.transient.erase set
      remarksOwed := self.remarksOwed + 1 }
  else .error .address

/-- A block is held when some open write set lists it. -/
theorem mem_transientBlocks (block : Nat) :
    block ∈ self.transientBlocks ↔
      ∃ (set : WriteSet) (blocks : List Nat),
        self.transient[set]? = some blocks ∧ block ∈ blocks := by
  rw [transientBlocks, TreeSet.mem_ofList, List.contains_iff_mem, List.mem_flatMap]
  constructor
  · rintro ⟨⟨set, blocks⟩, member, inside⟩
    exact ⟨set, blocks, TreeMap.mem_toList_iff_getElem?_eq_some.mp member, inside⟩
  · rintro ⟨set, blocks, present, inside⟩
    exact ⟨(set, blocks), TreeMap.mem_toList_iff_getElem?_eq_some.mpr present, inside⟩

end Roots

end FSystem.Zone
