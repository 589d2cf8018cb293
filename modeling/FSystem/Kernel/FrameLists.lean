import FSystem.Kernel.Table
import Mathlib.Data.Fintype.Prod

/-!
# Free lists of physical frames

Blocks of a power of two of frames, kept in lists whose links are the first words of the
blocks themselves.  A core has two sets of lists, one list for each size: the blocks that
are known to be zero but for their links, and those that hold what their last owner left.
-/

namespace FSystem.Kernel.Mem

/-- One past the largest value of a machine word. -/
def wordLimit : Nat := 2 ^ 64

/-- An addition that stops at the largest value of a machine word. -/
def saturatingAdd (left right : Nat) : Nat := min (left + right) (wordLimit - 1)

/-- How large a run of frames is, as a power of two. -/
structure Order where
  /-- The order as a number. -/
  get : Nat
  /-- No order is above the largest one. -/
  bounded : get < 19
  deriving DecidableEq

namespace Order

instance : Fintype Order :=
  Fintype.ofEquiv (Fin 19)
    ⟨fun index => ⟨index.val, index.isLt⟩, fun order => ⟨order.get, order.bounded⟩,
      fun _ => rfl, fun _ => rfl⟩

/-- One frame. -/
def frame : Order := ⟨0, by decide⟩

/-- The grain the page tables use. -/
def huge : Order := ⟨9, by decide⟩

/-- The grain a core's lists are refilled in. -/
def default : Order := huge

/-- The largest order. -/
def max : Nat := 18

variable (self : Order)

/-- How many frames this order covers. -/
def frames : Nat := 2 ^ self.get

/-- How many bytes it covers. -/
def bytes : Nat := frameSize * 2 ^ self.get

/-- The order above this one. -/
def up : Option Order :=
  if below : self.get < max then some ⟨self.get + 1, Nat.succ_lt_succ below⟩ else none

/-- The order below this one. -/
def down : Option Order :=
  if self.get = 0 then none
  else some ⟨self.get - 1, Nat.lt_of_le_of_lt (Nat.sub_le _ _) self.bounded⟩

/-- Try each order from this one upward until one answers; the number bounds them. -/
def upward {α : Type} (attempt : Order → Option α) : Nat → Order → Option α
  | 0, here => attempt here
  | steps + 1, here =>
    match attempt here with
    | some found => some found
    | none =>
      match here.up with
      | none => none
      | some up => upward attempt steps up

/-- Try each order from this one downward to another one, until one answers. -/
def downward {α : Type} (attempt : Order → Option α) (last : Order) :
    Nat → Order → Option α
  | 0, here => attempt here
  | steps + 1, here =>
    match attempt here with
    | some found => some found
    | none =>
      match here.down with
      | none => none
      | some down => if down.get < last.get then none else downward attempt last steps down

/-- Whether an address is the base of a block of this order. -/
def aligns (addr : Nat) : Bool := addr % self.bytes == 0

/-- Whether a block of this order is the lower half of its pair. -/
def isLower (addr : Nat) : Bool := addr &&& self.bytes == 0

end Order

/-- Physical memory, in words of eight bytes. -/
abbrev Memory := Nat → Nat

/-- The word at an address. -/
def wordAt (addr : Nat) : Nat := addr / 8

/-- How far physical memory can be reached, and what links are mixed with. -/
structure Window where
  limit : Nat
  cookie : Nat
  deriving DecidableEq

namespace Window

/-- Write the link word of a free block, masked. -/
def writeLink (self : Window) (memory : Memory) (block next : Nat) : Memory :=
  Function.update memory (wordAt block) (next ^^^ self.cookie)

/-- Write a literal zero over the link word. -/
def clearLink (memory : Memory) (block : Nat) : Memory :=
  Function.update memory (wordAt block) 0

/-- Read the link word of a free block, unmasked. -/
def readLink (self : Window) (memory : Memory) (block : Nat) : Nat :=
  memory (wordAt block) ^^^ self.cookie

/-- Write zeroes over a whole block. -/
def zero (memory : Memory) (block : Nat) (order : Order) : Memory :=
  fun word => if wordAt block ≤ word ∧ word < wordAt (block + order.bytes) then 0 else memory word

end Window

/-- One head per order; zero for an empty list. -/
structure Lists where
  head : Order → Nat

namespace Lists

/-- No blocks. -/
def empty : Lists := ⟨fun _ => 0⟩

/-- Replace the head of one order's list. -/
def setHead (self : Lists) (order : Order) (block : Nat) : Lists :=
  ⟨Function.update self.head order block⟩

end Lists

/-- One core's free memory, and what reaching past it has cost. -/
structure Shard where
  clean : Lists
  dirty : Lists
  cleanFrames : Nat
  dirtyFrames : Nat
  served : Nat
  refills : Nat
  remote : Nat
  splits : Nat
  merges : Nat

namespace Shard

/-- A shard before any block. -/
def empty : Shard := ⟨.empty, .empty, 0, 0, 0, 0, 0, 0, 0⟩

/-- The clean lists or the dirty ones. -/
def lists (self : Shard) (clean : Bool) : Lists := if clean then self.clean else self.dirty

/-- Replace the clean lists or the dirty ones. -/
def setLists (self : Shard) (clean : Bool) (lists : Lists) : Shard :=
  if clean then { self with clean := lists } else { self with dirty := lists }

/-- The frames on the clean lists or the dirty ones. -/
def frames (self : Shard) (clean : Bool) : Nat :=
  if clean then self.cleanFrames else self.dirtyFrames

/-- Replace that count. -/
def setFrames (self : Shard) (clean : Bool) (count : Nat) : Shard :=
  if clean then { self with cleanFrames := count } else { self with dirtyFrames := count }

end Shard

section Lists

variable (window : Window) (memory : Memory)

/-- Put a block on one of a shard's lists, without touching the frame counts. -/
def listPush (lists : Lists) (order : Order) (block : Nat) : Memory × Lists :=
  (window.writeLink memory block (lists.head order), lists.setHead order block)

/-- Take the head of one of a shard's lists. -/
def listPop (lists : Lists) (order : Order) : Option (Nat × Lists) :=
  let block := lists.head order
  if block = 0 then none
  else some (block, lists.setHead order (window.readLink memory block))

/-- Put a block on a list of a shard. -/
def shelve (shard : Shard) (order : Order) (clean : Bool) (block : Nat) : Memory × Shard :=
  let pushed := listPush window memory (shard.lists clean) order block
  (pushed.1, shard.setLists clean pushed.2)

/-- Give a block to a shard: onto the list, and into the count. -/
def give (shard : Shard) (order : Order) (clean : Bool) (block : Nat) : Memory × Shard :=
  let shelved := shelve window memory shard order clean block
  (shelved.1, shelved.2.setFrames clean (saturatingAdd (shelved.2.frames clean) order.frames))

/-- Halve a block down to an order, each upper half left on a list; the first number bounds it. -/
def splitFrom (clean : Bool) (block : Nat) (target : Order) :
    Nat → Order → Memory → Shard → Memory × Shard
  | 0, _, memory, shard => (memory, shard)
  | steps + 1, here, memory, shard =>
    if target.get < here.get then
      match here.down with
      | none => (memory, shard)
      | some lower =>
        let shelved := shelve window memory shard lower clean (block + lower.bytes)
        splitFrom clean block target steps lower shelved.1
          { shelved.2 with splits := saturatingAdd shelved.2.splits 1 }
    else (memory, shard)

/-- Split a block down to an order, leaving each upper half on the list. -/
def splitDown (shard : Shard) (clean : Bool) (block : Nat) (source target : Order) :
    Memory × Shard :=
  splitFrom window clean block target source.get source memory shard

/-- Take a block off the list of one order and split it down to another. -/
def popAt (shard : Shard) (order : Order) (clean : Bool) (here : Order) :
    Option (Nat × Memory × Shard) :=
  match listPop window memory (shard.lists clean) here with
  | none => none
  | some (block, lists) =>
    let split := splitDown window memory (shard.setLists clean lists) clean block here order
    some (block, split.1, split.2.setFrames clean (split.2.frames clean - order.frames))

/-- Take a block off one kind of list, splitting a larger one if need be. -/
def popSplit (shard : Shard) (order : Order) (clean : Bool) : Option (Nat × Memory × Shard) :=
  Order.upward (popAt window memory shard order clean) Order.max order

/-- The largest order whose blocks fit at an address, from one that fits upward. -/
def carveOrder (start stop : Nat) : Nat → Order → Order
  | 0, order => order
  | steps + 1, order =>
    match order.up with
    | none => order
    | some up =>
      if up.aligns start = true ∧ start + up.bytes < wordLimit ∧ start + up.bytes ≤ stop then
        carveOrder start stop steps up
      else order

/-- The blocks a range is cut into; the first number bounds them. -/
def carveFrom (stop : Nat) : Nat → Nat → Memory → Shard → Memory × Shard
  | 0, _, memory, shard => (memory, shard)
  | steps + 1, start, memory, shard =>
    if start < stop then
      let order := carveOrder start stop Order.max Order.frame
      let given := give window memory shard order false start
      carveFrom stop steps (start + order.bytes) given.1 given.2
    else (memory, shard)

/-- Cut a range into aligned blocks and give them to a shard, dirty. -/
def carve (shard : Shard) (start stop : Nat) : Memory × Shard :=
  carveFrom window stop ((stop - start) / frameSize) start memory shard

end Lists

section Sorting

variable (window : Window)

/-- Link the smaller head of two sorted lists behind a block; the first number bounds the links. -/
def mergeBehind : Nat → Memory → Nat → Nat → Nat → Option Memory
  | steps, memory, a, b, tail =>
    if a ≠ 0 ∧ b ≠ 0 then
      match steps with
      | 0 => none
      | steps + 1 =>
        if a ≤ b then
          mergeBehind steps (window.writeLink memory tail a) (window.readLink memory a) b a
        else
          mergeBehind steps (window.writeLink memory tail b) a (window.readLink memory b) b
    else some (window.writeLink memory tail (if a ≠ 0 then a else b))

/-- Merge two address-sorted lists into one. -/
def mergeSorted (steps : Nat) (memory : Memory) (a b : Nat) : Option (Memory × Nat) :=
  if a = 0 then some (memory, b)
  else if b = 0 then some (memory, a)
  else if a ≤ b then
    (mergeBehind window steps memory (window.readLink memory a) b a).map (·, a)
  else (mergeBehind window steps memory a (window.readLink memory b) b).map (·, b)

/-- Merge a list, and every full slot it meets, into the first empty slot. -/
def sortCarry (steps : Nat) :
    List Nat → Memory → Nat → Option (Memory × List Nat × Nat)
  | [], memory, carry => some (memory, [], carry)
  | slot :: rest, memory, carry =>
    if slot = 0 then some (memory, carry :: rest, 0)
    else
      match mergeSorted window steps memory slot carry with
      | none => none
      | some (memory, carry) =>
        match sortCarry steps rest memory carry with
        | none => none
        | some (memory, rest, carry) => some (memory, 0 :: rest, carry)

/-- Take the blocks off a list one by one and carry each into the slots. -/
def sortInto (bound : Nat) :
    Nat → Memory → Nat → List Nat → Option (Memory × List Nat)
  | steps, memory, head, pending =>
    if head = 0 then some (memory, pending)
    else
      match steps with
      | 0 => none
      | steps + 1 =>
        match sortCarry window bound pending (window.writeLink memory head 0) head with
        | none => none
        | some (carried, pending, carry) =>
          sortInto bound steps carried (window.readLink memory head)
            (if carry ≠ 0 then pending.set 0 carry else pending)

/-- Merge all slots into one list. -/
def sortOut (bound : Nat) : List Nat → Memory → Nat → Option (Memory × Nat)
  | [], memory, out => some (memory, out)
  | slot :: rest, memory, out =>
    match mergeSorted window bound memory out slot with
    | none => none
    | some (memory, out) => sortOut bound rest memory out

/-- Sort a free list by address.  The number bounds the blocks on it. -/
def sort (bound : Nat) (memory : Memory) (head : Nat) : Option (Memory × Nat) :=
  match sortInto window bound bound memory head (List.replicate 64 0) with
  | none => none
  | some (memory, pending) => sortOut window bound pending memory 0

end Sorting

section Coalescing

variable (window : Window)

/-- Put the blocks of a sorted list back, buddies merged. -/
def pairUp (clean : Bool) (order up : Order) (budget : Nat) :
    Nat → Memory → Shard → Nat → Nat → Option (Memory × Shard × Nat)
  | steps, memory, shard, here, merged =>
    if here = 0 then some (memory, shard, merged)
    else
      match steps with
      | 0 => none
      | steps + 1 =>
        let next := window.readLink memory here
        if next ≠ 0 ∧ merged < budget ∧ order.isLower here = true ∧
            next = here + order.bytes then
          let after := window.readLink memory next
          let cleared := if clean then Window.clearLink memory next else memory
          let shelved := shelve window cleared shard up clean here
          pairUp clean order up budget steps shelved.1
            { shelved.2 with merges := saturatingAdd shelved.2.merges 1 } after (merged + 1)
        else
          let shelved := shelve window memory shard order clean here
          pairUp clean order up budget steps shelved.1 shelved.2 next merged

/-- Merge the buddies on one list. -/
def coalesceList (budget : Nat) (order up : Order) (clean : Bool) (memory : Memory)
    (shard : Shard) (merged : Nat) : Option (Memory × Shard × Nat) :=
  if budget ≤ merged then some (memory, shard, merged)
  else
    let bound := shard.frames clean
    let head := (shard.lists clean).head order
    let emptied := shard.setLists clean ((shard.lists clean).setHead order 0)
    match sort window bound memory head with
    | none => none
    | some (memory, sorted) =>
      pairUp window clean order up budget bound memory emptied sorted merged

/-- Merge the buddies from one order upward. -/
def coalesceFrom (budget : Nat) :
    Nat → Order → Memory → Shard → Nat → Option (Memory × Shard × Nat)
  | 0, _, memory, shard, merged => some (memory, shard, merged)
  | steps + 1, order, memory, shard, merged =>
    match order.up with
    | none => some (memory, shard, merged)
    | some up =>
      match coalesceList window budget order up false memory shard merged with
      | none => none
      | some (memory, shard, merged) =>
        match coalesceList window budget order up true memory shard merged with
        | none => none
        | some (memory, shard, merged) => coalesceFrom budget steps up memory shard merged

/-- Merge buddy pairs on one shard, smallest order first, up to a number of merges. -/
def coalesceShard (memory : Memory) (shard : Shard) (budget : Nat) :
    Option (Memory × Shard × Nat) :=
  coalesceFrom window budget Order.max Order.frame memory shard 0

end Coalescing

end FSystem.Kernel.Mem
