import FSystem.Abi.Caps
import Mathlib.Data.Nat.Bitwise

/-!
# The capability table

Slots that hold capabilities, each with the generation of its occupant and the
handle it was derived from.  Thirty-two of them are free; more are bought a page
at a time out of the holder's own untyped memory.  A slot that is emptied moves on
to its next generation, and one that runs out of generations is retired.
-/

namespace FSystem.Kernel

open Abi

/-- The bytes of a frame. -/
def frameSize : Nat := 4096

/-- How many slots nobody paid for. -/
def tableSlots : Nat := 32

/-- How many pages of slots a table may buy. -/
def maxPages : Nat := 4

/-- How many slots of thirty-two bytes fit in one page. -/
def slotsPerPage : Nat := frameSize / 32

namespace Watermark

/-- The largest number of sixty-four bits. -/
def most : Nat := 2 ^ 64 - 1

/-- Whether a frame may be carved off an account. -/
def carvable (object extent frame : Nat) : Bool :=
  decide (frame ≤ extent) && decide (object + frame ≤ most)

/-- Carve a frame off an account. -/
def carved (object extent frame : Nat) : Option (Nat × Nat) :=
  if extent < frame then none
  else if most < object + frame then none
  else some (object + frame, extent - frame)

/-- Give some bytes back to an account that started at a floor. -/
def refunded (object extent bytes floor : Nat) : Option (Nat × Nat) :=
  if most < floor + bytes then none
  else if object < floor + bytes then none
  else if most < extent + bytes then none
  else some (object - bytes, extent + bytes)

end Watermark

/-- What a slot says when its capability authorises no mapping. -/
def notMapped : Nat := 2 ^ 64 - 1

/-- One slot. -/
structure Slot where
  kind : Option CapType
  notice : Pending
  rights : UInt8
  /-- Which occupant of this slot. -/
  generation : Nat
  /-- The handle this was derived from; null for what was granted. -/
  parent : Handle
  object : Nat
  extent : Nat
  /-- Where this capability's object was mapped, or `notMapped`. -/
  mapped : Nat
  deriving DecidableEq

namespace Slot

/-- An empty slot whose first occupant is issued at a generation. -/
def fresh (generation : Nat) : Slot :=
  ⟨none, .quiet, Rights.none, generation, .null, 0, 0, notMapped⟩

variable (self : Slot)

/-- Whether anything is here now. -/
def occupied : Bool := self.kind.isSome

/-- The address this capability authorised a mapping at. -/
def mapping : Option Nat :=
  if self.mapped = notMapped then none else some self.mapped

/-- Whether a capability could go here. -/
def vacant : Bool :=
  !self.occupied && decide (self.generation ≠ Handle.retiredGeneration) && self.notice.isQuiet

/-- The slot emptied and moved on to its next generation. -/
def cleared (owes : Bool) (self : Slot) : Slot where
  kind := none
  notice := if owes then self.notice.afterRevoke else self.notice
  rights := Rights.none
  generation := min (self.generation + 1) Handle.retiredGeneration
  parent := .null
  object := 0
  extent := 0
  mapped := notMapped

/-- The slot filled. -/
def filled (owes : Bool) (kind : CapType) (rights : UInt8) (object extent : Nat)
    (parent : Handle) (self : Slot) : Slot where
  kind := some kind
  notice := if owes then self.notice.afterGrant else self.notice
  rights := rights
  generation := self.generation
  parent := parent
  object := object
  extent := extent
  mapped := notMapped

/-- Whether this capability can pay for a frame. -/
def pays : Bool :=
  self.occupied && decide (self.kind = some .untyped) &&
    Rights.holds self.rights Rights.derive &&
    Watermark.carvable self.object self.extent frameSize

/-- The slot after it paid for a frame. -/
def charged : Slot :=
  match Watermark.carved self.object self.extent frameSize with
  | none => self
  | some (next, left) => { self with object := next, extent := left }

end Slot

/-- What a lookup found. -/
structure Found where
  kind : CapType
  rights : UInt8
  object : Nat
  extent : Nat
  deriving DecidableEq

/-- Which slots a revocation has condemned, and how far the caller has read. -/
structure Condemned where
  words : Nat
  cursor : Nat
  deriving DecidableEq

namespace Condemned

/-- Nothing condemned. -/
def none : Condemned := ⟨0, 0⟩

/-- Whether a slot is condemned. -/
def holds (self : Condemned) (index : Nat) : Bool := self.words.testBit index

/-- Condemn one slot. -/
def mark (self : Condemned) (index : Nat) : Condemned :=
  { self with words := self.words ||| 2 ^ index }

theorem holds_mark (self : Condemned) (index other : Nat) :
    (self.mark index).holds other = true ↔ other = index ∨ self.holds other = true := by
  simp only [holds, mark, Nat.testBit_or, Bool.or_eq_true, Nat.testBit_two_pow, decide_eq_true_eq]
  rw [or_comm, eq_comm]

@[simp] theorem holds_none (index : Nat) : none.holds index = false := by
  simp [holds, none]

end Condemned

/-- One process's capabilities. -/
structure Table where
  /-- The free slots, then the bought ones, page after page. -/
  slots : List Slot
  /-- How many pages were bought. -/
  grown : Nat
  /-- The generation the first occupant of a newly bought slot is issued at. -/
  floor : Nat
  /-- Whether the holder has somewhere to receive a notice. -/
  postsNotices : Bool
  length_slots : slots.length = tableSlots + grown * slotsPerPage
  grown_le : grown ≤ maxPages

/-- Where the memory a table buys is reached. -/
abbrev Backing := Nat → Option Nat

namespace Table

/-- A table holding nothing. -/
def empty : Table where
  slots := List.replicate tableSlots (Slot.fresh Handle.firstGeneration)
  grown := 0
  floor := Handle.firstGeneration
  postsNotices := false
  length_slots := by simp
  grown_le := Nat.zero_le _

variable (self : Table)

/-- How many slots exist. -/
def capacity : Nat := tableSlots + self.grown * slotsPerPage

/-- The slot at an index. -/
def slotAt (index : Nat) : Option Slot := self.slots[index]?

/-- Rewrite one slot. -/
def modify (index : Nat) (change : Slot → Slot) : Table where
  slots := self.slots.modify index change
  grown := self.grown
  floor := self.floor
  postsNotices := self.postsNotices
  length_slots := by rw [List.length_modify, self.length_slots]
  grown_le := self.grown_le

variable (handle : Handle)

/-- Which slot a handle names. -/
def resolve : Except CapError Nat :=
  if ¬handle.isIssuable then .error .noSuchCap
  else if self.capacity ≤ handle.index then .error .noSuchCap
  else
    match self.slotAt handle.index with
    | none => .error .noSuchCap
    | some slot =>
      if handle.generation ≠ slot.generation then
        .error (if handle.generation < slot.generation then .revoked else .noSuchCap)
      else if ¬slot.occupied then .error .noSuchCap
      else .ok handle.index

/-- What a handle names. -/
def inspect : Except CapError Found :=
  match self.resolve handle with
  | .error error => .error error
  | .ok index =>
    match self.slotAt index with
    | none => .error .noSuchCap
    | some slot =>
      match slot.kind with
      | none => .error .noSuchCap
      | some kind => .ok ⟨kind, slot.rights, slot.object, slot.extent⟩

/-- What a handle names, refused unless it carries every right in `asked`. -/
def invokeAny (asked : UInt8) : Except CapError Found :=
  match self.inspect handle with
  | .error error => .error error
  | .ok found => if ¬Rights.holds found.rights asked then .error .rightNotHeld else .ok found

/-- What a handle names, if it is of a kind and carries every right in `asked`. -/
def invoke (kind : CapType) (asked : UInt8) : Except CapError Found :=
  match self.inspect handle with
  | .error error => .error error
  | .ok found =>
    if found.kind ≠ kind then .error .wrongType
    else if ¬Rights.holds found.rights asked then .error .rightNotHeld
    else .ok found

/-- The lowest slot a capability could go in. -/
def vacancy : Option Nat :=
  (List.range self.capacity).find? fun index => (self.slotAt index).any Slot.vacant

/-- Put a capability in the lowest free slot. -/
def place (kind : CapType) (rights : UInt8) (object extent : Nat) (parent : Handle) :
    Except CapError Handle × Table :=
  match self.vacancy with
  | none => (.error .quotaExhausted, self)
  | some index =>
    match self.slotAt index with
    | none => (.error .quotaExhausted, self)
    | some slot =>
      (.ok ⟨index, slot.generation⟩,
        self.modify index (Slot.filled self.postsNotices kind rights object extent parent))

/-- Put a capability in, as the root of a derivation tree. -/
def grant (kind : CapType) (rights : UInt8) (object extent : Nat) :
    Except CapError Handle × Table :=
  self.place kind rights object extent .null

/-- The first slot that can pay for a page. -/
def account : Option Nat :=
  (List.range self.capacity).find? fun index => (self.slotAt index).any Slot.pays

/-- The table with one more page of empty slots. -/
def withPage (room : self.grown < maxPages) : Table where
  slots := self.slots ++ List.replicate slotsPerPage (Slot.fresh self.floor)
  grown := self.grown + 1
  floor := self.floor
  postsNotices := self.postsNotices
  length_slots := by
    rw [List.length_append, List.length_replicate, self.length_slots, Nat.succ_mul, Nat.add_assoc]
  grown_le := room

/-- Buy one more page of slots, charging a capability this table holds. -/
def grow (backing : Backing) : Except CapError Unit × Table :=
  if room : self.grown < maxPages then
    match self.account with
    | none => (.error .quotaExhausted, self)
    | some account =>
      match self.slotAt account with
      | none => (.error .quotaExhausted, self)
      | some slot =>
        match backing slot.object with
        | none => (.error .quotaExhausted, self)
        | some _ => (.ok (), (self.withPage room).modify account Slot.charged)
  else (.error .quotaExhausted, self)

/-- What a derivation produces; it advances the watermark of an untyped region. -/
def retype : Except CapError (CapType × Nat × Nat) × Table :=
  match self.resolve handle with
  | .error error => (.error error, self)
  | .ok index =>
    match self.slotAt index with
    | none => (.error .noSuchCap, self)
    | some slot =>
      match slot.kind with
      | none => (.error .noSuchCap, self)
      | some kind =>
        if kind ≠ .untyped then (.ok (kind, slot.object, slot.extent), self)
        else
          match Watermark.carved slot.object slot.extent frameSize with
          | none => (.error .quotaExhausted, self)
          | some _ => (.ok (.frame, slot.object, frameSize), self.modify index Slot.charged)

/-- Make room for one more capability. -/
def makeRoom (backing : Backing) : Except CapError Unit × Table :=
  if self.vacancy.isNone then self.grow backing else (.ok (), self)

/-- Mint a weaker capability from one this table holds. -/
def derive (handle : Handle) (asked : UInt8) (backing : Backing) :
    Except CapError Handle × Table :=
  if Rights.unknown asked then (.error .unknownFlag, self)
  else
    match self.invokeAny handle Rights.derive with
    | .error error => (.error error, self)
    | .ok parent =>
      if ¬Rights.narrows parent.rights asked then (.error .rightNotHeld, self)
      else
        match self.makeRoom backing with
        | (.error error, table) => (.error error, table)
        | (.ok (), table) =>
          match table.retype handle with
          | (.error error, table) => (.error error, table)
          | (.ok (kind, object, extent), table) => table.place kind asked object extent handle

/-- Empty one slot. -/
def clear (index : Nat) : Table := self.modify index (Slot.cleared self.postsNotices)

/-- Whether a parent link is one of the slots already condemned. -/
def markedParent (parent : Handle) (doomed : Condemned) : Bool :=
  doomed.holds parent.index &&
    (self.slotAt parent.index).any fun slot => slot.generation == parent.generation

/-- Whether a slot hangs below a handle or below a condemned slot. -/
def hangs (doomed : Condemned) (slot : Slot) : Bool :=
  slot.occupied && slot.parent.isIssuable &&
    (decide (slot.parent = handle) || self.markedParent slot.parent doomed)

/-- Look at one slot: condemn it if it hangs below what is condemned. -/
def descend (progress : Condemned × Bool) (index : Nat) : Condemned × Bool :=
  if progress.1.holds index then progress
  else if (self.slotAt index).any (self.hangs handle progress.1) then
    (progress.1.mark index, true)
  else progress

/-- Look at every slot once. -/
def descendAll (doomed : Condemned) : Condemned × Bool :=
  (List.range self.capacity).foldl (self.descend handle) (doomed, false)

/-- Look at every slot until nothing more is condemned. -/
def descendantsLoop (handle : Handle) : Nat → Condemned → Condemned
  | 0, doomed => doomed
  | fuel + 1, doomed =>
    let result := self.descendAll handle doomed
    if result.2 then descendantsLoop handle fuel result.1 else result.1

/-- Every slot below a handle in the derivation tree. -/
def descendants : Condemned :=
  self.descendantsLoop handle (self.capacity + 1) .none

/-- Mark everything derived from a capability. -/
def condemn : Except CapError Condemned :=
  match self.invokeAny handle Rights.revoke with
  | .error error => .error error
  | .ok _ => .ok (self.descendants handle)

/-- The next address a condemned capability records, looking at some slots. -/
def nextMappingIn : Nat → Condemned → Option Nat × Condemned
  | 0, condemned => (none, condemned)
  | fuel + 1, condemned =>
    if condemned.cursor < self.capacity then
      let passed := { condemned with cursor := condemned.cursor + 1 }
      match
        if condemned.holds condemned.cursor then
          (self.slotAt condemned.cursor).bind Slot.mapping
        else none
      with
      | some page => (some page, passed)
      | none => nextMappingIn fuel passed
    else (none, condemned)

/-- The next address a condemned capability had authorised a mapping at. -/
def nextMapping (condemned : Condemned) : Option Nat × Condemned :=
  self.nextMappingIn (self.capacity - condemned.cursor) condemned

/-- Clear every condemned slot. -/
def sweep (condemned : Condemned) : Table :=
  (List.range self.capacity).foldl
    (fun table index => if condemned.holds index then table.clear index else table) self

/-- How many slots a sweep clears. -/
def sweepCount (condemned : Condemned) : Nat :=
  (List.range self.capacity).countP condemned.holds

/-- Withdraw everything derived from a capability. -/
def revoke : Except CapError Nat × Table :=
  match self.condemn handle with
  | .error error => (.error error, self)
  | .ok condemned => (.ok (self.sweepCount condemned), self.sweep condemned)

/-- The slots giving up a capability would empty. -/
def condemnOwn : Except CapError Condemned :=
  match self.condemn handle with
  | .error error => .error error
  | .ok condemned =>
    match self.resolve handle with
    | .error error => .error error
    | .ok index => .ok (condemned.mark index)

/-- Give up a capability and everything derived from it. -/
def relinquish : Except CapError Nat × Table :=
  match self.condemnOwn handle with
  | .error error => (.error error, self)
  | .ok condemned => (.ok (self.sweepCount condemned), self.sweep condemned)

/-- Give the top of an untyped region back to it. -/
def refund (bytes floor : Nat) : Except CapError Unit × Table :=
  match self.resolve handle with
  | .error error => (.error error, self)
  | .ok index =>
    match self.slotAt index with
    | none => (.error .noSuchCap, self)
    | some slot =>
      if slot.kind ≠ some .untyped then (.error .wrongType, self)
      else
        match Watermark.refunded slot.object slot.extent bytes floor with
        | none => (.error .badAddress, self)
        | some (object, extent) =>
          (.ok (), self.modify index fun slot => { slot with object := object, extent := extent })

/-- Record that a capability's object is mapped at an address. -/
def noteMapping (virt : Nat) : Except CapError Unit × Table :=
  match self.resolve handle with
  | .error error => (.error error, self)
  | .ok index =>
    match self.slotAt index with
    | none => (.error .noSuchCap, self)
    | some slot =>
      if slot.mapped ≠ notMapped then (.error .badAddress, self)
      else (.ok (), self.modify index fun slot => { slot with mapped := virt })

/-- Say that the holder has a control ring. -/
def owesNotices : Table := { self with postsNotices := true }

/-- Note that the far end of what a handle names has ended. -/
def notePeerGone : Except CapError Unit × Table :=
  match self.resolve handle with
  | .error error => (.error error, self)
  | .ok index =>
    (.ok (), if self.postsNotices then
      self.modify index fun slot => { slot with notice := slot.notice.afterPeerGone }
    else self)

/-- The next notice owed about a slot. -/
def nextSlotNotice : Option (Notice × Handle) × Table :=
  match (List.range self.capacity).find? fun index =>
      (self.slotAt index).any fun slot => !slot.notice.isQuiet with
  | none => (none, self)
  | some index =>
    match self.slotAt index with
    | none => (none, self)
    | some slot =>
      (slot.notice.drain.1.map fun notice => (notice, ⟨index, slot.generation⟩),
        self.modify index fun slot => { slot with notice := slot.notice.drain.2 })

/-- Clear one slot if it is occupied. -/
def clearOccupied (index : Nat) : Table :=
  if (self.slotAt index).any Slot.occupied then self.clear index else self

/-- The largest generation of the bought slots, and no less than the floor. -/
def reached : Nat :=
  (List.range' tableSlots (self.capacity - tableSlots)).foldl
    (fun floor index => max floor ((self.slotAt index).elim floor Slot.generation)) self.floor

/-- The table without its bought pages and without anything owed. -/
def withoutPages (floor : Nat) : Table where
  slots := (self.slots.take tableSlots).map fun slot => { slot with notice := .quiet }
  grown := 0
  floor := floor
  postsNotices := false
  length_slots := by
    rw [List.length_map, List.length_take, self.length_slots, Nat.zero_mul]
    omega
  grown_le := Nat.zero_le _

/-- Forget everything, when a process ends. -/
def clearAll : Table :=
  let cleared := (List.range self.capacity).foldl clearOccupied self
  cleared.withoutPages cleared.reached

end Table

end FSystem.Kernel
