import FSystem.Blob.Laws
import FSystem.Index.Record

/-!
# The index

A log in a region of a device, and a map in memory.  A mount replays the log into the
map; a change is appended to the block being filled before the map is told, and a block
is written once, when it is full or when a barrier seals it.
-/

namespace FSystem

open Abi Blob Hash

namespace Index

/-- Namespace, then name, to content address. -/
abbrev Names : Type := Std.TreeMap UInt8 (Std.TreeMap Bytes Digest)

/-- What a map says a name means in a namespace. -/
def lookup (entries : Names) (namespace_ : UInt8) (name : Bytes) : Option Digest :=
  match entries[namespace_]? with
  | some names => names[name]?
  | none => none

/-- Apply one replayed or newly written entry to the map. -/
def apply (entries : Names) (entry : Entry) : Names :=
  if entry.op = Op.remove then
    match entries[entry.namespace_]? with
    | some names => entries.insert entry.namespace_ (names.erase entry.name)
    | none => entries
  else
    entries.insert entry.namespace_ ((entries.getD entry.namespace_ ∅).insert entry.name entry.hash)

/-- Apply the entries of one block from a cursor on; each takes at least one byte of the fuel. -/
def replayBlock (blockBytes : Nat) (block : Bytes) :
    Nat → Nat → Names → Except Refusal Names
  | 0, _, entries => .ok entries
  | fuel + 1, cursor, entries =>
    if cursor + headBytes ≤ blockBytes ∧ paddingAt block cursor = false then
      match Entry.fromSlice (block.drop cursor) with
      | .error refusal => .error refusal
      | .ok entry =>
        match entry.encodedBytes with
        | .error refusal => .error refusal
        | .ok width => replayBlock blockBytes block fuel (cursor + width) (apply entries entry)
    else .ok entries

end Index

/-- Names to hashes, over one region of one device. -/
structure Index (D : Type) where
  device : D
  /-- The first block of the log region. -/
  first : Nat
  /-- How many blocks the log region holds. -/
  blocks : Nat
  /-- How many blocks of the region have been sealed. -/
  used : Nat
  /-- The block being filled. -/
  pending : Bytes
  entries : Index.Names

namespace Index

variable {D : Type}

/-- What a name means in a namespace. -/
def get (self : Index D) (namespace_ : UInt8) (name : Bytes) : Option Digest :=
  lookup self.entries namespace_ name

variable [Device D] (self : Index D)

/-- The length of a block of the device. -/
abbrev blockBytes : Nat := Device.blockBytes self.device

/-- Read one block of the region. -/
abbrev readBlock (position : Nat) : Except Refusal Bytes :=
  Device.read self.device (self.first + position) self.blockBytes

/-- Walk at most so many sealed blocks and rebuild the map. -/
def replay : Nat → Index D → Except Refusal (Index D)
  | 0, self => .ok self
  | left + 1, self =>
    match self.readBlock self.used with
    | .error refusal => .error refusal
    | .ok block =>
      -- A block nothing was ever written to is where the log ends.
      if paddingAt block 0 then .ok self
      else
        match replayBlock self.blockBytes block (self.blockBytes + 1) 0 self.entries with
        | .error refusal => .error refusal
        | .ok entries => replay left { self with used := self.used + 1, entries := entries }

/-- An index of a region before anything was replayed into it. -/
def blank (device : D) (first blocks : Nat) : Index D := ⟨device, first, blocks, 0, [], ∅⟩

/-- Mount the log of a region and replay it into memory. -/
def mount (device : D) (first blocks : Nat) : Except Refusal (Index D) :=
  if Device.blockBytes device < entryMaxBytes then .error .malformed
  else if blocks = 0 ∨ 2 ^ 64 ≤ first + blocks ∨ Device.blocks device < first + blocks then
    .error .address
  else replay blocks (blank device first blocks)

/-- The block being filled, padded with zeros. -/
def sealedBlock : Bytes :=
  self.pending ++ Bytes.zeros (self.blockBytes - self.pending.length)

/-- Write the block being filled and start a new one. -/
def seal_ : Except Refusal Unit × Index D :=
  if self.pending = [] then (.ok (), self)
  else if self.blocks ≤ self.used then (.error .full, self)
  else
    match Device.write self.device (self.first + self.used) self.sealedBlock with
    | (.error refusal, device) => (.error refusal, { self with device := device })
    | (.ok (), device) =>
      (.ok (), { self with device := device, used := self.used + 1, pending := [] })

/-- Put an entry into a block that has room for it. -/
def place (entry : Entry) (width : Nat) : Except Refusal Unit × Index D :=
  if self.blocks ≤ self.used then (.error .full, self)
  else
    match entry.toSlice width with
    -- The block was extended before the entry was refused.
    | .error refusal => (.error refusal, { self with pending := self.pending ++ Bytes.zeros width })
    | .ok bytes => (.ok (), { self with pending := self.pending ++ bytes })

/-- Put an entry into the block being filled; one that does not fit seals the block first. -/
def append (entry : Entry) : Except Refusal Unit × Index D :=
  match entry.encodedBytes with
  | .error refusal => (.error refusal, self)
  | .ok width =>
    if ¬Ns.known entry.namespace_ then (.error .unknown, self)
    else if self.blockBytes < self.pending.length + width then
      match self.seal_ with
      | (.error refusal, next) => (.error refusal, next)
      | (.ok (), next) => next.place entry width
    else self.place entry width

/-- Append an entry, and apply it to the map only if the append was not refused. -/
def record (entry : Entry) : Except Refusal Unit × Index D :=
  match self.append entry with
  | (.error refusal, next) => (.error refusal, next)
  | (.ok (), next) => (.ok (), { next with entries := apply next.entries entry })

/-- Record that a name means a hash. -/
def set (self : Index D) (namespace_ : UInt8) (name : Bytes) (hash : Digest) :
    Except Refusal Unit × Index D :=
  self.record ⟨namespace_, Op.set, hash, name⟩

/-- Record that a name means nothing. -/
def remove (self : Index D) (namespace_ : UInt8) (name : Bytes) :
    Except Refusal Unit × Index D :=
  self.record ⟨namespace_, Op.remove, Digest.zero, name⟩

/-- Seal the current block, if there is one, and issue the device's barrier. -/
def barrier : Except Refusal Unit × Index D :=
  match self.seal_ with
  | (.error refusal, next) => (.error refusal, next)
  | (.ok (), next) =>
    ((Device.flush next.device).1, { next with device := (Device.flush next.device).2 })

/-- A call on a mounted index. -/
inductive Call where
  | set (namespace_ : UInt8) (name : Bytes) (hash : Digest)
  | remove (namespace_ : UInt8) (name : Bytes)
  | barrier

/-- What a call answers, and the index it leaves. -/
def answer : Call → Except Refusal Unit × Index D
  | .set namespace_ name hash => self.set namespace_ name hash
  | .remove namespace_ name => self.remove namespace_ name
  | .barrier => self.barrier

/-- The index after some calls, whatever each of them answered. -/
def run (calls : List Call) : Index D :=
  calls.foldl (fun index call => (index.answer call).2) self

end Index
end FSystem
