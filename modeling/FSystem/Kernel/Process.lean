import FSystem.Kernel.Table
import FSystem.Kernel.Paging

/-!
# A process's capability calls

Deriving, mapping and revoking as the system-call door answers them: the capability
table and the page tables are two structures, and a call may update one and be refused
before it updates the other.
-/

namespace FSystem.Kernel

open Abi

/-- What a core knows of its process: the allocator, the top-level table (zero if there is
none), and whether pages can refuse instruction fetches. -/
structure State where
  frames : Nat
  root : Nat
  nx : Bool

/-- A process's capabilities, and the page tables under each top-level table. -/
structure Process where
  table : Table
  spaces : Nat → Paging.Space

namespace Process

variable (state : State) (self : Process)

/-- The kernel's window onto physical memory reaches every frame. -/
def direct : Backing := fun phys => some phys

/-- Mint a weaker capability, or a copy, and answer with its handle. -/
def derive (handle : Handle) (asked : Nat) : Except CapError Nat × Process :=
  if 2 ^ 8 ≤ asked then (.error .unknownFlag, self)
  else if state.frames = 0 then (.error .quotaExhausted, self)
  else
    let result := self.table.derive handle (UInt8.ofNat asked) direct
    (result.1.map Handle.bits, { self with table := result.2 })

/-- A mapping whose authority has been checked. -/
structure Request where
  frame : Handle
  phys : Nat
  root : Nat
  virt : Nat
  kind : Paging.UserPage

/-- The rights that describe a mapping. -/
def mappingRights : UInt8 := Rights.read ||| Rights.write ||| Rights.execute

/-- What kind of page some rights ask for. -/
def pageKind (asked : UInt8) : Except CapError Paging.UserPage :=
  if asked &&& Rights.write != 0 then
    if asked &&& Rights.execute != 0 then .error .rightsConflict else .ok .data
  else if asked &&& Rights.execute != 0 then .ok .text
  else .ok .readOnly

/-- The checks of a mapping: authority first, then the argument, whose low twelve bits are the
rights asked for and the rest the address. -/
def authorise (frame space : Handle) (second : Nat) : Except CapError Request :=
  let virt := second / frameSize * frameSize
  let low := second % frameSize
  if 2 ^ 8 ≤ low then .error .unknownFlag
  else if UInt8.ofNat low &&& ~~~mappingRights != 0 then .error .unknownFlag
  else
    match self.table.invoke frame .frame (UInt8.ofNat low) with
    | .error error => .error error
    | .ok object =>
      match self.table.invoke space .addressSpace Rights.write with
      | .error error => .error error
      | .ok target =>
        match pageKind (UInt8.ofNat low) with
        | .error error => .error error
        | .ok kind =>
          if UInt8.ofNat low &&& Rights.read == 0 then .error .rightsConflict
          else if state.frames = 0 then .error .quotaExhausted
          else .ok ⟨frame, object.object, target.object, virt, kind⟩

/-- The page tables a checked mapping leaves. -/
def build (request : Request) : Except Paging.BuildError Paging.Space :=
  Paging.mapUserLive (self.spaces request.root) request.virt request.phys request.kind state.nx

/-- Map a frame into an address space, on the two capabilities that name them. -/
def mapFrame (frame space : Handle) (second : Nat) : Except CapError Nat × Process :=
  match self.authorise state frame space second with
  | .error error => (.error error, self)
  | .ok request =>
    match self.build state request with
    | .error _ => (.error .badAddress, self)
    | .ok built =>
      let spaces := Function.update self.spaces request.root built
      match self.table.noteMapping request.frame request.virt with
      | (.error error, table) => (.error error, ⟨table, spaces⟩)
      | (.ok (), table) => (.ok 0, ⟨table, spaces⟩)

/-- Take one mapping out of the running process's space; `none` is a machine that was stopped. -/
def withdraw (page : Nat) : Option (Except CapError Unit × Process) :=
  if state.frames = 0 ∨ state.root = 0 then some (.error .badAddress, self)
  else
    match Paging.unmapUserLive (self.spaces state.root) page with
    | .error _ => none
    | .ok built =>
      some (.ok (), { self with spaces := Function.update self.spaces state.root built })

/-- Withdraw the mappings of condemned capabilities one at a time. -/
def drain : Nat → Condemned → Process → Option (Except CapError Unit × Process)
  | 0, _, process => some (.ok (), process)
  | fuel + 1, condemned, process =>
    match process.table.nextMapping condemned with
    | (none, _) => some (.ok (), process)
    | (some page, passed) =>
      match process.withdraw state page with
      | none => none
      | some (.error error, process) => some (.error error, process)
      | some (.ok (), process) => drain fuel passed process

/-- Withdraw everything derived from a capability, its mappings first. -/
def revoke (handle : Handle) : Option (Except CapError Nat × Process) :=
  match self.table.condemn handle with
  | .error error => some (.error error, self)
  | .ok condemned =>
    match drain state (self.table.capacity + 1) condemned self with
    | none => none
    | some (.error error, process) => some (.error error, process)
    | some (.ok (), process) =>
      some (.ok (process.table.sweepCount condemned),
        { process with table := process.table.sweep condemned })

/-- A capability call, with the two words a process passes. -/
inductive Call
  | derive (first second : UInt64)
  | mapFrame (first second : UInt64)
  | revoke (first : UInt64)

/-- The handle in the low half of a word. -/
def lowHandle (word : UInt64) : Handle := Handle.fromBits word.toUInt32

/-- The handle in the high half of a word. -/
def highHandle (word : UInt64) : Handle := Handle.fromBits (word >>> 32).toUInt32

/-- Answer one call. -/
def answer : Call → Option (Except CapError Nat × Process)
  | .derive first second => some (self.derive state (lowHandle first) second.toNat)
  | .mapFrame first second =>
    some (self.mapFrame state (lowHandle first) (highHandle first) second.toNat)
  | .revoke first => self.revoke state (lowHandle first)

end Process

end FSystem.Kernel
