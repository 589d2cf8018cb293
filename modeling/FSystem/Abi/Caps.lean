import Mathlib.Algebra.Ring.Nat

/-!
# Capabilities on the wire

The types of object a capability names, the rights it carries, the handle a
component knows it by, and what the frame owes a component about one slot.
-/

namespace FSystem.Abi

/-- What kind of object a capability names. -/
inductive CapType
  | untyped
  | frame
  | addressSpace
  | channel
  | endpoint
  | irq
  | bufferSet
  deriving DecidableEq

/-- Why a capability operation is refused. -/
inductive CapError
  | noSuchCap
  | revoked
  | wrongType
  | rightNotHeld
  | unknownFlag
  | rightsConflict
  | badAddress
  | quotaExhausted
  deriving DecidableEq

namespace Rights

def read : UInt8 := 1
def write : UInt8 := 2
def execute : UInt8 := 4
def derive : UInt8 := 8
def revoke : UInt8 := 16
def grant : UInt8 := 32

/-- Every right this build defines. -/
def all : UInt8 := read ||| write ||| execute ||| derive ||| revoke ||| grant

/-- No rights at all. -/
def none : UInt8 := 0

/-- Whether all of `asked` are held. -/
def holds (held asked : UInt8) : Bool := held &&& asked == asked

/-- Whether the child's rights add nothing to the parent's. -/
def narrows (parent child : UInt8) : Bool := child &&& ~~~parent == 0

/-- Whether a bit is set that this build does not define. -/
def unknown (bits : UInt8) : Bool := bits &&& ~~~all != 0

end Rights

/-- A component's name for one of its capabilities: a slot and an occupant of it. -/
@[ext] structure Handle where
  index : Nat
  generation : Nat
  deriving DecidableEq

namespace Handle

/-- The handle that names nothing. -/
def null : Handle := ⟨0, 0⟩

/-- The generation a slot is issued at first. -/
def firstGeneration : Nat := 1

/-- The generation at which a slot is not reused: the largest of sixteen bits. -/
def retiredGeneration : Nat := 2 ^ 16 - 1

/-- The handle of a word: the slot in its low half, the generation in its high half. -/
def fromBits (bits : UInt32) : Handle := ⟨bits.toNat % 2 ^ 16, bits.toNat / 2 ^ 16⟩

/-- The word that stands for a handle. -/
def bits (self : Handle) : Nat := self.generation * 2 ^ 16 + self.index

/-- Whether anybody could have issued this handle. -/
def isIssuable (self : Handle) : Bool := self.generation ≠ 0

end Handle

/-- The notices a slot can owe. -/
inductive Notice
  | granted
  | revoked
  | peerGone
  deriving DecidableEq

/-- What the frame owes a component about one slot. -/
inductive Pending
  | quiet
  | granted
  | revoked
  | peerGone
  | grantedThenPeerGone
  deriving DecidableEq

namespace Pending

/-- Whether nothing is owed. -/
def isQuiet (self : Pending) : Bool := self = .quiet

/-- A capability was placed here. -/
def afterGrant : Pending → Pending
  | .quiet => .granted
  | other => other

/-- The capability here was revoked, which supersedes what was owed; an undelivered grant goes
quiet. -/
def afterRevoke : Pending → Pending
  | .granted | .grantedThenPeerGone => .quiet
  | _ => .revoked

/-- The far end of what is here ended. -/
def afterPeerGone : Pending → Pending
  | .granted | .grantedThenPeerGone => .grantedThenPeerGone
  | .revoked => .revoked
  | _ => .peerGone

/-- The next notice owed, and what is owed afterwards. -/
def drain : Pending → Option Notice × Pending
  | .quiet => (none, .quiet)
  | .granted => (some .granted, .quiet)
  | .grantedThenPeerGone => (some .granted, .peerGone)
  | .peerGone => (some .peerGone, .quiet)
  | .revoked => (some .revoked, .quiet)

/-- How many notices are owed. -/
def owed : Pending → Nat
  | .quiet => 0
  | .grantedThenPeerGone => 2
  | _ => 1

end Pending

/-- A deadline the frame has promised a component, told or not. -/
structure Promise where
  deadline : UInt64
  owed : Bool
  deriving DecidableEq

namespace Promise

/-- No promise. -/
def none : Promise := ⟨0, false⟩

/-- Promise a deadline, unless an earlier one is promised. -/
def promise (self : Promise) (deadline : UInt64) : Promise :=
  if self.deadline ≠ 0 ∧ deadline ≥ self.deadline then self else ⟨deadline, true⟩

/-- The deadline, if it has not been told. -/
def drain (self : Promise) : Option UInt64 × Promise :=
  if self.owed then (some self.deadline, { self with owed := false }) else (Option.none, self)

end Promise

/-- A grade the frame tells a component of when it changes. -/
structure Grade where
  value : UInt64
  owed : Bool
  deriving DecidableEq

namespace Grade

/-- The grade a component starts with. -/
def none : Grade := ⟨0, false⟩

/-- Change the grade. -/
def set (self : Grade) (value : UInt64) : Grade :=
  if self.value = value ∧ ¬self.owed then self else ⟨value, true⟩

/-- The grade, if it has not been told. -/
def drain (self : Grade) : Option UInt64 × Grade :=
  if self.owed then (some self.value, { self with owed := false }) else (Option.none, self)

end Grade

end FSystem.Abi
