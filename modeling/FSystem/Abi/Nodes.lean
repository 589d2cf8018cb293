import FSystem.Abi.Records

/-!
# The nodes of a generation

Four kinds of node, each with a magic, its kind and its own length in front.
Leaves carry a content address and a name; a topology's head carries two counts;
a route carries two indices and a name; the generation node carries nothing.
Every decoded node is encoded by exactly the bytes it was decoded from.
-/

namespace FSystem.Abi

open Hash Bytes

/-- The kinds of node. -/
inductive Node
  | bytes
  | component
  | topology
  | generation
  deriving DecidableEq

namespace Node

/-- The number a kind has in the encoding. -/
def code : Node → UInt16
  | bytes => 1
  | component => 2
  | topology => 3
  | generation => 4

/-- Whether a number names a kind. -/
def known (value : UInt16) : Bool :=
  value == bytes.code || value == component.code || value == topology.code ||
    value == generation.code

/-- Whether a number names a leaf. -/
def leaf (value : UInt16) : Bool := value == bytes.code || value == component.code

end Node

/-- Why a node is not believed. -/
inductive NodeError
  | malformedHeader
  | unknownFlag
  deriving DecidableEq

/-- The first four bytes of every node. -/
def nodeMagic : UInt32 := 0x444e5f46

/-- The bytes in front of every node. -/
def headerBytes : Nat := 8

/-- The longest name. -/
def nameMax : Nat := 32

/-- The most components one topology names. -/
def membersMax : Nat := 64

/-- The most routes one topology declares. -/
def routesMax : Nat := 256

/-- A name, padded to its full width. -/
@[ext] structure Name where
  bytes : Bytes
  length_eq : bytes.length = nameMax
  deriving DecidableEq

variable {raw : Bytes}

namespace Name

/-- No name at all. -/
def zero : Name := ⟨zeros nameMax, length_zeros _⟩

/-- The name at an offset, padded with zeros when the string is shorter. -/
def ofBytes (raw : Bytes) (offset : Nat) : Name where
  bytes := (slice raw offset nameMax ++ zeros nameMax).take nameMax
  length_eq := by simp [zeros]

theorem ofBytes_bytes {offset : Nat} (inside : offset + nameMax ≤ raw.length) :
    (ofBytes raw offset).bytes = slice raw offset nameMax := by
  have width := length_slice raw offset nameMax inside
  simp only [ofBytes]
  rw [List.take_append_of_le_length (by omega), List.take_of_length_le (by omega)]

end Name

/-- The header every node begins with. -/
def putHeader (kind : UInt16) (bytes : Nat) : Bytes :=
  wordBytes nodeMagic ++ (shortBytes kind ++ shortBytes (UInt16.ofNat bytes))

@[simp] theorem length_putHeader (kind : UInt16) (bytes : Nat) :
    (putHeader kind bytes).length = headerBytes := by
  simp [putHeader, headerBytes]

/-- Believe a node's header, and answer the kind it declares. -/
def header (raw : Bytes) (bytes : Nat) : Except NodeError UInt16 :=
  if raw.length < headerBytes then .error .malformedHeader
  else if word raw 0 ≠ nodeMagic then .error .malformedHeader
  else if (short raw 6).toNat ≠ bytes then .error .malformedHeader
  else if ¬Node.known (short raw 4) then .error .unknownFlag
  else .ok (short raw 4)

/-- Eight bytes are the encoding of the header they read as. -/
theorem putHeader_eq (long : headerBytes ≤ raw.length) (magic : word raw 0 = nodeMagic) :
    putHeader (short raw 4) (short raw 6).toNat = slice raw 0 headerBytes := by
  have length : headerBytes = 8 := rfl
  rw [putHeader, ← magic, wordBytes_word (by omega), shortBytes_short (by omega),
    UInt16.ofNat_toNat, shortBytes_short (by omega),
    slice_append_slice raw 4 2 2, slice_append_slice raw 0 4 4]
  rfl

/-- A header that is believed is the encoding of the kind it declares. -/
theorem header_ok {bytes : Nat} {kind : UInt16} (ok : header raw bytes = .ok kind) :
    putHeader kind bytes = slice raw 0 headerBytes := by
  unfold header at ok
  split_ifs at ok with long magic declared
  cases ok
  rw [← not_not.mp declared]
  exact putHeader_eq (Nat.le_of_not_lt long) (not_not.mp magic)

/-- One content address and the name it is known by. -/
@[ext] structure Leaf where
  kind : UInt16
  hash : Digest
  name : Name
  deriving DecidableEq

namespace Leaf

/-- The encoded length. -/
def bytes : Nat := headerBytes + 32 + nameMax

/-- The leaf, as the tree holds it. -/
def toBytes (self : Leaf) : Bytes :=
  putHeader self.kind bytes ++ (self.hash.bytes ++ self.name.bytes)

/-- Decode a leaf. -/
def fromBytes (raw : Bytes) : Except NodeError Leaf :=
  match header raw bytes with
  | .error error => .error error
  | .ok kind =>
    if ¬Node.leaf kind then .error .unknownFlag
    else .ok ⟨kind, digest raw 8, Name.ofBytes raw 40⟩

/-- A decoded leaf is encoded by the bytes it was decoded from. -/
theorem toBytes_fromBytes {self : Leaf} (width : raw.length = bytes) (ok : fromBytes raw = .ok self)
    : self.toBytes = raw := by
  have seventyTwo : bytes = 72 := rfl
  have thirtyTwo : nameMax = 32 := rfl
  unfold fromBytes at ok
  split at ok
  · cases ok
  rename_i kind believed
  split at ok
  · cases ok
  cases ok
  simp only [toBytes]
  have fields : slice raw 8 32 ++ slice raw 40 nameMax = slice raw 8 64 :=
    slice_append_slice raw 8 32 32
  have whole : slice raw 0 headerBytes ++ slice raw 8 64 =
    slice raw 0 72 := slice_append_slice raw 0 8 64
  rw [header_ok believed, digest_bytes (by omega), Name.ofBytes_bytes (by omega), fields, whole]
  exact slice_all _ _ width

end Leaf

/-- One route: who needs a capability, who provides it, and its name. -/
@[ext] structure Route where
  component : UInt16
  source : UInt16
  capability : Name
  deriving DecidableEq

namespace Route

/-- The encoded length. -/
def bytes : Nat := 2 + 2 + nameMax

/-- The route, as the tree holds it. -/
def toBytes (self : Route) : Bytes :=
  shortBytes self.component ++ (shortBytes self.source ++ self.capability.bytes)

/-- Decode a route. -/
def fromBytes (raw : Bytes) : Route :=
  ⟨short raw 0, short raw 2, Name.ofBytes raw 4⟩

/-- A decoded route is encoded by the bytes it was decoded from. -/
theorem toBytes_fromBytes (width : raw.length = bytes) : (fromBytes raw).toBytes = raw := by
  have thirtySix : bytes = 36 := rfl
  have thirtyTwo : nameMax = 32 := rfl
  simp only [toBytes, fromBytes]
  have fields : slice raw 2 2 ++ slice raw 4 nameMax = slice raw 2 34 :=
    slice_append_slice raw 2 2 32
  have whole : slice raw 0 2 ++ slice raw 2 34 = slice raw 0 36 := slice_append_slice raw 0 2 34
  rw [shortBytes_short (by omega), shortBytes_short (by omega), Name.ofBytes_bytes (by omega),
    fields, whole]
  exact slice_all _ _ width

end Route

/-- How many members and how many routes follow. -/
@[ext] structure Topology where
  members : UInt16
  routes : UInt16
  deriving DecidableEq

namespace Topology

/-- The encoded length of the head. -/
def headBytes : Nat := headerBytes + 2 + 2

/-- The encoded length of the head and the routes behind it. -/
def bytes (self : Topology) : Nat := headBytes + self.routes.toNat * Route.bytes

/-- The head, as the tree holds it. -/
def toBytes (self : Topology) : Bytes :=
  putHeader Node.topology.code self.bytes ++ (shortBytes self.members ++ shortBytes self.routes)

/-- Decode the head; counts out of bounds and a length that is not theirs are refused. -/
def fromBytes (raw : Bytes) : Except NodeError Topology :=
  if word raw 0 ≠ nodeMagic then .error .malformedHeader
  else if short raw 4 ≠ Node.topology.code then .error .unknownFlag
  else if membersMax < (short raw 8).toNat ∨ routesMax < (short raw 10).toNat then
    .error .unknownFlag
  else if (short raw 6).toNat ≠ bytes ⟨short raw 8, short raw 10⟩ then .error .malformedHeader
  else .ok ⟨short raw 8, short raw 10⟩

@[simp] theorem length_toBytes (self : Topology) : self.toBytes.length = headBytes := by
  simp [toBytes, length_putHeader, length_shortBytes, headBytes]

/-- A decoded head is encoded by the bytes it was decoded from. -/
theorem toBytes_fromBytes {self : Topology} (width : raw.length = headBytes)
    (ok : fromBytes raw = .ok self) : self.toBytes = raw := by
  have twelve : headBytes = 12 := rfl
  have eight : headerBytes = 8 := rfl
  unfold fromBytes at ok
  split_ifs at ok with magic kind few declared
  cases ok
  simp only [toBytes]
  have counts : slice raw 8 2 ++ slice raw 10 2 = slice raw 8 4 := slice_append_slice raw 8 2 2
  have whole : slice raw 0 headerBytes ++ slice raw 8 4 = slice raw 0 12 :=
    slice_append_slice raw 0 8 4
  rw [← not_not.mp kind, ← not_not.mp declared, putHeader_eq (by omega) (not_not.mp magic),
    shortBytes_short (by omega), shortBytes_short (by omega), counts, whole]
  exact slice_all _ _ width

/-- The counts can be read off the encoding. -/
theorem toBytes_injective
    {first second : Topology} (same : first.toBytes = second.toBytes) : first = second := by
  obtain ⟨-, counts⟩ := List.append_inj same (by simp)
  obtain ⟨members, routes⟩ := List.append_inj counts (by simp)
  exact Topology.ext (shortBytes_injective members) (shortBytes_injective routes)

end Topology

namespace Generation

/-- The encoded length of the root node. -/
def bytes : Nat := headerBytes

/-- The length of the root node with its two children replaced by hashes. -/
def foldedBytes : Nat := headerBytes + 32 + 32

/-- The root node, as the tree holds it. -/
def toBytes : Bytes := putHeader Node.generation.code foldedBytes

/-- Believe a root node. -/
def fromBytes (raw : Bytes) : Except NodeError Unit :=
  match header raw foldedBytes with
  | .error error => .error error
  | .ok kind => if kind ≠ Node.generation.code then .error .unknownFlag else .ok ()

/-- There is only one root node. -/
theorem toBytes_fromBytes (width : raw.length = bytes) (ok : fromBytes raw = .ok ()) :
    toBytes = raw := by
  unfold fromBytes at ok
  split at ok
  · cases ok
  rename_i kind believed
  split at ok
  · cases ok
  rename_i same
  rw [toBytes, ← not_not.mp same, header_ok believed]
  exact slice_all _ _ width

end Generation

end FSystem.Abi
