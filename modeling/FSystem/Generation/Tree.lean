import FSystem.Abi.Nodes

/-!
# Record trees

One buffer, walked from the front: the generation node, the frame's leaf, the
topology's head, its routes, and its members.  The checker refuses a name outside
its alphabet, a duplicate, a dangling index, a wrong order and a wrong length, and
a tree it accepts is laid out as its nodes say, with no byte left over.
-/

namespace FSystem.Generation

open Abi Hash

/-- Where the frame's leaf begins. -/
def frameAt : Nat := Abi.Generation.bytes

/-- Where the topology's head begins. -/
def topologyAt : Nat := frameAt + Leaf.bytes

/-- Why a tree is not believed. -/
inductive Refusal
  | length
  | node (error : NodeError)
  | kind
  | name
  | duplicateName
  | duplicateRoute
  | dangling
  | order
  | routeOrder
  deriving DecidableEq

/-- A record tree: the bytes it was checked over and its topology's counts. -/
structure Tree where
  bytes : Bytes
  head : Topology
  deriving DecidableEq

/-- The byte of a hyphen. -/
def hyphen : UInt8 := 0x2d

/-- Whether a byte may stand in a name. -/
def nameByte (byte : UInt8) : Bool :=
  (decide (0x61 ≤ byte ∧ byte ≤ 0x7a) || decide (0x30 ≤ byte ∧ byte ≤ 0x39)) || byte == hyphen

/-- Whether a field holds a name: of the alphabet, no hyphen at either end, zeros behind it. -/
def named (padded : Name) : Bool :=
  let stop := (padded.bytes.findIdx? (· == 0)).getD nameMax
  let name := padded.bytes.take stop
  if name.isEmpty then false
  else if ¬(padded.bytes.drop stop).all (· == 0) then false
  else if name.head? = some hyphen ∨ name.getLast? = some hyphen then false
  else name.all nameByte

/-- Decode the leaf at an offset. -/
def leafAt (bytes : Bytes) (offset : Nat) : Except Refusal Leaf :=
  if bytes.length < offset + Leaf.bytes then .error .length
  else
    match Leaf.fromBytes (Bytes.slice bytes offset Leaf.bytes) with
    | .error error => .error (.node error)
    | .ok leaf => .ok leaf

namespace Tree

/-- The leaf at an offset of a checked tree. -/
def leaf (self : Tree) (offset : Nat) : Leaf :=
  let raw :=
    if self.bytes.length < offset + Leaf.bytes then Bytes.zeros Leaf.bytes
    else Bytes.slice self.bytes offset Leaf.bytes
  match Leaf.fromBytes raw with
  | .error _ => ⟨0, Digest.zero, Name.zero⟩
  | .ok leaf => leaf

/-- The frame's leaf. -/
def frame (self : Tree) : Leaf := self.leaf frameAt

/-- How many components the topology names. -/
def members (self : Tree) : Nat := self.head.members.toNat

/-- How many routes it declares. -/
def routes (self : Tree) : Nat := self.head.routes.toNat

/-- Where the members begin. -/
def membersAt (self : Tree) : Nat := topologyAt + self.head.bytes

/-- One member. -/
def member (self : Tree) (index : Nat) : Option Leaf :=
  if self.members ≤ index then none
  else some (self.leaf (self.membersAt + index * Leaf.bytes))

/-- One route. -/
def route (self : Tree) (index : Nat) : Option Route :=
  if self.routes ≤ index then none
  else
    let offset := topologyAt + Topology.headBytes + index * Route.bytes
    if self.bytes.length < offset + Route.bytes then none
    else some (Route.fromBytes (Bytes.slice self.bytes offset Route.bytes))

/-- Check members from an index on: component leaves with names that strictly increase. -/
def checkMembers (self : Tree) : Nat → Nat → Option Name → Except Refusal Unit
  | 0, _, _ => .ok ()
  | count + 1, index, previous =>
    match leafAt self.bytes (self.membersAt + index * Leaf.bytes) with
    | .error refusal => .error refusal
    | .ok leaf =>
      if leaf.kind ≠ Node.component.code then .error .kind
      else if ¬named leaf.name then .error .name
      else
        match previous.map fun before => compare before.bytes leaf.name.bytes with
        | some .eq => .error .duplicateName
        | some .gt => .error .order
        | _ => self.checkMembers count (index + 1) (some leaf.name)

/-- How two routes stand to each other: by the component, then by the capability. -/
def compareRoutes (before route : Route) : Ordering :=
  (compare before.component route.component).then
    (compare before.capability.bytes route.capability.bytes)

/-- Check routes from an index on: no dangling index, and names that strictly increase. -/
def checkRoutes (self : Tree) : Nat → Nat → Option Route → Except Refusal Unit
  | 0, _, _ => .ok ()
  | count + 1, index, previous =>
    match self.route index with
    | none => .error .length
    | some route =>
      if self.head.members ≤ route.component ∨ self.head.members ≤ route.source then
        .error .dangling
      else if ¬named route.capability then .error .name
      else
        match previous.map fun before => compareRoutes before route with
        | some .eq => .error .duplicateRoute
        | some .gt => .error .routeOrder
        | _ => self.checkRoutes count (index + 1) (some route)

/-- Check a record tree. -/
def check (bytes : Bytes) : Except Refusal Tree :=
  if bytes.length < topologyAt + Topology.headBytes then .error .length
  else
    match Abi.Generation.fromBytes (bytes.take Abi.Generation.bytes) with
    | .error error => .error (.node error)
    | .ok () =>
      match leafAt bytes frameAt with
      | .error refusal => .error refusal
      | .ok frame =>
        if frame.kind ≠ Node.bytes.code then .error .kind
        else if ¬named frame.name then .error .name
        else
          match Topology.fromBytes (Bytes.slice bytes topologyAt Topology.headBytes) with
          | .error error => .error (.node error)
          | .ok head =>
            let tree : Tree := ⟨bytes, head⟩
            if bytes.length ≠ tree.membersAt + tree.members * Leaf.bytes then
              .error .length
            else
              match tree.checkMembers tree.members 0 none with
              | .error refusal => .error refusal
              | .ok () =>
                match tree.checkRoutes tree.routes 0 none with
                | .error refusal => .error refusal
                | .ok () => .ok tree

end Tree

variable {bytes : Bytes} {leaf : Leaf} {offset : Nat}

/-- A leaf that was decoded is encoded by the bytes at its offset. -/
theorem leafAt_ok (ok : leafAt bytes offset = .ok leaf) :
    offset + Leaf.bytes ≤ bytes.length ∧
      Leaf.fromBytes (Bytes.slice bytes offset Leaf.bytes) = .ok leaf ∧
      leaf.toBytes = Bytes.slice bytes offset Leaf.bytes := by
  unfold leafAt at ok
  split at ok
  · cases ok
  rename_i inside
  have within := Nat.le_of_not_lt inside
  split at ok <;> cases ok
  rename_i found
  exact ⟨within, found, Leaf.toBytes_fromBytes (Bytes.length_slice bytes offset _ within) found⟩

namespace Tree

variable {tree : Tree}

theorem leaf_of_leafAt (ok : leafAt tree.bytes offset = .ok leaf) : tree.leaf offset = leaf := by
  obtain ⟨inside, decoded, -⟩ := leafAt_ok ok
  simp only [Tree.leaf, if_neg (Nat.not_lt.mpr inside), decoded]

theorem checkMembers_ok {count index : Nat} {previous : Option Name}
    (ok : tree.checkMembers count index previous = .ok ()) :
    ∀ step < count, ∃ leaf,
      leafAt tree.bytes (tree.membersAt + (index + step) * Leaf.bytes) = .ok leaf := by
  revert ok
  fun_induction checkMembers tree count index previous with
  | case1 => exact fun _ _ below => absurd below (Nat.not_lt_zero _)
  | case7 count index previous leaf found _ _ _ _ ih =>
    intro ok step below
    cases step with
    | zero => exact ⟨leaf, found⟩
    | succ step =>
      rw [Nat.add_comm step, ← Nat.add_assoc]
      exact ih ok step (Nat.lt_of_succ_lt_succ below)
  | _ => nofun

/-- What the checker has seen of a tree it accepts. -/
structure Checked (bytes : Bytes) (tree : Tree) : Prop where
  bytes_eq : tree.bytes = bytes
  root : Abi.Generation.toBytes = bytes.take Abi.Generation.bytes
  frame : tree.frame.toBytes = Bytes.slice bytes frameAt Leaf.bytes
  head : tree.head.toBytes = Bytes.slice bytes topologyAt Topology.headBytes
  length : bytes.length = tree.membersAt + tree.members * Leaf.bytes
  member : ∀ index < tree.members, ∃ leaf, tree.member index = some leaf ∧
    leaf.toBytes = Bytes.slice bytes (tree.membersAt + index * Leaf.bytes) Leaf.bytes

/-- What is accepted is well formed. -/
theorem check_ok (ok : check bytes = .ok tree) : Checked bytes tree := by
  revert ok
  fun_cases check bytes with
  | case10 long root frame found _ _ head decoded _ whole members routes => ?_
  | _ => nofun
  intro ok
  obtain rfl := Except.ok.inj ok
  have within := Nat.le_of_not_lt long
  have room : Abi.Generation.bytes ≤ bytes.length := le_trans (by decide) within
  refine ⟨rfl, ?_, ?_, ?_, not_not.mp whole, ?_⟩
  · refine Abi.Generation.toBytes_fromBytes ?_ root
    rw [List.length_take, Nat.min_eq_left room]
  · rw [Tree.frame, leaf_of_leafAt found]
    exact (leafAt_ok found).2.2
  · exact Topology.toBytes_fromBytes (Bytes.length_slice bytes _ _ within) decoded
  · intro index below
    obtain ⟨leaf, found⟩ := checkMembers_ok members index below
    rw [Nat.zero_add] at found
    refine ⟨leaf, ?_, (leafAt_ok found).2.2⟩
    rw [Tree.member, if_neg (Nat.not_le.mpr below), leaf_of_leafAt found]

end Tree

end FSystem.Generation
