import FSystem.Generation.Tree
import FSystem.Hash.Streaming

/-!
# The fold

A node's hash is the hash of its encoding with each child replaced by that
child's hash.  A tree the checker accepts is laid out as its nodes are encoded,
so the root names every byte of it.
-/

namespace FSystem.Generation

open Abi Hash Bytes List

namespace Fold

/-- A leaf's hash. -/
def leaf (node : Leaf) : Digest := (Sha256.new.update node.toBytes).finish

/-- The topology's hash: its head, every member's hash, every route. -/
def topology (tree : Tree) : Digest :=
  let headed := Sha256.new.update tree.head.toBytes
  let folded := Sha256.updateEach (fun member => (leaf member).bytes) tree.member headed
    (range tree.members)
  (Sha256.updateEach Route.toBytes tree.route folded (range tree.routes)).finish

/-- The root of a tree. -/
def root (tree : Tree) : Digest :=
  (((Sha256.new.update Abi.Generation.toBytes).update (leaf tree.frame).bytes).update
    (topology tree).bytes).finish

end Fold

namespace Tree

variable (tree : Tree)

/-- The members, in order. -/
def memberList : List Leaf := (range tree.members).filterMap tree.member

/-- The routes, in order. -/
def routeList : List Route := (range tree.routes).filterMap tree.route

/-- What the topology's hash is the hash of. -/
def topologyContent : Bytes :=
  tree.head.toBytes ++ ((tree.memberList.map fun member => (Fold.leaf member).bytes).flatten ++
    (tree.routeList.map Route.toBytes).flatten)

/-- What the root is the hash of. -/
def rootContent : Bytes :=
  Abi.Generation.toBytes ++ ((Fold.leaf tree.frame).bytes ++ (Fold.topology tree).bytes)

/-- Every string the fold of a tree hashes. -/
def hashed : List Bytes :=
  tree.rootContent :: tree.topologyContent :: tree.frame.toBytes :: tree.memberList.map Leaf.toBytes

end Tree

namespace Fold

/-- The fold streams the topology's content. -/
theorem topology_eq (tree : Tree) : topology tree = sha256 tree.topologyContent := by
  have headed := Sha256.update_absorbed Sha256.absorbed_new tree.head.toBytes
  have folded := Sha256.updateEach_absorbed (fun member => (leaf member).bytes) tree.member
    headed (range tree.members)
  have routed := Sha256.updateEach_absorbed Route.toBytes tree.route folded (range tree.routes)
  exact routed.finish

/-- The fold streams the root's content. -/
theorem root_eq (tree : Tree) : root tree = sha256 tree.rootContent := by
  have first := Sha256.update_absorbed Sha256.absorbed_new Abi.Generation.toBytes
  have second := Sha256.update_absorbed first (leaf tree.frame).bytes
  have third := Sha256.update_absorbed second (topology tree).bytes
  exact third.finish

end Fold

namespace Tree

variable {tree : Tree} {bytes : Bytes} {Item : Type}

/-- Items found in consecutive places of one width are encoded by the bytes there. -/
theorem flatten_of_slices (encode : Item → Bytes) (item : Nat → Option Item)
    (offset width count : Nat)
    (found : ∀ index < count, ∃ one, item index = some one ∧
      encode one = slice bytes (offset + index * width) width) :
    (((range count).filterMap item).map encode).flatten = slice bytes offset (count * width) := by
  have encoded : ((range count).filterMap item).map encode =
      blocks width (bytes.drop offset) count := by
    rw [map_filterMap, blocks, ← filterMap_eq_map]
    refine filterMap_congr ?_
    intro index inside
    obtain ⟨one, isOne, encodes⟩ := found index (List.mem_range.mp inside)
    simp [isOne, encodes, block, slice]
  rw [encoded, flatten_blocks]
  rfl

theorem route_of_checked (checked : Checked bytes tree) {index : Nat}
    (below : index < tree.routes) :
    ∃ route, tree.route index = some route ∧
      route.toBytes = slice bytes
        (topologyAt + Topology.headBytes + index * Route.bytes) Route.bytes := by
  have bound : (index + 1) * Route.bytes ≤ tree.routes * Route.bytes := Nat.mul_le_mul_right _ below
  have whole := checked.length
  rw [Nat.succ_mul] at bound
  have inside : topologyAt + Topology.headBytes + index * Route.bytes + Route.bytes ≤
      bytes.length := by
    rw [whole, membersAt, Topology.bytes]
    unfold Tree.routes at bound
    omega
  refine ⟨_, ?_, Route.toBytes_fromBytes (length_slice bytes _ _ inside)⟩
  rw [Tree.route, if_neg (Nat.not_le.mpr below), checked.bytes_eq, if_neg (Nat.not_lt.mpr inside)]

/-- A tree that was accepted is its nodes, one behind the other. -/
theorem encoding_of_checked (checked : Checked bytes tree) :
    bytes = Abi.Generation.toBytes ++ (tree.frame.toBytes ++ (tree.head.toBytes ++
      ((tree.routeList.map Route.toBytes).flatten ++
        (tree.memberList.map Leaf.toBytes).flatten))) := by
  have members := flatten_of_slices Leaf.toBytes tree.member tree.membersAt Leaf.bytes
    tree.members checked.member
  have routes := flatten_of_slices Route.toBytes tree.route (topologyAt + Topology.headBytes)
    Route.bytes tree.routes (fun _ below => route_of_checked checked below)
  have root : Abi.Generation.toBytes = slice bytes 0 frameAt := checked.root
  have offset : tree.membersAt = topologyAt + Topology.headBytes + tree.routes * Route.bytes :=
    (Nat.add_assoc _ _ _).symm
  have whole : frameAt + (Leaf.bytes + (Topology.headBytes + (tree.routes * Route.bytes +
      tree.members * Leaf.bytes))) = bytes.length := by
    rw [checked.length, offset, topologyAt]
    omega
  rw [memberList, members, routeList, routes, root, checked.frame, checked.head, offset,
    slice_append_slice, slice_append_slice, topologyAt, slice_append_slice]
  have joined := slice_append_slice bytes 0 frameAt (Leaf.bytes + (Topology.headBytes +
    (tree.routes * Route.bytes + tree.members * Leaf.bytes)))
  rw [Nat.zero_add, whole] at joined
  rw [joined, slice_all _ _ rfl]

/-- Lists whose encodings hash alike are encoded alike, without a collision. -/
theorem map_eq_of_map_hash_eq (encode : Item → Bytes) {first second : List Item}
    (collisionFree : ∀ one ∈ first, ∀ other ∈ second,
      sha256 (encode one) = sha256 (encode other) → encode one = encode other)
    (same : first.map (fun item => sha256 (encode item)) =
      second.map fun item => sha256 (encode item)) : first.map encode = second.map encode := by
  induction first generalizing second with
  | nil =>
    rw [map_nil, eq_comm, map_eq_nil_iff] at same
    rw [same]
  | cons one rest ih =>
    cases second with
    | nil => cases same
    | cons other others =>
      obtain ⟨head, tail⟩ := List.cons.inj same
      rw [map_cons, map_cons,
        collisionFree one mem_cons_self other mem_cons_self head,
        ih (fun item member another among =>
          collisionFree item (mem_cons_of_mem _ member) another (mem_cons_of_mem _ among)) tail]

/-- A topology's content is made of its head, its members' hashes and its routes. -/
theorem topologyContent_injective
    {first second : Tree}
    {firstBytes secondBytes : Bytes}
    (one : Checked firstBytes first)
    (other : Checked secondBytes second)
    (same : first.topologyContent = second.topologyContent) :
    first.head = second.head ∧
      first.memberList.map Fold.leaf = second.memberList.map Fold.leaf ∧
      (first.routeList.map Route.toBytes).flatten =
        (second.routeList.map Route.toBytes).flatten := by
  obtain ⟨heads, rest⟩ := append_inj same (by simp)
  have head := Topology.toBytes_injective heads
  have counted : ∀ {tree : Tree} {bytes : Bytes}, Checked bytes tree →
      tree.memberList.length = tree.members := by
    intro tree bytes checked
    rw [memberList, length_filterMap_eq_countP]
    rw [List.countP_eq_length.mpr, length_range]
    intro index inside
    obtain ⟨found, isFound, -⟩ := checked.member index (List.mem_range.mp inside)
    rw [isFound]
    rfl
  have count : first.memberList.length = second.memberList.length := by
    rw [counted one, counted other, Tree.members, Tree.members, head]
  have wide : ∀ (tree : Tree), ∀ piece ∈ tree.memberList.map fun member =>
      (Fold.leaf member).bytes, piece.length = 32 := by
    intro tree piece member
    obtain ⟨found, -, rfl⟩ := List.mem_map.mp member
    exact (Fold.leaf found).length_eq
  have lengths : ∀ (tree : Tree), (tree.memberList.map fun member =>
      (Fold.leaf member).bytes).flatten.length = tree.memberList.length * 32 := by
    simp [length_flatten, Function.comp_def, Digest.length_eq]
  obtain ⟨hashes, routes⟩ := append_inj rest (by rw [lengths, lengths, count])
  have bytes := flatten_injective 32 (wide first) (wide second) (by simp [count]) hashes
  refine ⟨head, ?_, routes⟩
  have decoded := congrArg (map Digest.ofBytes) bytes
  simpa only [map_map, Function.comp_def, Digest.ofBytes_bytes] using decoded

theorem toBytes_mem_hashed {leaf : Leaf} (member : leaf ∈ tree.memberList) :
    leaf.toBytes ∈ tree.hashed := by
  simp only [hashed, mem_cons]
  exact .inr (.inr (.inr (mem_map_of_mem member)))

/-- A root names every byte of a tree, unless two hashed strings collide. -/
theorem bytes_eq_of_root_eq
    {a b : Bytes}
    {first second : Tree}
    (one : Checked a first)
    (other : Checked b second)
    (collisionFree : ∀ one ∈ first.hashed, ∀ other ∈ second.hashed,
      sha256 one = sha256 other → one = other)
    (same : Fold.root first = Fold.root second) : a = b := by
  -- The roots are hashes of three pieces of fixed width.
  rw [Fold.root_eq, Fold.root_eq] at same
  have roots := collisionFree _ mem_cons_self _ mem_cons_self same
  obtain ⟨-, children⟩ := append_inj roots rfl
  obtain ⟨frames, topologies⟩ := append_inj children
    ((Digest.length_eq _).trans (Digest.length_eq _).symm)
  -- The frames are hashed as they are stored.
  have frame : first.frame.toBytes = second.frame.toBytes :=
    collisionFree _ (by simp [hashed]) _ (by simp [hashed]) (Digest.ext frames)
  -- The topologies are hashes of the head, the members' hashes and the routes.
  have hashes := Digest.ext topologies
  rw [Fold.topology_eq, Fold.topology_eq] at hashes
  have contents := collisionFree _ (by simp [hashed]) _ (by simp [hashed]) hashes
  obtain ⟨head, leaves, routes⟩ := topologyContent_injective one other contents
  have members : first.memberList.map Leaf.toBytes = second.memberList.map Leaf.toBytes := by
    refine map_eq_of_map_hash_eq Leaf.toBytes ?_ leaves
    exact fun leaf member another among =>
      collisionFree _ (toBytes_mem_hashed member) _ (toBytes_mem_hashed among)
  rw [encoding_of_checked one, encoding_of_checked other, frame, head, routes, members]

end Tree

/-- Two accepted trees with one root are the same bytes, unless two of the strings
their folds hash collide. -/
theorem root_determines_tree
    (a b : Bytes)
    (first second : Tree)
    (acceptedA : Tree.check a = .ok first)
    (acceptedB : Tree.check b = .ok second)
    (collisionFree : ∀ one ∈ first.hashed, ∀ other ∈ second.hashed,
      sha256 one = sha256 other → one = other)
    (same : Fold.root first = Fold.root second) : a = b :=
  Tree.bytes_eq_of_root_eq (Tree.check_ok acceptedA) (Tree.check_ok acceptedB) collisionFree same

/-- A name of one letter. -/
def letter (byte : UInt8) : Name :=
  ⟨byte :: zeros 31, by simp [nameMax]⟩

/-- A tree of a frame, one component and one route. -/
def sample (component : UInt8) : Bytes :=
  Abi.Generation.toBytes ++ ((Leaf.mk Node.bytes.code Digest.zero (letter 0x66)).toBytes ++
    ((Topology.mk 1 1).toBytes ++ ((Route.mk 0 0 (letter 0x63)).toBytes ++
      (Leaf.mk Node.component.code Digest.zero (letter component)).toBytes)))

theorem root_determines_tree_sample :
    ∃ tree, Tree.check (sample 0x61) = .ok tree ∧ tree.members = 1 ∧ tree.routes = 1 ∧
      tree.bytes = sample 0x61 := by
  have accepted : Tree.check (sample 0x61) = .ok ⟨sample 0x61, ⟨1, 1⟩⟩ := by decide +kernel
  have collisionFree : ∀ one ∈ (Tree.mk (sample 0x61) ⟨1, 1⟩).hashed,
      ∀ other ∈ (Tree.mk (sample 0x61) ⟨1, 1⟩).hashed, sha256 one = sha256 other → one = other := by
    decide +kernel
  exact ⟨⟨sample 0x61, ⟨1, 1⟩⟩, accepted, rfl, rfl,
    root_determines_tree (sample 0x61) (sample 0x61) _ _ accepted accepted collisionFree rfl⟩

end FSystem.Generation
