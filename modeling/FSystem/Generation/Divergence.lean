import FSystem.Generation.Fold

/-!
# Divergence

The first place two record trees stop agreeing, in the order of the fold: the frame,
the members, the routes.
-/

namespace FSystem.Generation

open Abi Hash

/-- Where two trees stop agreeing. -/
inductive Divergence
  | leaf (left right : Leaf)
  | membership (left right : Option Leaf)
  | route (index : Nat) (left right : Option Route)
  | head
  | compiler
  deriving DecidableEq

/-- What a tree is compared by. -/
inductive Place
  | frame
  | member (index : Nat)
  | route (index : Nat)

namespace Tree

variable (left right : Tree)

/-- The places of two trees, in the order of the fold. -/
def places : List Place :=
  .frame :: ((List.range (max left.members right.members)).map .member ++
    (List.range (max left.routes right.routes)).map .route)

/-- What differs at a place. -/
def compareAt : Place → Option Divergence
  | .frame =>
    if Fold.leaf left.frame = Fold.leaf right.frame then none
    else some (.leaf left.frame right.frame)
  | .member index =>
    match left.member index, right.member index with
    | some one, some other =>
      if one.name ≠ other.name then some (.membership (some one) (some other))
      else if Fold.leaf one = Fold.leaf other then none
      else some (.leaf one other)
    | one, other => some (.membership one other)
  | .route index =>
    match left.route index, right.route index with
    | some one, some other =>
      if one.toBytes = other.toBytes then none else some (.route index (some one) (some other))
    | one, other => some (.route index one other)

/-- The first place at which two trees differ. -/
def divergence : Option Divergence :=
  if Fold.root left = Fold.root right then none
  else
    ((left.places right).findSome? (left.compareAt right)).or
      (some (if left.head.toBytes ≠ right.head.toBytes then .head else .compiler))

/-- The bytes at a place, if there are any. -/
def encoded (tree : Tree) : Place → Option Bytes
  | .frame => some tree.frame.toBytes
  | .member index => (tree.member index).map Leaf.toBytes
  | .route index => (tree.route index).map Route.toBytes

/-- Whether a verdict names a place. -/
def Names : Place → Divergence → Prop
  | .frame, found => found = .leaf left.frame right.frame
  | .member index, .leaf one other => left.member index = some one ∧ right.member index = some other
  | .member index, found => found = .membership (left.member index) (right.member index)
  | .route index, found => found = .route index (left.route index) (right.route index)

variable {left right} {a b : Bytes}

theorem isSome_member (tree : Tree) (index : Nat) :
    (tree.member index).isSome ↔ index < tree.members := by
  simp [member]

theorem isSome_route {tree : Tree} (checked : Checked a tree) (index : Nat) :
    (tree.route index).isSome ↔ index < tree.routes := by
  refine ⟨fun present => ?_, fun below => ?_⟩
  · by_contra past
    simp [route, Nat.le_of_not_lt past] at present
  · obtain ⟨route, found, -⟩ := route_of_checked checked below
    rw [found, Option.isSome_some]

theorem mem_hashed {tree : Tree} {index : Nat} {leaf : Leaf}
    (found : tree.member index = some leaf) :
    leaf.toBytes ∈ tree.hashed := by
  have below := (tree.isSome_member index).mp (found ▸ rfl)
  exact toBytes_mem_hashed (List.mem_filterMap.mpr ⟨index, List.mem_range.mpr below, found⟩)

section Rows

variable {Item Code : Type} {encode : Item → Code} {row other : Nat → Option Item}

/-- Rows encoded alike as far as the longer one goes are encoded alike. -/
theorem rows_eq {count others : Nat} (ends : ∀ index, (row index).isSome ↔ index < count)
    (otherEnds : ∀ index, (other index).isSome ↔ index < others)
    (agree : ∀ index < max count others, (row index).map encode = (other index).map encode) :
    count = others ∧ ((List.range count).filterMap row).map encode =
      ((List.range others).filterMap other).map encode := by
  have same : count = others := by
    by_contra differ
    have here := congrArg Option.isSome (agree (min count others) (by omega))
    rw [Option.isSome_map, Option.isSome_map, Bool.eq_iff_iff, ends, otherEnds] at here
    omega
  subst same
  rw [List.map_filterMap, List.map_filterMap, max_self] at *
  exact ⟨rfl, List.filterMap_congr fun index inside => agree index (List.mem_range.mp inside)⟩

end Rows

section

variable (one : Checked a left) (other : Checked b right)

include one other

/-- Trees that agree at every place are the same bytes. -/
theorem bytes_eq_of_agree
    (agree : ∀ place ∈ left.places right, left.encoded place = right.encoded place) : a = b := by
  obtain ⟨members, leaves⟩ := rows_eq left.isSome_member right.isSome_member fun index below =>
    agree (.member index) (by simpa [places] using below)
  obtain ⟨routes, routed⟩ := rows_eq (isSome_route one) (isSome_route other) fun index below =>
    agree (.route index) (by simpa [places] using below)
  have frame := Option.some.inj (agree .frame List.mem_cons_self)
  have head : left.head = right.head :=
    Topology.ext (UInt16.toNat_inj.mp members) (UInt16.toNat_inj.mp routes)
  rw [encoding_of_checked one, encoding_of_checked other, frame, head, memberList, leaves,
    routeList,
    routed]
  rfl

/-- A place the walk passes over is encoded alike, and one it stops at is not. -/
theorem compareAt_spec (collisionFree : ∀ one ∈ left.hashed, ∀ other ∈ right.hashed,
      sha256 one = sha256 other → one = other)
    (place : Place) (isPlace : place ∈ left.places right) :
    match left.compareAt right place with
    | none => left.encoded place = right.encoded place
    | some found => left.encoded place ≠ right.encoded place ∧ left.Names right place found := by
  cases place with
  | frame =>
    by_cases hashes : Fold.leaf left.frame = Fold.leaf right.frame
    · have bytes := collisionFree _ (by simp [hashed]) _ (by simp [hashed]) hashes
      simp [compareAt, encoded, hashes, bytes]
    · have bytes : left.frame.toBytes ≠ right.frame.toBytes := mt (congrArg sha256) hashes
      simp [compareAt, encoded, Names, hashes, bytes]
  | member index =>
    have below : index < left.members ∨ index < right.members := by simpa [places] using isPlace
    rw [← isSome_member, ← isSome_member] at below
    cases isOne : left.member index <;> cases isOther : right.member index <;>
      simp_all [compareAt, encoded, Names]
    rename_i one other
    have name : one.toBytes = other.toBytes → one.name = other.name := by
      intro same
      have parts := List.append_inj_right' same (by simp [Digest.length_eq, Name.length_eq])
      exact Name.ext (List.append_inj_right' parts (by simp [Name.length_eq]))
    have bytes := collisionFree _ (mem_hashed isOne) _ (mem_hashed isOther)
    by_cases names : one.name = other.name
    · by_cases hashes : Fold.leaf one = Fold.leaf other
      · simp [names, hashes, bytes hashes]
      · simp [names, hashes, isOne, isOther, mt (congrArg sha256) hashes]
    · simp [names, isOne, isOther, mt name names]
  | route index =>
    have below : index < left.routes ∨ index < right.routes := by simpa [places] using isPlace
    rw [← isSome_route one, ← isSome_route other] at below
    cases isOne : left.route index <;> cases isOther : right.route index <;>
      simp_all [compareAt, encoded, Names]
    rename_i one other
    by_cases same : one.toBytes = other.toBytes <;> simp [same]

end

end Tree

/-- The verdict on two accepted trees is exact: there is none just when they are the same bytes,
and one names the first place of the fold where they differ, unless two of the strings their folds
hash collide. -/
theorem divergence_is_exact
    (a b : Bytes)
    (left right : Tree)
    (acceptedA : Tree.check a = .ok left)
    (acceptedB : Tree.check b = .ok right)
    (collisionFree : ∀ one ∈ left.hashed, ∀ other ∈ right.hashed,
      sha256 one = sha256 other → one = other) :
    (left.divergence right = none ↔ a = b) ∧
      ∀ found, left.divergence right = some found →
        ∃ earlier place later, left.places right = earlier ++ place :: later ∧
          left.Names right place found ∧ left.encoded place ≠ right.encoded place ∧
          ∀ before ∈ earlier, left.encoded before = right.encoded before := by
  have one := Tree.check_ok acceptedA
  have other := Tree.check_ok acceptedB
  have same : left.divergence right = none ↔ a = b := by
    constructor
    · intro nothing
      refine Tree.bytes_eq_of_root_eq one other collisionFree ?_
      by_contra differ
      simp [Tree.divergence, differ] at nothing
    · rintro rfl
      cases acceptedA.symm.trans acceptedB
      simp [Tree.divergence]
  have spec := Tree.compareAt_spec one other collisionFree
  refine ⟨same, fun found verdict => ?_⟩
  have roots : Fold.root left ≠ Fold.root right := by
    intro roots
    simp [Tree.divergence, roots] at verdict
  rw [Tree.divergence, if_neg roots] at verdict
  cases walk : (left.places right).findSome? (left.compareAt right) with
  | some met =>
    rw [walk, Option.some_or, Option.some.injEq] at verdict
    subst verdict
    obtain ⟨earlier, place, later, split, stops, passed⟩ := List.findSome?_eq_some_iff.mp walk
    have stop := spec place (split ▸ by simp)
    rw [stops] at stop
    refine ⟨earlier, place, later, split, stop.2, stop.1, fun before member => ?_⟩
    have pass := spec before (split ▸ by simp [member])
    rwa [passed before member] at pass
  | none =>
    -- Neither the head nor the compiler is to blame: trees that agree everywhere are one.
    refine absurd (same.mpr (Tree.bytes_eq_of_agree one other fun place member => ?_)) ?_
    · have pass := spec place member
      rwa [List.findSome?_eq_none_iff.mp walk place member] at pass
    · simp [Tree.divergence, roots]

/-- Two trees whose component has another name. -/
theorem divergence_is_exact_renamed :
    ∃ found earlier place later,
      (⟨sample 0x61, ⟨1, 1⟩⟩ : Tree).divergence ⟨sample 0x62, ⟨1, 1⟩⟩ = some found ∧
      (⟨sample 0x61, ⟨1, 1⟩⟩ : Tree).places ⟨sample 0x62, ⟨1, 1⟩⟩ = earlier ++ place :: later ∧
      (⟨sample 0x61, ⟨1, 1⟩⟩ : Tree).Names ⟨sample 0x62, ⟨1, 1⟩⟩ place found := by
  have isSome : ((⟨sample 0x61, ⟨1, 1⟩⟩ : Tree).divergence ⟨sample 0x62, ⟨1, 1⟩⟩).isSome := by
    decide +kernel
  obtain ⟨found, verdict⟩ := Option.isSome_iff_exists.mp isSome
  obtain ⟨earlier, place, later, split, names, -⟩ := (divergence_is_exact (sample 0x61)
    (sample 0x62) _ _ (by decide +kernel) (by decide +kernel) (by decide +kernel)).2 found verdict
  exact ⟨found, earlier, place, later, verdict, split, names⟩

end FSystem.Generation
