import FSystem.Library.Runs
import FSystem.Semantic.Tree
import Mathlib.Data.List.Nodup

/-!
# The tree restated

A receiver restates what it holds in the order of the slots.  A later declaration fills a
slot that a removal freed, so parents need not come first, and a node before its parent is
refused.
-/

namespace FSystem.Semantic

open List

/-- How a node arranges its children. -/
inductive Flow
  | inline | block | wrap | own
  deriving DecidableEq

/-- Why a role is not presented. -/
inductive Unpresentable
  | pixels | media
  deriving DecidableEq

/-- What a remote does with a role. -/
def presentable : Role → Except Unpresentable Flow
  | .surface | .group | .list | .tree | .table | .choice => .ok .block
  | .item | .row | .cell | .track => .ok .inline
  | .image => .error .media
  | .canvas => .error .pixels
  | _ => .ok .own

/-- Why a tree is not restated. -/
inductive Refused
  | unpresentable (node : UInt64) (role : Role) (why : Unpresentable)
  | notARole (ordinal : UInt16)
  | outOfOrder (node : UInt64)
  | full
  deriving DecidableEq

/-- A node as the receiver declares it. -/
structure Restated where
  (id parent : UInt64)
  role : Role
  flow : Flow
  state : UInt8
  intent : Option UInt32
  deriving DecidableEq

/-- A node as it is restated. -/
def Node.restated (self : Node) (role : Role) (flow : Flow) : Restated :=
  ⟨self.id, self.parent, role, flow, (self.state.map (·.bits)).getD 0,
    if self.intent = 0 then none else some self.intent⟩

/-- Restate nodes behind those that are restated already. -/
def restateFrom (restated : List Restated) : List Node → Except Refused (List Restated)
  | [] => .ok restated
  | held :: rest =>
    match Role.fromIndex held.role.ordinal.toNat with
    | none => .error (.notARole held.role.ordinal)
    | some role =>
      match presentable role with
      | .error why => .error (.unpresentable held.id role why)
      | .ok flow =>
        if held.parent ≠ noNode ∧ ¬restated.any (·.id = held.parent) then
          .error (.outOfOrder held.id)
        else if nodesMax ≤ restated.length then .error .full
        else restateFrom (restated ++ [held.restated role flow]) rest

/-- What a tree holds, as a declaration that can be presented. -/
def restate (tree : Tree) : Except Refused (List Restated) := restateFrom [] tree.nodes.held

/-- The role of a node is presented. -/
def Node.presented (self : Node) : Bool :=
  (Role.fromIndex self.role.ordinal.toNat).any fun role => (presentable role).isOk

/-- A node and its restatement. -/
def Restates (node : Node) (restated : Restated) : Prop :=
  Role.fromIndex node.role.ordinal.toNat = some restated.role ∧
    restated = node.restated restated.role restated.flow

/-- Every node is at the top or behind its parent, counting those before. -/
def ParentsFirst (before nodes : List Node) : Prop :=
  ∀ index (inside : index < nodes.length), nodes[index].parent = noNode ∨
    nodes[index].parent ∈ (before ++ nodes.take index).map (·.id)

/-- Parents come first, and no node comes before a sibling of a lower rank. -/
def InOrder (nodes : List Node) : Prop :=
  ParentsFirst [] nodes ∧ nodes.Pairwise fun earlier later =>
    earlier.parent = later.parent → earlier.rank ≤ later.rank

instance (nodes : List Node) : Decidable (InOrder nodes) :=
  inferInstanceAs (Decidable ((∀ index (_ : index < nodes.length), _) ∧ nodes.Pairwise _))

/-- The nodes of a tree are restated, parents first and siblings by rank. -/
def Keeps (tree : Tree) (restated : List Restated) : Prop :=
  ∃ nodes, nodes ~ tree.nodes.held ∧ Forall₂ Restates nodes restated ∧ InOrder nodes

theorem parentsFirst_cons (before : List Node) (node : Node) (rest : List Node) :
    ParentsFirst before (node :: rest) ↔
      (node.parent = noNode ∨ node.parent ∈ before.map (·.id)) ∧
        ParentsFirst (before ++ [node]) rest := by
  constructor
  · intro first
    refine ⟨by simpa using first 0 (Nat.succ_pos _), fun index inside => ?_⟩
    simpa using first (index + 1) (Nat.succ_lt_succ inside)
  · rintro ⟨here, later⟩ (_ | index) inside
    · simpa using here
    · simpa using later index (Nat.lt_of_succ_lt_succ inside)

theorem ids_of_restates {nodes : List Node} {restated : List Restated}
    (restates : Forall₂ Restates nodes restated) : nodes.map (·.id) = restated.map (·.id) := by
  rw [← forall₂_eq_eq_eq, forall₂_map_left_iff, forall₂_map_right_iff]
  exact restates.imp fun _ _ restates => (congrArg Restated.id restates.2).symm

/-- Restating goes on exactly as long as every node comes behind its parent. -/
theorem restateFrom_cases
    {done nodes : List Node}
    {restated : List Restated}
    (same : Forall₂ Restates done restated)
    (few : (done ++ nodes).length ≤ nodesMax)
    (presented : ∀ node ∈ nodes, node.presented) :
    (ParentsFirst done nodes ∧
        ∃ all, restateFrom restated nodes = .ok all ∧ Forall₂ Restates (done ++ nodes) all) ∨
      ¬ParentsFirst done nodes ∧
        ∃ node, restateFrom restated nodes = .error (.outOfOrder node) := by
  induction nodes generalizing done restated with
  | nil => exact .inl ⟨nofun, restated, rfl, by rwa [append_nil]⟩
  | cons node rest ih =>
    obtain ⟨here, presented⟩ := forall_mem_cons.mp presented
    obtain ⟨role, isRole, presents⟩ := (Option.any_eq_true ..).mp here
    rw [restateFrom, isRole, parentsFirst_cons]
    dsimp only
    cases isFlow : presentable role with
    | error why =>
      rw [isFlow] at presents
      cases presents
    | ok flow =>
      dsimp only
      have missed : (node.parent ≠ noNode ∧ ¬restated.any (·.id = node.parent)) ↔
          ¬(node.parent = noNode ∨ node.parent ∈ done.map (·.id)) := by
        rw [ids_of_restates same]
        simp
      by_cases placed : node.parent = noNode ∨ node.parent ∈ done.map (·.id)
      · have restates : Restates node (node.restated role flow) := ⟨isRole, rfl⟩
        have room : ¬nodesMax ≤ restated.length := by
          rw [length_append, same.length_eq, length_cons] at few
          omega
        have later := ih (rel_append same (.cons restates .nil))
          (by rwa [append_assoc]) presented
        rw [append_assoc] at later
        rw [and_iff_right placed, if_neg (missed.not_left.mpr placed), if_neg room]
        exact later
      · rw [if_pos (missed.mpr placed)]
        exact .inr ⟨fun first => placed first.1, _, rfl⟩

theorem length_held_le (slots : Slots) : slots.held.length ≤ nodesMax :=
  (reduceOption_length_le _).trans_eq (by simp)

/-! ## Trees that frames reach -/

/-- The tree held behind some frames. -/
def reached (frames : List Staged) : Tree :=
  Runs.run (fun tree staged => (tree.apply staged).2) Tree.empty frames

namespace Slots

variable {self after : Slots}

/-- The identifiers of the nodes held, in slot order. -/
def ids (self : Slots) : List UInt64 := self.held.map (·.id)

theorem ids_rankFor {parent before : UInt64} {rank : UInt32}
    (ok : self.rankFor parent before = .ok (rank, after)) : after.ids = self.ids := by
  unfold rankFor at ok
  split at ok
  · cases ok
    rfl
  split at ok
  · cases ok
  split at ok
  · cases ok
  cases ok
  rw [ids, ids, held, held, Vector.toList_map, reduceOption_map, map_map]
  refine map_congr_left fun node _ => ?_
  dsimp only [Function.comp]
  split <;> rfl

/-- Filling a free slot adds to what is held. -/
theorem reduceOption_set {slots : List (Option Node)} {index : Nat} (node : Node)
    (free : slots[index]? = some none) :
    (slots.set index (some node)).reduceOption ~ node :: slots.reduceOption := by
  induction slots generalizing index with
  | nil => cases free
  | cons slot rest ih =>
    cases index with
    | zero =>
      cases free
      rfl
    | succ index =>
      cases slot with
      | none => exact ih free
      | some other => exact ((ih free).cons other).trans (.swap ..)

/-- A node is declared under an identifier that is not held. -/
theorem ids_declare {declare : DeclareNode} (ok : self.declare declare = .ok after) :
    declare.node ∉ self.ids ∧ after.ids ~ declare.node :: self.ids := by
  unfold Slots.declare at ok
  split at ok
  · cases ok
  rename_i new
  split at ok
  · cases ok
  split at ok
  · cases ok
  rename_i rank slots ranked
  split at ok
  · cases ok
  rename_i index free
  cases ok
  have isFree : slots.toList[index.val]? = some none := by
    have first : slots.toList.finIdxOf? none = _ := Vector.finIdxOf?_toList
    rw [free, Option.map_some, finIdxOf?_eq_some_iff] at first
    exact List.getElem?_eq_some_iff.mpr ⟨_, first.1⟩
  refine ⟨by simpa [node, ids] using new, ?_⟩
  rw [← ids_rankFor ranked, ids, held, Vector.toList_set]
  exact (reduceOption_set _ isFree).map _

theorem ids_setState {set : SetState} (ok : self.setState set = .ok after) :
    after.ids = self.ids := by
  unfold setState at ok
  split at ok
  · cases ok
  cases ok
  rw [ids, ids, held, held, Vector.toList_set, ← reduceOption_map, ← reduceOption_map, map_set]
  congr 1
  refine ext_getElem? fun position => ?_
  rw [getElem?_set]
  split
  · subst_vars
    simp [Function.comp_def]
  · rfl

/-- A pass leaves some of the nodes. -/
theorem held_filter (stays : Node → Bool) :
    held (self.map fun slot => slot.filter stays) <+ self.held := by
  rw [held, held, Vector.toList_map]
  induction Vector.toList self with
  | nil => exact .slnil
  | cons slot rest ih =>
    cases slot with
    | none => exact ih
    | some node =>
      rw [map_cons, Option.filter_some]
      split
      · exact ih.cons_cons node
      · exact ih.cons node

theorem held_sweep (id : UInt64) (passes gone : Nat) :
    (self.sweep id passes gone).1.held <+ self.held := by
  fun_induction sweep id passes self gone with
  | case1 => exact .refl _
  | case2 => exact held_filter _
  | case3 _ _ _ _ _ _ ih => exact ih.trans (held_filter _)

/-- An edit leaves every identifier held once. -/
theorem nodup_one {delta : Delta} {applied next : Applied} (nodup : self.ids.Nodup)
    (ok : self.one delta applied = .ok (after, next)) : after.ids.Nodup := by
  revert ok
  fun_cases one self delta applied with
  | case1 =>
    rintro ⟨⟩
    exact nodup
  | case3 _ _ _ made =>
    rintro ⟨⟩
    obtain ⟨new, grown⟩ := ids_declare made
    exact grown.nodup_iff.mpr (nodup_cons.mpr ⟨new, nodup⟩)
  | case5 _ _ _ made =>
    rintro ⟨⟩
    exact ids_setState made ▸ nodup
  | case7 remove _ slots gone made =>
    rintro ⟨⟩
    unfold Slots.remove at made
    split at made
    · cases made
    · have fewer := self.held_sweep remove.node nodesMax 0
      rw [Except.ok.inj made] at fewer
      exact nodup.sublist (fewer.map _)
  | _ => nofun

/-- A frame keeps identifiers unique. -/
theorem nodup_each {deltas : List Delta} {applied next : Applied} (nodup : self.ids.Nodup)
    (ok : self.each applied deltas = .ok (after, next)) : after.ids.Nodup := by
  fun_induction each self applied deltas with
  | case1 =>
    cases ok
    exact nodup
  | case2 => cases ok
  | case3 _ _ _ _ _ _ made ih => exact ih (nodup_one nodup made) ok

end Slots

/-- A tree that frames reach holds every identifier once. -/
theorem nodup_reached (frames : List Staged) : (reached frames).nodes.ids.Nodup := by
  refine Runs.invariant_of_step (fun tree : Tree => tree.nodes.ids.Nodup)
    (fun tree staged nodup => ?_) ?_ frames
  · unfold Tree.apply
    split
    · exact nodup
    · rename_i made
      exact Slots.nodup_each nodup made
  · exact .nil

/-- Exactly the trees in order are kept. -/
theorem restate_keeps_iff {tree : Tree} (nodup : tree.nodes.ids.Nodup)
    (presented : ∀ node ∈ tree.nodes.held, node.presented) :
    (∃ restated, restate tree = .ok restated ∧ Keeps tree restated) ↔
      InOrder tree.nodes.held := by
  rcases @restateFrom_cases [] tree.nodes.held [] .nil (length_held_le _) presented with
    ⟨first, all, ok, slots⟩ | ⟨late, node, refused⟩
  · constructor
    · rintro ⟨restated, same, nodes, perm, restates, ordered⟩
      cases ok.symm.trans same
      have sameIds := (ids_of_restates restates).trans (ids_of_restates slots).symm
      suffices nodes = tree.nodes.held from this ▸ ordered
      refine ext_getElem perm.length_eq fun index one other => ?_
      refine inj_on_of_nodup_map nodup (perm.mem_iff.mp (getElem_mem one)) (getElem_mem other) ?_
      have here := congrArg (·[index]?) sameIds
      simpa [one, other] using here
    · exact fun ordered => ⟨all, ok, _, .refl _, slots, ordered⟩
  · refine iff_of_false ?_ fun ordered => late ordered.1
    rintro ⟨restated, ok, -⟩
    cases ok.symm.trans refused

/-- A tree that frames reach, whose roles are presented, is restated with parents first and
siblings by rank exactly if it stands in the slots so. -/
theorem restating_keeps_the_tree_iff
    (frames : List Staged)
    (presented : ∀ node ∈ (reached frames).nodes.held, node.presented) :
    (∃ restated, restate (reached frames) = .ok restated ∧ Keeps (reached frames) restated) ↔
      InOrder (reached frames).nodes.held :=
  restate_keeps_iff (nodup_reached frames) presented

/-- Declare a group. -/
def grouping (node parent before : UInt64) : Delta :=
  ⟨0, 0, 0, 0, .declareNode ⟨node, parent, before, ⟨1⟩, 0⟩⟩

/-- Two nodes under another, the last of which is replaced in the next frame. -/
theorem restating_keeps_the_tree_replaced :
    ∃ restated, restate (reached [⟨[grouping 1 0 0, grouping 2 1 0, grouping 3 1 0], by decide⟩,
        ⟨[⟨0, 0, 0, 0, .remove ⟨3⟩⟩, grouping 4 1 0], by decide⟩]) = .ok restated ∧
      Keeps (reached [⟨[grouping 1 0 0, grouping 2 1 0, grouping 3 1 0], by decide⟩,
        ⟨[⟨0, 0, 0, 0, .remove ⟨3⟩⟩, grouping 4 1 0], by decide⟩]) restated :=
  (restating_keeps_the_tree_iff _ (by decide +kernel)).mpr (by decide +kernel)

/-- A node in a slot that was freed before its parent's is refused, and a node inserted before
another is restated behind it. -/
theorem slots_are_not_in_order :
    (∃ frames, (∀ node ∈ (reached frames).nodes.held, node.presented) ∧
        restate (reached frames) = .error (.outOfOrder 3)) ∧
      ∃ frames, (∀ node ∈ (reached frames).nodes.held, node.presented) ∧
        ¬∃ restated, restate (reached frames) = .ok restated ∧ Keeps (reached frames) restated := by
  refine ⟨⟨[⟨[grouping 1 0 0, grouping 2 0 0, ⟨0, 0, 0, 0, .remove ⟨1⟩⟩, grouping 3 2 0],
    by decide⟩], by decide +kernel⟩, [⟨[grouping 1 0 0, grouping 2 0 1], by decide⟩],
    by decide +kernel, ?_⟩
  rw [restate_keeps_iff (nodup_reached _) (by decide +kernel)]
  decide +kernel

end FSystem.Semantic
