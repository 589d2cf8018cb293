import FSystem.Scene.DirtyMarks

/-!
# The walk over what a frame dirtied

The walk under a marked root is a tour of the picture's forest, so it ends, hands over every
node at or under the root in pre-order and stays inside the budget.  Marks under other marks are
passed over, so no node is handed over twice.
-/

namespace FSystem.Scene

open List Hierarchy

variable {arena : Arena} {picture : Picture} {forest : Hierarchy SlotIx} {unused : List SlotIx}
  {node root : UInt32}

section

variable (pictures : arena.Pictures picture forest unused)

include pictures

section Directions

/-- The node a node hangs under. -/
def nodeAbove (arena : Arena) (node : UInt32) : Option UInt32 :=
  match arena.parentOf node with
  | .ok parent => placeOf parent
  | .error _ => none

/-- The sibling behind a node, where looking for it ends. -/
def siblingBehind (arena : Arena) (node : UInt32) : Option UInt32 := (nextSibling arena node).join

/-- The first child is the picture's. -/
theorem firstChild_eq (holds : picture.forest.Holds node) :
    firstChild arena node = (picture.forest.children (some node)).head? := by
  obtain ⟨cursor, cells, isCursor, chain, held, -, isChildren⟩ := pictures.children_chain holds
  rw [firstChild, isCursor, ← isChildren]
  exact (Arena.childrenNext_eq chain held).1

variable {place : Option UInt32}

/-- The next sibling is the picture's. -/
theorem nextSibling_eq (hangs : picture.forest.parent node = some place) :
    nextSibling arena node = some (following node (picture.forest.children place)) := by
  rw [nextSibling, pictures.parentOf_of_parent hangs]
  cases place with
  | none =>
    obtain ⟨cells, chain, held, bound, isChildren⟩ := pictures.roots_chain
    dsimp only [Option.getD_none]
    rw [if_pos rfl, Arena.siblingAfter_eq chain held bound, isChildren]
  | some above =>
    obtain ⟨cursor, cells, isCursor, chain, held, bound, isChildren⟩ :=
      pictures.children_chain (pictures.formed.holds_above hangs)
    dsimp only [Option.getD_some]
    rw [if_neg (pictures.above_ne_noNode hangs), isCursor]
    dsimp only
    rw [Arena.siblingAfter_eq chain held bound, isChildren]

theorem nodeAbove_eq (hangs : picture.forest.parent node = some place) :
    nodeAbove arena node = place := by
  rw [nodeAbove, pictures.parentOf_of_parent hangs]
  cases place with
  | none => exact if_pos rfl
  | some above => exact if_neg (pictures.above_ne_noNode hangs)

/-- The questions the walk asks lead it through the picture. -/
theorem guides :
    picture.forest.Guides (firstChild arena) (siblingBehind arena) (nodeAbove arena) where
  first _ holds := firstChild_eq pictures holds
  next hangs := by
    rw [siblingBehind, nextSibling_eq pictures hangs]
    rfl
  up hangs := nodeAbove_eq pictures hangs

end Directions

section Walks

/-- What the walk says of a visit, without the kind. -/
def Visit.spot (visit : Visit) : UInt32 × Nat := (visit.node, visit.depth)

/-- The walk goes on from where it is as the tour does. -/
def Walks (arena : Arena) (root : UInt32) (fuel : Nat) (climbing : Bool) (node : UInt32)
    (depth : Nat) (more : List (UInt32 × Nat)) : Prop :=
  ∀ seen tally, tally.nodes + more.length ≤ nodesMax →
    ∃ visits : List Visit, visits.map Visit.spot = more ∧
      walkFrom arena root fuel climbing node depth (seen, tally) =
        some (seen ++ visits, { tally with nodes := tally.nodes + visits.length })

/-- A step of the tour is a step of the walk. -/
theorem walks_of_tour {fuel : Nat} {spot : Spot UInt32} {done more : List (UInt32 × Nat)}
    (tours : tour (firstChild arena) (siblingBehind arena) (nodeAbove arena) root fuel
      spot done = some (done ++ more)) :
    match spot with
    | .visit node depth => picture.forest.Holds node → Walks arena root fuel false node depth more
    | .climb node depth =>
      picture.forest.Holds node → Walks arena root fuel true node depth more := by
  induction fuel generalizing spot done more with
  | zero => cases tours
  | succ fuel ih =>
    cases spot with
    | visit node depth =>
      intro holds seen tally budget
      obtain ⟨rest, isRest⟩ := prefix_of_tour tours
      rw [append_assoc, append_cancel_left_eq] at isRest
      subst isRest
      rw [length_append, length_singleton] at budget
      obtain ⟨kind, isKind⟩ := Option.isSome_iff_exists.mp (pictures.kind_isSome.mpr holds)
      have goesOn : ∀ climbing next nextDepth, Walks arena root fuel climbing next nextDepth rest →
          ∃ visits : List Visit, visits.map Visit.spot = [(node, depth)] ++ rest ∧
            walkFrom arena root fuel climbing next nextDepth
                (seen ++ [⟨node, kind, depth⟩], { tally with nodes := tally.nodes + 1 }) =
              some (seen ++ visits, { tally with nodes := tally.nodes + visits.length }) := by
        intro climbing next nextDepth walks
        obtain ⟨visits, isMore, walked⟩ := walks (seen ++ [⟨node, kind, depth⟩])
          { tally with nodes := tally.nodes + 1 } (by dsimp only; omega)
        refine ⟨⟨node, kind, depth⟩ :: visits, by rw [map_cons, isMore]; rfl, ?_⟩
        rw [walked, append_assoc, singleton_append, length_cons, Nat.add_right_comm, Nat.add_assoc]
      rw [walkFrom, if_neg (by omega), pictures.kindOf_eq, isKind]
      rw [tour, ← append_assoc] at tours
      cases isFirst : firstChild arena node with
      | none =>
        rw [isFirst] at tours
        exact goesOn _ _ _ (ih tours holds)
      | some child =>
        rw [isFirst] at tours
        refine goesOn _ _ _ (ih tours ?_)
        rw [firstChild_eq pictures holds] at isFirst
        have member := mem_of_mem_head? isFirst
        exact holds_of_parent ((pictures.formed.mem_children _ _).mp member)
    | climb node depth =>
      intro holds seen tally budget
      obtain ⟨place, hangs⟩ := holds.exists_parent
      rw [tour] at tours
      rw [walkFrom]
      by_cases atRoot : node = root
      · rw [if_pos atRoot] at tours ⊢
        have isNil := List.self_eq_append_right.mp (Option.some.inj tours)
        subst isNil
        exact ⟨[], rfl, by simp⟩
      rw [if_neg atRoot] at tours ⊢
      rw [siblingBehind, nextSibling_eq pictures hangs] at tours
      rw [nextSibling_eq pictures hangs]
      cases isNext : following node (picture.forest.children place) with
      | some sibling =>
        rw [isNext] at tours
        refine ih tours ?_ seen tally budget
        have member := mem_of_following isNext
        exact holds_of_parent ((pictures.formed.mem_children _ _).mp member)
      | none =>
        rw [isNext] at tours
        rw [nodeAbove_eq pictures hangs] at tours
        rw [pictures.parentOf_of_parent hangs]
        cases place with
        | none =>
          have isNil := List.self_eq_append_right.mp (Option.some.inj tours)
          subst isNil
          exact ⟨[], rfl, by simp⟩
        | some above =>
          dsimp only [Option.getD_some]
          rw [if_neg (pictures.above_ne_noNode hangs)]
          exact ih tours (pictures.formed.holds_above hangs) seen tally budget

variable {out : List (UInt32 × Nat)}

/-- The walk under a node hands over what is at or under it in pre-order. -/
theorem walkSubtree_eq
    (holds : picture.forest.Holds root)
    (visits : picture.forest.Visits 0 [root] out)
    (seen : List Visit)
    (tally : Visited)
    (budget : tally.nodes + out.length ≤ nodesMax) :
    ∃ more : List Visit, more.map Visit.spot = out ∧
      walkSubtree arena (seen, tally) root =
        some (seen ++ more, ⟨tally.nodes + more.length, tally.subtrees + 1, tally.halted⟩) := by
  have tours := (guides pictures).tour_root pictures.formed holds visits
    (show 2 * out.length ≤ 2 * nodesMax by omega)
  obtain ⟨more, isMore, walked⟩ := walks_of_tour pictures tours holds seen
    { tally with subtrees := tally.subtrees + 1 } budget
  refine ⟨more, isMore, ?_⟩
  rw [walkSubtree, pictures.kindOf_eq, if_neg, walked]
  rw [Option.isNone_iff_eq_none, ← Option.not_isSome_iff_eq_none, not_not]
  exact pictures.kind_isSome.mpr holds

theorem walkSubtree_of_not_holds (absent : ¬picture.forest.Holds root) (walk : Walk) :
    walkSubtree arena walk root = some walk := by
  rw [walkSubtree, pictures.kindOf_eq, (pictures.absent absent).1]
  rfl

/-- One after the other, the walks under several nodes. -/
theorem walkAll_eq
    {tops : List UInt32}
    (held : ∀ top ∈ tops, picture.forest.Holds top)
    (visits : picture.forest.Visits 0 tops out)
    (seen : List Visit)
    (tally : Visited)
    (budget : tally.nodes + out.length ≤ nodesMax) :
    ∃ more : List Visit, more.map Visit.spot = out ∧
      tops.foldlM (walkSubtree arena) (seen, tally) = some (seen ++ more,
        ⟨tally.nodes + more.length, tally.subtrees + tops.length, tally.halted⟩) := by
  induction tops generalizing out seen tally with
  | nil =>
    cases visits
    exact ⟨[], rfl, by simp⟩
  | cons top rest ih =>
    cases visits with
    | @cons _ _ _ under later below after =>
      have visitsTop : picture.forest.Visits 0 [top] ((top, 0) :: (under ++ [])) := .cons below .nil
      rw [append_nil] at visitsTop
      rw [length_cons, length_append] at budget
      obtain ⟨first, isFirst, walkedFirst⟩ := walkSubtree_eq pictures
        (held top mem_cons_self) visitsTop seen tally (by rw [length_cons]; omega)
      have size : first.length = under.length + 1 := by
        rw [← length_map Visit.spot, isFirst, length_cons]
      obtain ⟨more, isMore, walkedMore⟩ := ih
        (fun other member => held other (mem_cons_of_mem _ member)) after (seen ++ first)
        ⟨tally.nodes + first.length, tally.subtrees + 1, tally.halted⟩
        (by dsimp only; omega)
      refine ⟨first ++ more, by rw [map_append, isFirst, isMore]; rfl, ?_⟩
      rw [foldlM_cons, walkedFirst]
      refine walkedMore.trans ?_
      simp [Nat.add_assoc, Nat.add_comm 1]

/-- The walk over the whole scene goes from root to root. -/
theorem walkRoots_eq (walk : Walk) :
    walkRoots arena nodesMax arena.roots walk =
      (picture.forest.children none).foldlM (walkSubtree arena) walk := by
  obtain ⟨cells, chain, held, bound, isChildren⟩ := pictures.roots_chain
  rw [← isChildren]
  clear isChildren
  generalize arena.roots = cursor at chain
  generalize nodesMax = fuel at bound
  induction cells generalizing cursor fuel walk with
  | nil =>
    cases chain
    rw [walkRoots.eq_def]
    rfl
  | cons first rest ih =>
    obtain ⟨isFirst, chainRest⟩ := Arena.childrenNext_eq chain held
    cases fuel with
    | zero => cases bound
    | succ fuel =>
      rw [walkRoots.eq_def]
      rcases answer : arena.childrenNext cursor with ⟨one, later⟩
      rw [answer] at isFirst chainRest
      have isOne : one = some (arena.nodeAt first) := isFirst
      subst isOne
      refine Option.bind_congr fun next _ => ?_
      exact ih next (fun one member => held one (mem_cons_of_mem _ member))
        later chainRest fuel (Nat.le_of_succ_le_succ bound)

end Walks

variable {top : UInt32}

section Shadows

variable {marks : Marks} {index : Nat} {way : List UInt32}

/-- On the way up from a mark, another mark is looked for. -/
theorem shadowedAfter_eq (path : picture.forest.Path node way) {left steps : Nat}
    (enough : way.length ≤ left) :
    marks.shadowedAfter arena index left steps node = true ↔
      ∃ other mark, other ≠ index ∧ marks.roots[other]? = some mark ∧ mark ∈ way ∧
        (0 < steps ∨ mark ≠ node ∨ other < index) := by
  have here : ∀ (steps : Nat) (cursor : UInt32),
      (marks.roots.zipIdx.any fun root =>
        root.1 = cursor ∧ root.2 ≠ index ∧ (steps > 0 ∨ root.2 < index)) = true ↔
      ∃ other, other ≠ index ∧ marks.roots[other]? = some cursor ∧ (0 < steps ∨ other < index) := by
    intro steps cursor
    rw [any_eq_true]
    constructor
    · rintro ⟨⟨mark, other⟩, member, holds⟩
      obtain ⟨rfl, different, first⟩ := of_decide_eq_true holds
      exact ⟨other, different, mem_zipIdx_iff_getElem?.mp member, first⟩
    · rintro ⟨other, different, isMark, first⟩
      exact ⟨(cursor, other), mem_zipIdx_iff_getElem?.mpr isMark,
        decide_eq_true ⟨rfl, different, first⟩⟩
  have splits : ∀ {steps : Nat} {one : UInt32} {later : List UInt32}, one ∉ later →
      ((∃ other mark, other ≠ index ∧ marks.roots[other]? = some mark ∧ mark ∈ one :: later ∧
        (0 < steps ∨ mark ≠ one ∨ other < index)) ↔
      (∃ other, other ≠ index ∧ marks.roots[other]? = some one ∧ (0 < steps ∨ other < index)) ∨
        ∃ other mark, other ≠ index ∧ marks.roots[other]? = some mark ∧ mark ∈ later) := by
    intro steps one later fresh
    constructor
    · rintro ⟨other, mark, different, isMark, member, first⟩
      rcases List.mem_cons.mp member with rfl | inLater
      · exact .inl ⟨other, different, isMark, first.imp_right (Or.resolve_left · (· rfl))⟩
      · exact .inr ⟨other, mark, different, isMark, inLater⟩
    · rintro (⟨other, different, isMark, first⟩ | ⟨other, mark, different, isMark, inLater⟩)
      · exact ⟨other, one, different, isMark, mem_cons_self, first.imp_right .inr⟩
      · exact ⟨other, mark, different, isMark, mem_cons_of_mem _ inLater,
          .inr (.inl (ne_of_mem_of_not_mem inLater fresh))⟩
  induction path generalizing left steps with
  | @root one atTop =>
    cases left with
    | zero => cases enough
    | succ left =>
      rw [Marks.shadowedAfter, pictures.parentOf_of_parent atTop, splits List.not_mem_nil, ← here]
      simp
  | @step one above way under rest ih =>
    cases left with
    | zero => cases enough
    | succ left =>
      have fresh := (List.nodup_cons.mp (Hierarchy.Path.step under rest).nodup).1
      have later := @ih _ (steps + 1) (Nat.le_of_succ_le_succ enough)
      rw [Marks.shadowedAfter, pictures.parentOf_of_parent under, splits fresh, ← here]
      simp [pictures.above_ne_noNode under, later]

/-- A mark is passed over if another is above it, or it was marked before. -/
theorem shadowed_iff (isRoot : marks.roots[index]? = some root)
    (holds : picture.forest.Holds root) :
    marks.shadowed arena index = true ↔
      ∃ other mark, other ≠ index ∧ marks.roots[other]? = some mark ∧
        picture.forest.Within mark root ∧ (mark ≠ root ∨ other < index) := by
  obtain ⟨way, path⟩ := pictures.formed.path root holds
  rw [Marks.shadowed, isRoot]
  rw [shadowedAfter_eq pictures path (pictures.length_way_le path)]
  simp [path.mem_iff]

/-- The marks that are walked. -/
def Marks.tops (marks : Marks) (arena : Arena) : List UInt32 :=
  (marks.roots.zipIdx.filter fun (root, index) =>
    arena.holds root && !marks.shadowed arena index).map Prod.fst

omit pictures in
theorem mem_tops :
    top ∈ marks.tops arena ↔ ∃ index, marks.roots[index]? = some top ∧
      arena.holds top = true ∧ marks.shadowed arena index = false := by
  rw [Marks.tops, mem_map]
  simp [mem_zipIdx_iff_getElem?]

/-- Above a mark, or at it, is a mark that is walked. -/
theorem exists_top {mark : UInt32} (path : picture.forest.Path node way)
    (isMark : mark ∈ marks.roots) (member : mark ∈ way) : ∃ top ∈ marks.tops arena, top ∈ way := by
  have topmost : ∀ {one : UInt32}, picture.forest.Holds one → one ∈ marks.roots →
      (∀ other ∈ marks.roots, picture.forest.Within other one → other = one) →
      one ∈ marks.tops arena := by
    intro one holds isMark alone
    have marked := mem_iff_getElem?.mp isMark
    refine mem_tops.mpr ⟨Nat.find marked, Nat.find_spec marked,
      pictures.holds_eq_true.mpr holds, ?_⟩
    rw [← Bool.not_eq_true, shadowed_iff pictures (Nat.find_spec marked) holds]
    rintro ⟨other, second, -, isSecond, within, first⟩
    cases alone second (mem_of_getElem? isSecond) within
    exact Nat.find_min marked (first.resolve_left (· rfl)) isSecond
  induction path generalizing mark with
  | @root one atTop =>
    have rootPath := Hierarchy.Path.root atTop
    cases List.mem_singleton.mp member
    refine ⟨one, topmost (holds_of_parent atTop) isMark ?_, member⟩
    exact fun other _ within => List.mem_singleton.mp (rootPath.mem_iff.mpr within)
  | @step one above way under rest ih =>
    have stepPath := Hierarchy.Path.step under rest
    by_cases higher : ∃ other ∈ marks.roots, other ∈ way
    · obtain ⟨other, isOther, inWay⟩ := higher
      obtain ⟨top, isTop, topInWay⟩ := ih isOther inWay
      exact ⟨top, isTop, mem_cons_of_mem _ topInWay⟩
    have here : mark = one :=
      (List.mem_cons.mp member).resolve_right fun inWay => higher ⟨mark, isMark, inWay⟩
    subst here
    refine ⟨mark, topmost (holds_of_parent under) isMark ?_, member⟩
    intro other isOther within
    refine (List.mem_cons.mp (stepPath.mem_iff.mpr within)).resolve_right fun inWay => ?_
    exact higher ⟨other, isOther, inWay⟩

/-- What is under one mark that is walked is not under another. -/
theorem tops_apart :
    (marks.tops arena).Pairwise fun first second =>
      ¬picture.forest.Within first second ∧ ¬picture.forest.Within second first := by
  have ordered : marks.roots.zipIdx.Pairwise fun first second => first.2 < second.2 := by
    refine List.pairwise_map.mp ?_
    rw [zipIdx_map_snd]
    exact pairwise_lt_range'
  refine List.pairwise_map.mpr ((ordered.filter _).imp_of_mem ?_)
  rintro ⟨first, before⟩ ⟨second, behind⟩ isFirst isSecond inOrder
  simp only [mem_filter, mem_zipIdx_iff_getElem?, Bool.and_eq_true,
    Bool.not_eq_true'] at isFirst isSecond
  obtain ⟨isFirst, holdsFirst, unshadowedFirst⟩ := isFirst
  obtain ⟨isSecond, holdsSecond, unshadowedSecond⟩ := isSecond
  rw [← Bool.not_eq_true,
    shadowed_iff pictures isFirst (pictures.holds_eq_true.mp holdsFirst)] at unshadowedFirst
  rw [← Bool.not_eq_true,
    shadowed_iff pictures isSecond (pictures.holds_eq_true.mp holdsSecond)] at unshadowedSecond
  constructor
  · intro within
    exact unshadowedSecond ⟨before, first, inOrder.ne, isFirst, within, .inr inOrder⟩
  · intro within
    by_cases same : second = first
    · exact unshadowedSecond ⟨before, first, inOrder.ne, isFirst, same ▸ within, .inr inOrder⟩
    · exact unshadowedFirst ⟨behind, second, inOrder.ne', isSecond, within, .inl same⟩

/-- Walking the marks one by one, passing over some, walks those that remain. -/
theorem foldlM_tops (pairs : List (UInt32 × Nat)) (walk : Walk) :
    pairs.foldlM (fun walk (root, index) =>
        if marks.shadowed arena index then some walk else walkSubtree arena walk root) walk =
      ((pairs.filter fun (root, index) =>
        arena.holds root && !marks.shadowed arena index).map Prod.fst).foldlM
          (walkSubtree arena) walk := by
  induction pairs generalizing walk with
  | nil => rfl
  | cons pair rest ih =>
    obtain ⟨root, index⟩ := pair
    rw [foldlM_cons, filter_cons]
    by_cases shadowed : marks.shadowed arena index = true
    · simp only [shadowed, if_true, Bool.not_true, Bool.and_false, Bool.false_eq_true, if_false]
      exact ih walk
    by_cases holds : arena.holds root = true
    · simp only [shadowed, holds, Bool.not_false, Bool.and_true, if_true, Bool.false_eq_true,
        if_false, map_cons, foldlM_cons]
      exact Option.bind_congr fun next _ => ih next
    · have absent : ¬picture.forest.Holds root := mt pictures.holds_eq_true.mpr holds
      simp only [shadowed, Bool.false_eq_true, if_false, walkSubtree_of_not_holds pictures absent]
      simp only [holds, Bool.false_and, Bool.false_eq_true, if_false]
      exact ih walk

end Shadows

section Sealing

variable (closed : Sealed)

/-- Where a walk starts: the roots of the scene, or the marks that are walked. -/
def Sealed.tops (closed : Sealed) (arena : Arena) (picture : Picture) : List UInt32 :=
  if closed.marks.whole then picture.forest.children none else closed.marks.tops arena

/-- The walk visits the tops. -/
theorem Sealed.walk_eq_tops :
    closed.walk arena =
      (closed.tops arena picture).foldlM (walkSubtree arena) ([], ⟨0, 0, false⟩) := by
  rw [Sealed.walk, Sealed.tops]
  split
  · exact walkRoots_eq pictures _
  · exact foldlM_tops pictures _ _

theorem Sealed.of_mem_tops (member : top ∈ closed.tops arena picture) :
    if closed.marks.whole then picture.forest.parent top = some none
    else top ∈ closed.marks.roots ∧ picture.forest.Holds top := by
  rw [Sealed.tops] at member
  split at member
  next whole =>
    rw [if_pos whole]
    exact (pictures.formed.mem_children _ _).mp member
  next marked =>
    rw [if_neg marked]
    obtain ⟨index, isTop, holds, -⟩ := mem_tops.mp member
    exact ⟨mem_of_getElem? isTop, pictures.holds_eq_true.mp holds⟩

/-- No top is under another. -/
theorem Sealed.tops_apart :
    (closed.tops arena picture).Pairwise fun first second =>
      ¬picture.forest.Within first second ∧ ¬picture.forest.Within second first := by
  rw [Sealed.tops]
  split
  · exact pictures.formed.children_apart none
  · exact Scene.tops_apart pictures

/-- Whatever the marks take in is under a node the walk starts from. -/
theorem Sealed.exists_top (covers : closed.marks.Covers picture node)
    (holds : picture.forest.Holds node) :
    ∃ top ∈ closed.tops arena picture, picture.forest.Within top node := by
  obtain ⟨way, path⟩ := pictures.formed.path node holds
  rw [Sealed.tops]
  split
  next =>
    obtain ⟨top, inWay, atTop⟩ := path.exists_root
    exact ⟨top, (pictures.formed.mem_children _ _).mpr atTop, path.mem_iff.mp inWay⟩
  next marked =>
    obtain ⟨mark, isMark, within⟩ := covers.resolve_left marked
    obtain ⟨top, isTop, inWay⟩ := Scene.exists_top pictures path isMark (path.mem_iff.mpr within)
    exact ⟨top, isTop, path.mem_iff.mp inWay⟩

/-- The walk hands over what is at or under its tops in pre-order, none twice: all that the
marks take in. -/
theorem Sealed.walk_eq :
    ∃ visits tally, closed.walk arena = some (visits, tally) ∧ tally.halted = false ∧
      (visits.map Visit.node).Nodup ∧
      picture.forest.Visits 0 (closed.tops arena picture) (visits.map Visit.spot) ∧
      ∀ node, picture.forest.Holds node → closed.marks.Covers picture node →
        node ∈ visits.map Visit.node := by
  have formed := pictures.formed
  have held : ∀ top ∈ closed.tops arena picture, picture.forest.Holds top := by
    intro top member
    have isTop := Sealed.of_mem_tops pictures closed member
    split at isTop
    · exact holds_of_parent isTop
    · exact isTop.2
  obtain ⟨out, visits⟩ := Hierarchy.Visits.of_forall fun top member =>
    Hierarchy.Visits.exists_of_holds formed pictures.finite_nodes (held top member) 0
  have nodup := visits.nodup formed held (Sealed.tops_apart pictures closed)
  have budget : 0 + out.length ≤ nodesMax := by
    rw [Nat.zero_add, ← length_map Prod.fst]
    refine pictures.length_le nodup fun one member => ?_
    obtain ⟨top, isTop, within⟩ := (visits.mem_iff formed).mp member
    exact within.holds (held top isTop)
  obtain ⟨more, isMore, walked⟩ := walkAll_eq pictures held visits [] ⟨0, 0, false⟩ budget
  have isNodes : more.map Visit.node = out.map Prod.fst := by
    rw [← isMore, map_map]
    rfl
  refine ⟨more, _, (Sealed.walk_eq_tops pictures closed).trans walked, rfl, ?_, ?_, ?_⟩
  · rw [isNodes]
    exact nodup
  · rw [isMore]
    exact visits
  · intro node holds covers
    rw [isNodes, visits.mem_iff formed]
    exact Sealed.exists_top pictures closed covers holds

end Sealing

end

/-- What a frame changes is walked.  From any scene that deltas lead to, drive any deltas, accepted
or refused, from a clean set of marks.  The walk that follows ends without halting, and hands over
no node twice: from each root of the scene if the whole scene is marked, else from each mark that
is there and has no mark above it, it hands over what is at or under it in pre-order with the
depths.  Every node at or under a mark is handed over, and so is every node that is there and at or
under one that was created, moved, shifted among its siblings or set. -/
theorem walk_misses_no_change (earlier deltas : List Delta) (frameToken : UInt64) :
    ∃ before arena dirty visits tally,
      Arena.empty.applyAll earlier = some before ∧
      Dirty.clean.applyAll before deltas = some (arena, dirty) ∧
      (dirty.atCommit frameToken).walk arena = some (visits, tally) ∧
      let start := Picture.empty.applyAll nodesMax earlier
      let scene := start.applyAll nodesMax deltas
      (∀ part, ∃ held forest unused, before.applyAll part = some held ∧ held.Pictures
        (start.applyAll nodesMax part) forest unused ∧ ∀ delta, held.Follows (held.apply delta)
        ((start.applyAll nodesMax part).apply nodesMax delta)) ∧
      before.applyAll deltas = some arena ∧
      tally.halted = false ∧ (visits.map Visit.node).Nodup ∧
      (∃ tops, scene.forest.Visits 0 tops (visits.map Visit.spot) ∧
        ∀ top ∈ tops, if dirty.marks.whole then scene.forest.parent top = some none
          else top ∈ dirty.marks.roots ∧ scene.forest.Holds top) ∧
      (∀ node, scene.forest.Holds node → dirty.marks.Covers scene node →
        node ∈ visits.map Visit.node) ∧
      ∀ node touched, start.Touched nodesMax deltas touched → scene.forest.Holds node →
        scene.forest.Within touched node → node ∈ visits.map Visit.node := by
  obtain ⟨before, startForest, startUnused, runsEarlier, startPictures⟩ :=
    Arena.pictures_empty.applyAll earlier
  obtain ⟨arena, dirty, forest, unused, runs, pictures, covered⟩ :=
    covers_applyAll startPictures Dirty.clean (fun _ => False)
      (fun _ impossible => impossible.elim) deltas
  obtain ⟨visits, tally, walks, halted, nodup, isVisits, handedOver⟩ :=
    Sealed.walk_eq pictures (dirty.atCommit frameToken)
  refine ⟨before, arena, dirty, visits, tally, runsEarlier, runs, walks, ?_, ?_, halted, nodup,
    ⟨_, isVisits, fun _ => Sealed.of_mem_tops pictures _⟩, handedOver, ?_⟩
  · intro part
    obtain ⟨held, heldForest, heldUnused, runsPart, heldPictures⟩ := startPictures.applyAll part
    exact ⟨held, heldForest, heldUnused, runsPart, heldPictures, heldPictures.apply⟩
  · rw [← Dirty.map_fst_applyAll .clean, runs]
    rfl
  · intro node touched isTouched holds within
    have there := pictures.formed.holds_of_within within holds
    refine handedOver node holds ((covered touched (.inr isTouched) there).imp_right ?_)
    rintro ⟨mark, isMark, above⟩
    exact ⟨mark, isMark, above.trans within⟩

end FSystem.Scene
