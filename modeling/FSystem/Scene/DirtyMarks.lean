import FSystem.Scene.Dirty
import FSystem.Scene.Observe

/-!
# Marks cover what changes

A node is touched by a delta that creates it, moves it or shifts it among its siblings, or sets
one of its properties.  While deltas are recorded and applied, every touched node that is still
there has a mark at or above it, wherever later deltas move it.
-/

namespace FSystem.Scene

variable {arena : Arena} {picture : Picture} {forest : Hierarchy SlotIx} {unused : List SlotIx}
  {node other : UInt32} {dirty : Dirty}

section Ancestries

variable {ancestor : UInt32}

theorem ancestryAfter_eq
    {left : Nat}
    {way : List UInt32}
    (pictures : arena.Pictures picture forest unused)
    (path : picture.forest.Path node way)
    (enough : way.length ≤ left) :
    ancestryAfter arena ancestor left node = if ancestor ∈ way then .covers else .separate := by
  induction path generalizing left with
  | @root one atTop =>
    cases left with
    | zero => cases enough
    | succ left =>
      rw [ancestryAfter, pictures.parentOf_of_parent atTop]
      simp [eq_comm]
  | @step one above way under rest ih =>
    cases left with
    | zero => cases enough
    | succ left =>
      have later := ih (Nat.le_of_succ_le_succ enough)
      rw [ancestryAfter, pictures.parentOf_of_parent under]
      simp only [Option.getD_some, if_neg (pictures.above_ne_noNode under), later, List.mem_cons]
      by_cases same : one = ancestor
      · rw [if_pos same, if_pos (.inl same.symm)]
      · rw [if_neg same]
        simp [Ne.symm same]

/-- Only what is at or above a node covers it. -/
theorem within_of_ancestry (pictures : arena.Pictures picture forest unused)
    (covers : ancestry arena ancestor node = .covers) : picture.forest.Within ancestor node := by
  by_cases holds : picture.forest.Holds node
  · obtain ⟨way, path⟩ := pictures.formed.path node holds
    rw [ancestry, ancestryAfter_eq pictures path (pictures.length_way_le path)] at covers
    split at covers
    next member => exact path.mem_iff.mp member
    next => cases covers
  · rw [ancestry, ancestryAfter.eq_def] at covers
    split at covers
    next same => rw [same]; exact .refl
    next =>
      split at covers
      · cases covers
      · rw [pictures.parentOf_of_not_holds holds] at covers
        cases covers

end Ancestries

/-- The marks take in the whole scene, or mark a node at or above this one. -/
def Marks.Covers (marks : Marks) (picture : Picture) (node : UInt32) : Prop :=
  marks.whole = true ∨ ∃ root ∈ marks.roots, picture.forest.Within root node

theorem Marks.roots_of_push {marks pushed : Marks} (pushes : marks.push node = some pushed) :
    pushed.roots = marks.roots ++ [node] := by
  rw [push] at pushes
  split at pushes
  · cases pushes
    rfl
  · cases pushes

variable {entry : CreateNode}

namespace Dirty

section Marking

variable (pictures : arena.Pictures picture forest unused) (holds : picture.forest.Holds other)

theorem covers_everything : dirty.everything.2.marks.Covers picture other := .inl rfl

include pictures holds

/-- Marking a place takes in what is under it, and loses nothing that was taken in. -/
theorem covers_mark
    (cause : dirty.marks.Covers picture other ∨
      ∀ above ∈ placeOf node, picture.forest.Within above other) :
    (dirty.mark arena node).2.marks.Covers picture other := by
  rw [mark]
  by_cases isTop : node = noNode
  · rw [if_pos isTop]
    exact covers_everything
  rw [if_neg isTop]
  by_cases whole : dirty.marks.whole = true
  · rw [if_pos whole]
    exact .inl whole
  rw [if_neg whole]
  have under : dirty.marks.Covers picture other ∨ picture.forest.Within node other :=
    cause.imp_right fun all => all node (if_neg isTop)
  by_cases there : arena.holds node = true
  swap
  · rw [if_pos (by simpa using there)]
    refine under.resolve_right fun within => there ?_
    exact pictures.holds_eq_true.mpr (pictures.formed.holds_of_within within holds)
  rw [if_neg (by simpa using there)]
  cases covered : dirty.marks.covered arena node with
  | broken => exact covers_everything
  | covers =>
    refine under.elim id fun within => .inr ?_
    rw [Marks.covered] at covered
    split at covered
    next isCovered =>
      obtain ⟨root, member, covers⟩ := List.any_eq_true.mp isCovered
      have above := within_of_ancestry pictures (of_decide_eq_true covers)
      exact ⟨root, member, above.trans within⟩
    next => split at covered <;> cases covered
  | separate =>
    dsimp only [Marks.shed]
    split
    · exact covers_everything
    next unbroken =>
    split
    swap
    · exact covers_everything
    next pushes =>
    -- What a dropped mark took in, the new one takes in.
    refine .inr ?_
    rw [Marks.roots_of_push pushes]
    rcases under with (whole' | ⟨root, member, within⟩) | within
    · exact absurd whole' whole
    · by_cases separate : ancestry arena node root = .separate
      · refine ⟨root, List.mem_append_left _ ?_, within⟩
        exact List.mem_filter.mpr ⟨member, decide_eq_true separate⟩
      refine ⟨node, List.mem_append_right _ (List.mem_singleton_self _), ?_⟩
      refine (within_of_ancestry pictures ?_).trans within
      cases which : ancestry arena node root with
      | covers => rfl
      | separate => exact absurd which separate
      | broken => exact absurd (List.any_eq_true.mpr ⟨root, member, decide_eq_true which⟩) unbroken
    · exact ⟨node, List.mem_append_right _ (List.mem_singleton_self _), within⟩

/-- Marking where a node hangs takes in what hangs there. -/
theorem covers_markParent
    (cause : dirty.marks.Covers picture other ∨ ∃ place, picture.forest.parent node = some place ∧ ∀
      above ∈ place, picture.forest.Within above other) :
    (dirty.markParent arena node).2.marks.Covers picture other := by
  rw [markParent]
  by_cases there : picture.forest.Holds node
  · obtain ⟨place, hangs⟩ := there.exists_parent
    rw [pictures.parentOf_of_parent hangs]
    refine covers_mark pictures holds (cause.imp_right ?_)
    rintro ⟨place', hangs', under⟩
    rw [hangs] at hangs'
    cases hangs'
    cases place with
    | none => simp [placeOf]
    | some above =>
      rw [Option.getD_some, placeOf, if_neg (pictures.above_ne_noNode hangs)]
      exact under
  · rw [pictures.parentOf_of_not_holds there]
    refine cause.resolve_right ?_
    rintro ⟨place, hangs, -⟩
    exact there (Hierarchy.holds_of_parent hangs)

end Marking

section Recording

variable {delta : Delta}

/-- What the record of each opcode marks. -/
theorem record_eq (dirty : Dirty) (arena : Arena) (delta : Delta) :
    (dirty.record arena delta).2 =
      match delta.body with
      | .createNode entry => ((dirty.mark arena entry.parent).2.markParent arena entry.node).2
      | .removeNode entry => (dirty.markParent arena entry.node).2
      | .setTransform record => (dirty.mark arena record.node).2
      | .setPath record => (dirty.mark arena record.node).2
      | .setPaint record => (dirty.mark arena record.node).2
      | .setEffect record => (dirty.mark arena record.node).2
      | .commit _ => dirty := by
  have reaches : ∀ op : Op, reachOf op.code = some (match op with
      | .createNode => .placement
      | .removeNode => .enclosing
      | .commit => .nothing
      | _ => .subtree) := by
    intro op
    cases op <;> rfl
  rw [record, Delta.opcode, Entry.opcode, reaches]
  cases delta.body <;> rfl

/-- A mark on the whole scene stays. -/
theorem whole_mark (whole : dirty.marks.whole = true) :
    (dirty.mark arena node).2.marks.whole = true := by
  rw [mark]
  by_cases isTop : node = noNode
  · rw [if_pos isTop]
    rfl
  · rwa [if_neg isTop, if_pos whole]

/-- Recording a creation or a move at the top takes in the whole scene. -/
theorem whole_record_create (body : delta.body = .createNode entry)
    (atTop : placeOf entry.parent = none) : (dirty.record arena delta).2.marks.whole = true := by
  have isTop : entry.parent = noNode := by
    rw [placeOf] at atTop
    split at atTop
    next isTop => exact isTop
    next => cases atTop
  have whole : (dirty.mark arena entry.parent).2.marks.whole = true := by
    rw [mark, if_pos isTop]
    rfl
  rw [record_eq, body]
  dsimp only
  rw [markParent]
  split
  · exact whole_mark whole
  · exact whole

variable (pictures : arena.Pictures picture forest unused) (holds : picture.forest.Holds other)

include pictures holds

/-- Recording a delta loses nothing that was taken in. -/
theorem covers_record (covers : dirty.marks.Covers picture other) :
    (dirty.record arena delta).2.marks.Covers picture other := by
  rw [record_eq]
  cases delta.body with
  | createNode entry =>
    exact covers_markParent pictures holds (.inl (covers_mark pictures holds (.inl covers)))
  | removeNode entry => exact covers_markParent pictures holds (.inl covers)
  | setTransform record | setPath record | setPaint record | setEffect record =>
    exact covers_mark pictures holds (.inl covers)
  | commit commit => exact covers

/-- Recording a creation or a move takes in the place filled and the place left. -/
theorem covers_record_create (body : delta.body = .createNode entry)
    (under : (∀ above ∈ placeOf entry.parent, picture.forest.Within above other) ∨
      ∃ place, picture.forest.parent entry.node = some place ∧
        ∀ above ∈ place, picture.forest.Within above other) :
    (dirty.record arena delta).2.marks.Covers picture other := by
  rw [record_eq, body]
  refine covers_markParent pictures holds (under.imp_left fun filled => ?_)
  exact covers_mark pictures holds (.inr filled)

/-- Recording a property takes in the node it is set of. -/
theorem covers_record_draw {look : Drawn → Drawn}
    (body : Picture.drawing delta.body = some (other, look)) :
    (dirty.record arena delta).2.marks.Covers picture other := by
  have here : ∀ above ∈ placeOf other, picture.forest.Within above other := by
    intro above isAbove
    rw [placeOf, if_neg (pictures.ne_noNode holds)] at isAbove
    cases isAbove
    exact .refl
  rw [record_eq]
  cases entry : delta.body with
  | createNode | removeNode | commit => rw [entry] at body; cases body
  | setTransform record | setPath record | setPaint record | setEffect record =>
    rw [entry] at body
    cases body
    exact covers_mark pictures holds (.inr here)

end Recording

end Dirty

section Touching

variable {limit : ℕ∞} {delta : Delta}

/-- A delta touches a node: it comes to hang at another position, or is set. -/
def Picture.Touches (limit : ℕ∞) (picture : Picture) (delta : Delta) (node : UInt32) : Prop :=
  (picture.apply limit delta).2.forest.position node ≠ picture.forest.position node ∨
    (picture.apply limit delta).1 = .ok (.set node)

/-- One of several deltas touches a node. -/
def Picture.Touched (limit : ℕ∞) (picture : Picture) (deltas : List Delta) (node : UInt32) :
    Prop :=
  ∃ earlier delta later, deltas = earlier ++ delta :: later ∧
    (picture.applyAll limit earlier).Touches limit delta node

theorem Picture.touched_cons {rest : List Delta} :
    picture.Touched limit (delta :: rest) node ↔
      picture.Touches limit delta node ∨ (picture.apply limit delta).2.Touched limit rest node := by
  constructor
  · rintro ⟨earlier, one, later, isAppend, touches⟩
    cases earlier with
    | nil =>
      cases isAppend
      exact .inl touches
    | cons first earlier =>
      cases isAppend
      exact .inr ⟨earlier, one, later, rfl, touches⟩
  · rintro (touches | ⟨earlier, one, later, rfl, touches⟩)
    · exact ⟨[], delta, rest, rfl, touches⟩
    · exact ⟨delta :: earlier, one, later, rfl, touches⟩

/-- A node that hangs where it hung was there. -/
theorem holds_of_not_touches (holds : (picture.apply limit delta).2.forest.Holds node)
    (untouched : ¬picture.Touches limit delta node) : picture.forest.Holds node := by
  rw [Picture.Touches, not_or, not_not] at untouched
  rw [← Hierarchy.position_isSome] at holds ⊢
  rwa [untouched.1] at holds

end Touching

section Steps

variable {delta : Delta}

/-- Driving deltas through the marks applies them. -/
theorem Dirty.map_fst_applyAll (dirty : Dirty) (arena : Arena) (deltas : List Delta) :
    (dirty.applyAll arena deltas).map Prod.fst = arena.applyAll deltas := by
  induction deltas generalizing dirty arena with
  | nil => rfl
  | cons delta rest ih =>
    rw [Dirty.applyAll, Dirty.apply, Arena.applyAll]
    cases arena.apply delta with
    | none => rfl
    | some result => exact ih _ _

variable (pictures : arena.Pictures picture forest unused)

include pictures

/-- A node that is hung somewhere, and everything shifted by that, is taken in. -/
theorem covers_hang
    (body : delta.body = .createNode entry)
    (under : ∀ above ∈ placeOf entry.parent,
      picture.forest.Holds above ∧ ¬picture.forest.Within entry.node above)
    {hung : Picture}
    (isHung : hung.forest =
      picture.forest.hang entry.node (placeOf entry.parent) (placeOf entry.before))
    (holds : other = entry.node ∨ picture.forest.Holds other)
    (cause : hung.forest.position other ≠ picture.forest.position other ∨
      picture.forest.Holds other ∧ dirty.marks.Covers picture other) :
    (dirty.record arena delta).2.marks.Covers hung other := by
  have formed := pictures.formed
  have place : ∀ {above}, above ∈ placeOf entry.parent →
      hung.forest.Child above entry.node := by
    intro above isAbove
    rw [isHung, Hierarchy.Child, Hierarchy.hang_parent_self]
    exact congrArg some isAbove
  by_cases below : other = entry.node ∨ picture.forest.Within entry.node other
  · -- What moves is under the place that is filled.
    have inside : hung.forest.Within entry.node other := by
      rw [isHung]
      rcases below with rfl | within
      · exact .refl
      · exact formed.within_hang_below within
    cases isPlace : placeOf entry.parent with
    | none => exact .inl (Dirty.whole_record_create body isPlace)
    | some above =>
      obtain ⟨holdsAbove, apart⟩ := under above isPlace
      have covers : (dirty.record arena delta).2.marks.Covers picture above := by
        refine Dirty.covers_record_create pictures holdsAbove body (.inl fun one isOne => ?_)
        rw [isPlace] at isOne
        cases isOne
        exact .refl
      refine covers.imp_right ?_
      rintro ⟨root, member, within⟩
      have upper : hung.forest.Within root above := by
        rw [isHung]
        exact (formed.within_hang holdsAbove apart).mpr within
      exact ⟨root, member, (upper.step (place isPlace)).trans inside⟩
  · -- What stays is under the nodes it was under.
    rw [not_or] at below
    have holds := holds.resolve_left below.1
    have covers : (dirty.record arena delta).2.marks.Covers picture other := by
      rcases cause with shifted | ⟨-, covers⟩
      · obtain ⟨key, hangs⟩ := holds.exists_parent
        by_cases filled : key = placeOf entry.parent
        · refine Dirty.covers_record_create pictures holds body (.inl ?_)
          rw [← filled]
          exact Hierarchy.within_of_parent hangs
        by_cases left : picture.forest.parent entry.node = some key
        · refine Dirty.covers_record_create pictures holds body (.inr ⟨key, left, ?_⟩)
          exact Hierarchy.within_of_parent hangs
        rw [isHung, formed.position_hang below.1 hangs filled left] at shifted
        exact absurd rfl shifted
      · exact Dirty.covers_record pictures holds covers
    refine covers.imp_right ?_
    rintro ⟨root, member, within⟩
    refine ⟨root, member, ?_⟩
    rw [isHung]
    exact (formed.within_hang holds below.2).mpr within

/-- What is shifted by the removal of a node is taken in. -/
theorem covers_prune {entry : RemoveNode} (body : delta.body = .removeNode entry)
    (holds : (picture.prune entry.node).forest.Holds other)
    (cause : (picture.prune entry.node).forest.position other ≠ picture.forest.position other ∨
      dirty.marks.Covers picture other) :
    (dirty.record arena delta).2.marks.Covers (picture.prune entry.node) other := by
  have formed := pictures.formed
  obtain ⟨holds, apart⟩ := Hierarchy.holds_prune.mp holds
  have covers : (dirty.record arena delta).2.marks.Covers picture other := by
    rcases cause with shifted | covers
    · obtain ⟨key, hangs⟩ := holds.exists_parent
      by_cases left : picture.forest.parent entry.node = some key
      · rw [Dirty.record_eq, body]
        exact Dirty.covers_markParent pictures holds
          (.inr ⟨key, left, Hierarchy.within_of_parent hangs⟩)
      · exact absurd (formed.position_prune apart hangs left) shifted
    · exact Dirty.covers_record pictures holds covers
  refine covers.imp_right ?_
  rintro ⟨root, member, within⟩
  exact ⟨root, member, (formed.within_prune holds apart).mpr within⟩

/-- After a delta, what it touches and what was taken in before is taken in. -/
theorem covers_apply (holds : (picture.apply nodesMax delta).2.forest.Holds other)
    (cause : picture.Touches nodesMax delta other ∨
      picture.forest.Holds other ∧ dirty.marks.Covers picture other) :
    (dirty.record arena delta).2.marks.Covers (picture.apply nodesMax delta).2 other := by
  have edits := Picture.edits_apply nodesMax picture delta
  rw [Picture.Touches] at cause
  generalize picture.apply nodesMax delta = result at edits holds cause ⊢
  have unset (unset : result.1 ≠ .ok (.set other)) := cause.imp_left (·.resolve_right unset)
  cases edits with
  | refused refusal | closed body =>
    obtain ⟨-, covers⟩ := (unset nofun).resolve_left (absurd rfl)
    exact Dirty.covers_record pictures holds covers
  | @created entry kind body isKind named placeable fresh room =>
    refine covers_hang pictures body ?_ rfl (Hierarchy.holds_hang.mp holds) (unset nofun)
    intro above isAbove
    refine ⟨placeable.under above isAbove, fun within => fresh ?_⟩
    exact pictures.formed.holds_of_within within (placeable.under above isAbove)
  | @moved entry kind body isKind placeable there sameKind apart =>
    refine covers_hang pictures body ?_ rfl (Hierarchy.holds_hang.mp holds) (unset nofun)
    exact fun above isAbove => ⟨placeable.under above isAbove, apart above isAbove⟩
  | @removed entry body there =>
    exact covers_prune pictures body holds ((unset nofun).imp_right And.right)
  | @drawn node look body there =>
    change (dirty.record arena delta).2.marks.Covers picture other
    rcases cause with (shifted | isSet) | ⟨-, covers⟩
    · exact absurd rfl shifted
    · cases isSet
      exact Dirty.covers_record_draw pictures there body
    · exact Dirty.covers_record pictures holds covers

/-- After a run, what it touched and what was taken in before is taken in, if still there. -/
theorem covers_applyAll (dirty : Dirty) (touched : UInt32 → Prop)
    (covered : ∀ node, touched node → picture.forest.Holds node → dirty.marks.Covers picture node)
    (deltas : List Delta) :
    ∃ after afterDirty afterForest afterUnused,
      dirty.applyAll arena deltas = some (after, afterDirty) ∧
      after.Pictures (picture.applyAll nodesMax deltas) afterForest afterUnused ∧
      ∀ node, (touched node ∨ picture.Touched nodesMax deltas node) →
        (picture.applyAll nodesMax deltas).forest.Holds node →
        afterDirty.marks.Covers (picture.applyAll nodesMax deltas) node := by
  induction deltas generalizing arena picture forest unused dirty touched with
  | nil =>
    refine ⟨arena, dirty, forest, unused, rfl, pictures, fun node isTouched holds => ?_⟩
    refine covered node (isTouched.resolve_right ?_) holds
    rintro ⟨earlier, delta, later, isAppend, -⟩
    simp at isAppend
  | cons delta rest ih =>
    obtain ⟨next, nextForest, nextUnused, applies, nextPictures, -⟩ := pictures.apply delta
    have nextCovered : ∀ node, (touched node ∨ picture.Touches nodesMax delta node) →
        (picture.apply nodesMax delta).2.forest.Holds node →
        (dirty.record arena delta).2.marks.Covers (picture.apply nodesMax delta).2 node := by
      intro node isTouched holds
      by_cases touches : picture.Touches nodesMax delta node
      · exact covers_apply pictures holds (.inl touches)
      · have there := holds_of_not_touches holds touches
        refine covers_apply pictures holds (.inr ⟨there, ?_⟩)
        exact covered node (isTouched.resolve_right touches) there
    obtain ⟨after, afterDirty, afterForest, afterUnused, runs, afterPictures, afterCovered⟩ :=
      ih nextPictures _ _ nextCovered
    refine ⟨after, afterDirty, afterForest, afterUnused, ?_, afterPictures, ?_⟩
    · rw [Dirty.applyAll, Dirty.apply, applies]
      exact runs
    · intro node isTouched
      rw [Picture.touched_cons, ← or_assoc] at isTouched
      exact afterCovered node isTouched

end Steps

end FSystem.Scene
