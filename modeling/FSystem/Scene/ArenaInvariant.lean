import FSystem.Scene.ArenaRemoval

/-!
# The scene arena is always a forest

Every delta, accepted or refused, keeps the arena well: a refused one changes nothing, one
that hangs a node hangs it in the forest, and one that removes a node prunes the forest and
gives back the slots of the subtree.
-/

namespace FSystem.Scene.Arena

open Function

variable {arena after : Arena} {ix : SlotIx} {forest : Hierarchy SlotIx} {unused : List SlotIx}

section Ways

variable {way : List SlotIx}

/-- The way up from a slot is at most as long as there are slots. -/
theorem length_way_le (path : forest.Path ix way) : way.length ≤ nodesMax :=
  path.nodup.length_le_card.trans_eq (Fintype.card_fin nodesMax)

/-- The walk up meets what it looks for exactly if it is on the way. -/
theorem descendsAfter_eq
    {ancestor : SlotIx}
    {left : Nat}
    (woven : arena.Woven forest)
    (path : forest.Path ix way)
    (enough : way.length ≤ left) :
    arena.descendsAfter ancestor left (some ix) = decide (ancestor ∈ way) := by
  have isParent : ∀ {one place}, forest.parent one = some place →
      (arena.slots one).parent = place := by
    intro one place hangs
    rw [woven.hangs] at hangs
    obtain ⟨_, _, same⟩ := Option.map_eq_some_iff.mp hangs
    exact same
  induction path generalizing left with
  | @root one atTop =>
    cases left with
    | zero => cases enough
    | succ left =>
      rw [descendsAfter, isParent atTop]
      by_cases same : one = ancestor
      · simp [same]
      · simp [same, Ne.symm same, descendsAfter]
  | @step one above way under rest ih =>
    cases left with
    | zero => cases enough
    | succ left =>
      rw [descendsAfter, isParent under]
      by_cases same : one = ancestor
      · simp [same]
      · have later := ih (Nat.le_of_succ_le_succ enough)
        simp [same, Ne.symm same, later]

/-- The cycle check asks whether a slot hangs at or under another. -/
theorem descendsFrom_iff
    {candidate ancestor : SlotIx} (woven : arena.Woven forest) (holds : forest.Holds candidate) :
    arena.descendsFrom candidate ancestor = true ↔ forest.Within ancestor candidate := by
  obtain ⟨way, path⟩ := woven.formed.path candidate holds
  rw [descendsFrom, descendsAfter_eq woven path (length_way_le path), decide_eq_true_iff,
    path.mem_iff]

end Ways

/-- The arena holds this picture: its forest, renamed to the nodes, their kinds and looks. -/
structure Pictures (arena : Arena) (picture : Picture) (forest : Hierarchy SlotIx)
    (unused : List SlotIx) : Prop where
  well : arena.Well forest unused
  renames : Hierarchy.Renames arena.nodeAt forest picture.forest
  formed : picture.forest.Formed
  shown : ∀ {ix created}, arena.held ix = some created →
    picture.kind created.node = some created.kind ∧ picture.drawn created.node = arena.drawn ix
  absent : ∀ {node}, ¬picture.forest.Holds node → picture.kind node = none ∧ picture.drawn node = {}

variable {change : Slot → Slot} {created : Created} {look : Drawn → Drawn}

section Seeing

variable {picture : Picture} {node : UInt32}

theorem nodeAt_of_held (isHeld : arena.held ix = some created) :
    arena.nodeAt ix = created.node := by
  have inSlot : (arena.slots ix).held = some created := isHeld
  rw [nodeAt, inSlot]

/-- A slot that holds what it held names the same node. -/
theorem nodeAt_congr (same : after.held ix = arena.held ix) :
    after.nodeAt ix = arena.nodeAt ix := by
  have inSlot : (after.slots ix).held = (arena.slots ix).held := same
  rw [nodeAt, inSlot]
  rfl

/-- A slot stands for the node or the place an entry names. -/
def Stands (arena : Arena) (forest : Hierarchy SlotIx) (slot : Option SlotIx) (name : UInt32) :
    Prop :=
  slot.map arena.nodeAt = placeOf name ∧ ∀ one ∈ slot, forest.Holds one

namespace Pictures

variable (pictures : arena.Pictures picture forest unused)

include pictures

theorem find_eq_some : arena.find node = some ix ↔ forest.Holds ix ∧ arena.nodeAt ix = node := by
  rw [pictures.well.counted.find_eq_some, pictures.well.woven.holds_iff]
  constructor
  · rintro ⟨created, isHeld, sameNode⟩
    rw [nodeAt_of_held isHeld, isHeld]
    exact ⟨rfl, sameNode⟩
  · rintro ⟨isSome, sameNode⟩
    obtain ⟨created, isHeld⟩ := Option.isSome_iff_exists.mp isSome
    rw [nodeAt_of_held isHeld] at sameNode
    exact ⟨created, isHeld, sameNode⟩

/-- The picture holds what is found. -/
theorem holds_iff : picture.forest.Holds node ↔ ∃ ix, arena.find node = some ix := by
  rw [pictures.renames.holds]
  exact exists_congr fun _ => pictures.find_eq_some.symm

theorem find_eq_none : arena.find node = none ↔ ¬picture.forest.Holds node := by
  rw [pictures.holds_iff, Option.eq_none_iff_forall_ne_some, not_exists]

/-- No node has the identifier that names none. -/
theorem not_holds_noNode : ¬picture.forest.Holds noNode := by
  rw [pictures.holds_iff]
  rintro ⟨ix, found⟩
  obtain ⟨created, -, isNone⟩ := held_of_find found
  exact created.named isNone

theorem parent_of_find (found : arena.find node = some ix) :
    picture.forest.parent node = some ((arena.slots ix).parent.map arena.nodeAt) := by
  obtain ⟨holds, rfl⟩ := pictures.find_eq_some.mp found
  rw [pictures.renames.parent ix holds,
    pictures.well.woven.parent_of_held (pictures.well.woven.holds_iff.mp holds)]
  rfl

theorem kind_of_find (found : arena.find node = some ix) :
    picture.kind node = (arena.slots ix).held.map Created.kind := by
  obtain ⟨created, isHeld, rfl⟩ := held_of_find found
  rw [(pictures.shown isHeld).1]
  have inSlot : (arena.slots ix).held = some created := isHeld
  rw [inSlot]
  rfl

/-- As many nodes are seen as slots hold one. -/
theorem encard_nodes :
    picture.nodes.encard = ((Finset.univ.filter fun ix => (arena.held ix).isSome).card : ℕ∞) := by
  have isImage : picture.nodes =
      arena.nodeAt '' ↑(Finset.univ.filter fun ix => (arena.held ix).isSome) := by
    ext label
    simp [Picture.nodes, pictures.renames.holds, pictures.well.woven.holds_iff]
  rw [isImage, Set.InjOn.encard_image, Set.encard_coe_eq_coe_finsetCard]
  intro one isOne other isOther same
  rw [Finset.coe_filter, Set.mem_ofPred_eq, ← pictures.well.woven.holds_iff] at isOne isOther
  exact pictures.renames.injective isOne.2 isOther.2 same

/-- There is room for a node exactly if some slot holds none. -/
theorem room_iff : picture.nodes.encard < nodesMax ↔ ∃ ix, arena.held ix = none := by
  rw [pictures.encard_nodes, Nat.cast_lt]
  constructor
  · intro fewer
    by_contra none
    have allHeld : (Finset.univ.filter fun ix => (arena.held ix).isSome) = Finset.univ := by
      refine Finset.filter_true_of_mem fun ix _ => ?_
      exact Option.isSome_iff_ne_none.mpr fun vacant => none ⟨ix, vacant⟩
    rw [allHeld, Finset.card_univ, Fintype.card_fin] at fewer
    exact lt_irrefl _ fewer
  · rintro ⟨ix, vacant⟩
    have notMem : ix ∉ Finset.univ.filter fun ix => (arena.held ix).isSome := by
      rw [Finset.mem_filter, vacant]
      exact fun ⟨_, impossible⟩ => Bool.false_ne_true impossible
    exact (Finset.card_lt_univ_of_notMem notMem).trans_eq (Fintype.card_fin nodesMax)

/-- The arena finds the place an entry names, or refuses it. -/
theorem placeUnder (parent : UInt32) :
    ((∃ above ∈ placeOf parent, ¬picture.forest.Holds above) ∧
        arena.placeUnder parent = .error (.noSuchParent parent)) ∨
      (¬∃ above ∈ placeOf parent, ¬picture.forest.Holds above) ∧
        ∃ place, arena.placeUnder parent = .ok place ∧ arena.Stands forest place parent := by
  rw [Arena.placeUnder, placeOf]
  by_cases isTop : parent = noNode
  · rw [if_pos isTop, if_pos isTop]
    exact .inr ⟨by simp, none, rfl, (if_pos isTop).symm, by simp⟩
  rw [if_neg isTop, if_neg isTop]
  cases found : arena.find parent with
  | none => exact .inl ⟨⟨parent, rfl, pictures.find_eq_none.mp found⟩, rfl⟩
  | some ix =>
    obtain ⟨holds, isNode⟩ := pictures.find_eq_some.mp found
    refine .inr ⟨?_, some ix, rfl, (congrArg some isNode).trans (if_neg isTop).symm, ?_⟩
    · rintro ⟨above, isAbove, absent⟩
      cases isAbove
      exact absent (pictures.holds_iff.mpr ⟨ix, found⟩)
    · rintro above isAbove
      cases isAbove
      exact holds

/-- The arena finds the sibling an entry names at a place, or refuses it. -/
theorem placeBefore {place : Option SlotIx} (held : ∀ above ∈ place, forest.Holds above)
    (before : UInt32) :
    ((∃ sibling ∈ placeOf before,
          picture.forest.parent sibling ≠ some (place.map arena.nodeAt)) ∧
        arena.placeBefore place before = .error (.notASibling before)) ∨
      (¬∃ sibling ∈ placeOf before,
          picture.forest.parent sibling ≠ some (place.map arena.nodeAt)) ∧
        ∃ sibling, arena.placeBefore place before = .ok sibling ∧
          arena.Stands forest sibling before := by
  rw [Arena.placeBefore, placeOf]
  by_cases isLast : before = noNode
  · rw [if_pos isLast, if_pos isLast]
    exact .inr ⟨by simp, none, rfl, (if_pos isLast).symm, by simp⟩
  rw [if_neg isLast, if_neg isLast]
  cases found : arena.find before with
  | none =>
    refine .inl ⟨⟨before, rfl, fun hangs => ?_⟩, rfl⟩
    exact pictures.find_eq_none.mp found (Hierarchy.holds_of_parent hangs)
  | some ix =>
    obtain ⟨holds, isNode⟩ := pictures.find_eq_some.mp found
    have parent := pictures.parent_of_find found
    by_cases elsewhere : (arena.slots ix).parent ≠ place
    · refine .inl ⟨⟨before, rfl, fun hangs => elsewhere ?_⟩, if_pos elsewhere⟩
      have sameName := Option.some.inj (parent.symm.trans hangs)
      have heldParent : ∀ above ∈ (arena.slots ix).parent, forest.Holds above := by
        intro above isAbove
        have child : forest.Child above ix := by
          rw [Hierarchy.Child, pictures.well.woven.parent_of_held
            (pictures.well.woven.holds_iff.mp holds)]
          exact congrArg some isAbove
        exact pictures.well.woven.formed.holds_above child
      exact Hierarchy.place_injective pictures.renames.injective heldParent held sameName
    · refine .inr ⟨?_, some ix, if_neg elsewhere,
        (congrArg some isNode).trans (if_neg isLast).symm, ?_⟩
      · rintro ⟨sibling, isSibling, notThere⟩
        cases isSibling
        rw [not_not.mp elsewhere] at parent
        exact notThere parent
      · rintro one isOne
        cases isOne
        exact holds

variable {place before : Option SlotIx} {entry : CreateNode}

/-- What may be hung at a place may be hung there in the picture. -/
theorem mayHang (holds : forest.Holds ix) (mayHang : MayHang forest ix place) :
    ∀ above ∈ place.map arena.nodeAt,
      picture.forest.Holds above ∧ ¬picture.forest.Within (arena.nodeAt ix) above := by
  intro label isLabel
  obtain ⟨above, isAbove, rfl⟩ := Option.map_eq_some_iff.mp isLabel
  obtain ⟨holdsAbove, apart⟩ := mayHang above isAbove
  refine ⟨pictures.renames.holds_name holdsAbove, ?_⟩
  rwa [pictures.renames.within_iff pictures.well.woven.formed holds holdsAbove]

/-- Moving a node shows it elsewhere. -/
theorem moved
    (found : arena.find entry.node = some ix)
    (isPlace : place.map arena.nodeAt = placeOf entry.parent)
    (standsBefore : arena.Stands forest before entry.before)
    (mayHang : MayHang forest ix place)
    (stripped : after.stripped = arena.stripped)
    (well : after.Well (forest.hang ix place before) unused) :
    after.Pictures (picture.move entry) (forest.hang ix place before) unused := by
  obtain ⟨holds, isNode⟩ := pictures.find_eq_some.mp found
  have held := held_of_stripped stripped
  have nodeAt : after.nodeAt = arena.nodeAt := funext fun one => nodeAt_congr (congrFun held one)
  have fresh : ∀ one, forest.Holds one → one ≠ ix → arena.nodeAt one ≠ arena.nodeAt ix :=
    fun one holdsOne different same => different (pictures.renames.injective holdsOne holds same)
  have hangs := pictures.renames.hang pictures.well.woven.formed pictures.formed fresh
    (fun above isAbove => (mayHang above isAbove).1) standsBefore.2
  have formed := pictures.formed.hang (placeOf entry.before) (pictures.mayHang holds mayHang)
  rw [isNode, isPlace] at formed
  rw [isNode, isPlace, standsBefore.1, ← nodeAt] at hangs
  refine ⟨well, hangs, formed, ?_, ?_⟩
  · rw [held, drawn_of_stripped stripped]
    exact pictures.shown
  · intro node absent
    refine pictures.absent fun holdsNode => absent ?_
    exact Hierarchy.holds_hang.mpr (.inr holdsNode)

variable {rest : List SlotIx} {root : SlotIx}

/-- A new node is shown where it was hung. -/
theorem made
    (isNode : created.node = entry.node)
    (isNew : arena.find entry.node = none)
    (standsPlace : arena.Stands forest place entry.parent)
    (standsBefore : arena.Stands forest before entry.before)
    (vacant : arena.held ix = none)
    (held : after.held = update arena.held ix (some created))
    (drawn : after.drawn = update arena.drawn ix {})
    (well : after.Well (forest.hang ix place before) rest) :
    after.Pictures (picture.make created.kind entry) (forest.hang ix place before) rest := by
  obtain ⟨isPlace, heldPlace⟩ := standsPlace
  obtain ⟨isBefore, heldBefore⟩ := standsBefore
  have absent := pictures.find_eq_none.mp isNew
  have notThere : ¬forest.Holds ix := by
    rw [pictures.well.woven.holds_iff, vacant]
    exact Bool.false_ne_true
  have atIx : after.nodeAt ix = entry.node := by
    refine (nodeAt_of_held ?_).trans isNode
    rw [held, update_self]
  have agree : ∀ one, forest.Holds one → after.nodeAt one = arena.nodeAt one := by
    intro one holds
    have different : one ≠ ix := fun same => notThere (same ▸ holds)
    exact nodeAt_congr ((congrFun held one).trans (update_of_ne different ..))
  have fresh : ∀ one, forest.Holds one → one ≠ ix → after.nodeAt one ≠ after.nodeAt ix := by
    intro one holds _ same
    rw [atIx, agree one holds] at same
    exact absent (same ▸ pictures.renames.holds_name holds)
  have renamed : ∀ {key : Option SlotIx}, (∀ one ∈ key, forest.Holds one) →
      key.map after.nodeAt = key.map arena.nodeAt :=
    fun heldKey => Option.map_congr fun one isOne => agree one (heldKey one isOne)
  have formed := pictures.well.woven.formed
  have hangs := (pictures.renames.congr formed agree).hang formed pictures.formed fresh heldPlace
    heldBefore
  rw [renamed heldPlace, renamed heldBefore, isPlace, isBefore, atIx] at hangs
  refine ⟨well, hangs, pictures.formed.hang _ ?_, ?_, ?_⟩
  · intro above isAbove
    rw [← isPlace] at isAbove
    obtain ⟨one, isOne, rfl⟩ := Option.map_eq_some_iff.mp isAbove
    have holds := pictures.renames.holds_name (heldPlace one isOne)
    exact ⟨holds, fun within => absent (pictures.formed.holds_of_within within holds)⟩
  · intro one other isHeld
    rw [held] at isHeld
    rw [drawn]
    by_cases here : one = ix
    · rw [here, update_self] at isHeld ⊢
      cases isHeld
      rw [Picture.make, isNode]
      exact ⟨update_self .., update_self ..⟩
    · rw [update_of_ne here] at isHeld ⊢
      have different := Arena.find_eq_none.mp isNew one other isHeld
      obtain ⟨kind, look⟩ := pictures.shown isHeld
      exact ⟨(update_of_ne different ..).trans kind, (update_of_ne different ..).trans look⟩
  · intro node absentLater
    have different : node ≠ entry.node :=
      fun same => absentLater (Hierarchy.holds_hang.mpr (.inl same))
    have absentBefore : ¬picture.forest.Holds node :=
      fun holds => absentLater (Hierarchy.holds_hang.mpr (.inr holds))
    obtain ⟨noKind, noLook⟩ := pictures.absent absentBefore
    exact ⟨(update_of_ne different ..).trans noKind, (update_of_ne different ..).trans noLook⟩

/-- A removed node is shown no more, nor is what was under it. -/
theorem torn (found : arena.find node = some root) (well : after.Well (forest.prune root) rest)
    (kept : ∀ one, ¬forest.Within root one →
      after.held one = arena.held one ∧ after.drawn one = arena.drawn one) :
    after.Pictures (picture.prune node) (forest.prune root) rest := by
  obtain ⟨holds, isNode⟩ := pictures.find_eq_some.mp found
  have formed := pictures.well.woven.formed
  have prunes := (pictures.renames.prune formed holds).congr (formed.prune root) fun one held =>
    nodeAt_congr (kept one (Hierarchy.holds_prune.mp held).2).1
  rw [isNode] at prunes
  refine ⟨well, prunes, pictures.formed.prune node, ?_, ?_⟩
  · intro one created isHeld
    -- What a slot holds now it held before, and it is not under the node.
    have holdsOne : (forest.prune root).Holds one := by
      rw [well.woven.holds_iff, isHeld]
      rfl
    obtain ⟨heldBefore, apart⟩ := Hierarchy.holds_prune.mp holdsOne
    obtain ⟨sameHeld, sameDrawn⟩ := kept one apart
    have isCreated : arena.held one = some created := sameHeld.symm.trans isHeld
    rw [← pictures.renames.within_iff formed holds heldBefore, isNode,
      nodeAt_of_held isCreated] at apart
    obtain ⟨kind, look⟩ := pictures.shown isCreated
    rw [sameDrawn]
    exact ⟨(if_neg apart).trans kind, (if_neg apart).trans look⟩
  · intro other absent
    by_cases within : picture.forest.Within node other
    · exact ⟨if_pos within, if_pos within⟩
    · have absentBefore : ¬picture.forest.Holds other :=
        fun holdsOther => absent (Hierarchy.holds_prune.mpr ⟨holdsOther, within⟩)
      obtain ⟨noKind, noLook⟩ := pictures.absent absentBefore
      exact ⟨(if_neg within).trans noKind, (if_neg within).trans noLook⟩

/-- The slots of a subtree are as many as the nodes at or under its root. -/
theorem ncard_subtree {gone : List SlotIx} (found : arena.find node = some root)
    (nodup : gone.Nodup) (within : ∀ one, one ∈ gone ↔ forest.Within root one) :
    (picture.subtree node).ncard = gone.length := by
  obtain ⟨holds, isNode⟩ := pictures.find_eq_some.mp found
  have formed := pictures.well.woven.formed
  have isImage : picture.subtree node = arena.nodeAt '' ↑gone.toFinset := by
    ext label
    simp only [List.coe_toFinset, within, ← isNode]
    constructor
    · intro isWithin
      have holdsLabel := isWithin.holds (pictures.renames.holds_name holds)
      obtain ⟨one, holdsOne, rfl⟩ := (pictures.renames.holds _).mp holdsLabel
      exact ⟨one, (pictures.renames.within_iff formed holds holdsOne).mp isWithin, rfl⟩
    · rintro ⟨one, isWithin, rfl⟩
      exact (pictures.renames.within_iff formed holds (isWithin.holds holds)).mpr isWithin
  rw [isImage, Set.InjOn.ncard_image, Set.ncard_coe_finset, List.toFinset_card_of_nodup nodup]
  intro one isOne other isOther same
  simp only [List.coe_toFinset, Set.mem_ofPred_eq, within] at isOne isOther
  exact pictures.renames.injective (isOne.holds holds) (isOther.holds holds) same

end Pictures

/-- A change of what a slot is drawn with. -/
def Draws (change : Slot → Slot) (look : Drawn → Drawn) : Prop :=
  ∀ slot, (change slot).held = slot.held ∧ (change slot).parent = slot.parent ∧ (change
    slot).firstChild = slot.firstChild ∧ (change slot).next = slot.next ∧ (⟨(change slot).transform,
    (change slot).path, (change slot).paint⟩ : Drawn) = look ⟨slot.transform, slot.path, slot.paint⟩

/-- Changing what a slot is drawn with leaves the arena well. -/
theorem Well.draw (well : arena.Well forest unused) (isHeld : (arena.held ix).isSome)
    (draws : Draws change look) : (arena.modify ix change).Well forest unused := by
  obtain ⟨held, parent, firstChild, next, -⟩ := draws (arena.slots ix)
  have heldSame : (arena.modify ix change).held = arena.held := by
    rw [held_modify, held]
    exact update_eq_self ..
  have parentsSame : (arena.modify ix change).parents = arena.parents := by
    rw [parents_modify, parent]
    exact update_eq_self ..
  have nextsSame : (arena.modify ix change).nexts = arena.nexts := by
    rw [nexts_modify, next]
    exact update_eq_self ..
  have headSame : (arena.modify ix change).head = arena.head := by
    rw [head_modify, firstChild]
    exact update_eq_self (some ix) arena.head
  constructor
  case woven =>
    refine ⟨?_, ?_, well.woven.formed⟩
    · rw [heldSame, parentsSame]
      exact well.woven.hangs
    · rw [nextsSame, headSame]
      exact well.woven.chains
  case stocked =>
    have stocked := well.stocked
    refine ⟨?_, stocked.nodup, stocked.bound, ?_, ?_, fun one isNew => ?_⟩
    · rw [nextsSame]
      exact stocked.freed
    · rw [heldSame]
      exact stocked.vacant
    · rw [heldSame]
      exact stocked.used
    have isEmpty := stocked.never one isNew
    have different : one ≠ ix := by
      rintro rfl
      rw [Arena.held, isEmpty] at isHeld
      cases isHeld
    rw [slots_modify_of_ne _ different, isEmpty]
  case counted => exact well.counted.congr heldSame rfl

/-- A node whose look is changed shows the new one. -/
theorem Pictures.draw (pictures : arena.Pictures picture forest unused)
    (found : arena.find node = some ix) (draws : Draws change look) :
    (arena.modify ix change).Pictures
      { picture with drawn := update picture.drawn node (look (picture.drawn node)) }
      forest unused := by
  obtain ⟨holds, isNode⟩ := pictures.find_eq_some.mp found
  have isHeld := pictures.well.woven.holds_iff.mp holds
  obtain ⟨held, -, -, -, looks⟩ := draws (arena.slots ix)
  have heldSame : (arena.modify ix change).held = arena.held := by
    rw [held_modify, held]
    exact update_eq_self ..
  have nodeAt : (arena.modify ix change).nodeAt = arena.nodeAt :=
    funext fun one => nodeAt_congr (congrFun heldSame one)
  refine ⟨pictures.well.draw isHeld draws, ?_, pictures.formed, ?_, ?_⟩
  · rw [nodeAt]
    exact pictures.renames
  · intro one created isCreated
    rw [heldSame] at isCreated
    obtain ⟨kind, drawn⟩ := pictures.shown isCreated
    refine ⟨kind, ?_⟩
    rw [drawn_modify, looks]
    by_cases here : one = ix
    · have same : created.node = node := by
        rw [← nodeAt_of_held isCreated, here, isNode]
      rw [here] at drawn
      rw [same, here, update_self, ← same, drawn]
      exact update_self ..
    · have different : created.node ≠ node := by
        intro same
        rw [← nodeAt_of_held isCreated, ← isNode] at same
        have holdsOne : forest.Holds one := by
          rw [pictures.well.woven.holds_iff, isCreated]
          rfl
        exact here (pictures.renames.injective holdsOne holds same)
      rw [update_of_ne here]
      exact (update_of_ne different ..).trans drawn
  · intro other absent
    have different : other ≠ node := by
      rintro rfl
      exact absent (isNode ▸ pictures.renames.holds_name holds)
    obtain ⟨noKind, noLook⟩ := pictures.absent absent
    exact ⟨noKind, (update_of_ne different ..).trans noLook⟩

end Seeing

section Following

variable {picture : Picture} {α : Type}

/-- A call answers as the picture says and leaves the picture it says; a refused one changes
nothing. -/
def Follows (arena : Arena) (result : Option (Except Refusal α × Arena))
    (expected : Except Refusal α × Picture) : Prop :=
  ∃ after forest unused, result = some (expected.1, after) ∧ after.Pictures expected.2 forest unused
    ∧ ∀ refusal, expected.1 = .error refusal → after = arena

theorem Pictures.refused (pictures : arena.Pictures picture forest unused) (refusal : Refusal) :
    arena.Follows (some (.error refusal, arena)) ((.error refusal : Except Refusal α), picture) :=
  ⟨arena, forest, unused, rfl, pictures, fun _ _ => rfl⟩

theorem Pictures.accepted {after : Arena} (pictures : after.Pictures picture forest unused)
    (value : α) :
    arena.Follows (some (.ok value, after)) ((.ok value : Except Refusal α), picture) :=
  ⟨after, forest, unused, rfl, pictures, nofun⟩

/-- An answer that is renamed. -/
theorem Follows.map
    {β : Type}
    {result : Option (Except Refusal α × Arena)}
    {expected : Except Refusal α × Picture}
    (follows : arena.Follows result expected)
    (rename : α → β) :
    arena.Follows (result.map fun (answer, after) => (answer.map rename, after))
      (expected.map (Except.map rename) id) := by
  obtain ⟨after, forest, unused, rfl, pictures, unchanged⟩ := follows
  refine ⟨after, forest, unused, rfl, pictures, ?_⟩
  intro refusal isRefused
  refine unchanged refusal ?_
  cases answer : expected.1 with
  | error other =>
    rw [Prod.map_fst, answer] at isRefused
    cases isRefused
    rfl
  | ok value =>
    rw [Prod.map_fst, answer] at isRefused
    cases isRefused

section

variable (pictures : arena.Pictures picture forest unused) {created : Created} {entry : CreateNode}
  {place before : Option SlotIx} (isNode : created.node = entry.node)
  (standsPlace : arena.Stands forest place entry.parent)
  (standsBefore : arena.Stands forest before entry.before)

include pictures isNode standsPlace standsBefore

/-- Moving a node follows the picture. -/
theorem Pictures.move (found : arena.find entry.node = some ix) :
    arena.Follows (arena.move created ix place before) (picture.rehang created.kind entry) := by
  obtain ⟨holds, atNode⟩ := pictures.find_eq_some.mp found
  obtain ⟨isPlace, heldPlace⟩ := standsPlace
  have woven := pictures.well.woven
  rw [Arena.move, Picture.rehang, pictures.kind_of_find found, isNode]
  by_cases kind : (arena.slots ix).held.map Created.kind ≠ some created.kind
  · rw [if_pos kind, if_pos kind]
    exact pictures.refused _
  rw [if_neg kind, if_neg kind]
  have cycleIff : place.any (arena.descendsFrom · ix) = true ↔
      ∃ above ∈ placeOf entry.parent, picture.forest.Within entry.node above := by
    rw [Option.any_eq_true, ← isPlace]
    constructor
    · rintro ⟨above, isAbove, descends⟩
      have holdsAbove := heldPlace above isAbove
      refine ⟨arena.nodeAt above, Option.mem_map_of_mem _ isAbove, ?_⟩
      rw [← atNode, pictures.renames.within_iff woven.formed holds holdsAbove]
      exact (descendsFrom_iff woven holdsAbove).mp descends
    · rintro ⟨label, isLabel, within⟩
      obtain ⟨above, isAbove, rfl⟩ := Option.map_eq_some_iff.mp isLabel
      have holdsAbove := heldPlace above isAbove
      rw [← atNode, pictures.renames.within_iff woven.formed holds holdsAbove] at within
      exact ⟨above, isAbove, (descendsFrom_iff woven holdsAbove).mpr within⟩
  by_cases cycle : place.any (arena.descendsFrom · ix) = true
  · rw [if_pos cycle, if_pos (cycleIff.mp cycle)]
    exact pictures.refused _
  rw [if_neg cycle, if_neg (cycleIff.not.mp cycle)]
  have mayHang : MayHang forest ix place := by
    intro above isAbove
    refine ⟨heldPlace above isAbove, fun within => cycle ?_⟩
    rw [Option.any_eq_true]
    exact ⟨above, isAbove, (descendsFrom_iff woven (heldPlace above isAbove)).mpr within⟩
  obtain ⟨unlinked, moved, unlinks, links, stripped, well⟩ :=
    pictures.well.relink (woven.holds_iff.mp holds) mayHang before
  simp only [unlinks, links, Option.bind_eq_bind, Option.bind_some]
  exact (pictures.moved found isPlace standsBefore mayHang stripped well).accepted _

/-- Making a node follows the picture. -/
theorem Pictures.make (isNew : arena.find entry.node = none) :
    arena.Follows (arena.make created place before)
      (picture.create nodesMax created.kind entry) := by
  rw [Picture.create]
  rcases pictures.well.make (isNode ▸ isNew) place before standsPlace.2 with
    ⟨refused, full⟩ | ⟨ix, after, rest, made, vacant, held, drawn, well⟩
  · have noRoom : ¬picture.nodes.encard < nodesMax := by
      rw [pictures.room_iff]
      rintro ⟨one, vacant⟩
      have isSome := full one
      rw [vacant] at isSome
      cases isSome
    rw [if_pos noRoom, refused]
    exact pictures.refused _
  · have room : picture.nodes.encard < nodesMax := pictures.room_iff.mpr ⟨ix, vacant⟩
    rw [if_neg (not_not.mpr room), made]
    exact (pictures.made isNode isNew standsPlace standsBefore vacant held drawn well).accepted _

end

section

variable (pictures : arena.Pictures picture forest unused)

include pictures

/-- Hanging a node follows the picture. -/
theorem Pictures.hang {entry : CreateNode} (isNode : created.node = entry.node)
    (isKind : created.kind.wire = entry.kind) :
    arena.Follows (arena.hang created entry) (picture.hang nodesMax created.kind entry) := by
  have matched : ¬(created.node ≠ entry.node ∨ created.kind.wire ≠ entry.kind) := by
    rw [not_or, not_not, not_not]
    exact ⟨isNode, isKind⟩
  rw [Arena.hang, Picture.hang, if_neg matched, isNode]
  by_cases itself : entry.before = entry.node
  · rw [if_pos itself, if_pos itself]
    exact pictures.refused _
  rw [if_neg itself, if_neg itself]
  rcases pictures.placeUnder entry.parent with
    ⟨noParent, refuses⟩ | ⟨isParent, place, places, standsPlace⟩
  · rw [if_pos noParent, refuses]
    exact pictures.refused _
  rw [if_neg isParent, places, ← standsPlace.1]
  rcases pictures.placeBefore standsPlace.2 entry.before with
    ⟨noSibling, refuses⟩ | ⟨isSibling, before, stands, standsBefore⟩
  · rw [if_pos noSibling]
    dsimp only
    rw [refuses]
    exact pictures.refused _
  rw [if_neg isSibling]
  dsimp only
  rw [stands]
  cases found : arena.find entry.node with
  | some ix =>
    rw [if_pos (pictures.holds_iff.mpr ⟨ix, found⟩)]
    exact pictures.move isNode standsPlace standsBefore found
  | none =>
    rw [if_neg (pictures.find_eq_none.mp found)]
    exact pictures.make isNode standsPlace standsBefore found

/-- Removing a node follows the picture. -/
theorem Pictures.remove {removal : Removal} :
    arena.Follows (arena.remove removal) (picture.remove removal.root) := by
  rw [Picture.remove]
  cases found : arena.find removal.root with
  | none =>
    rw [if_pos (pictures.find_eq_none.mp found), Arena.remove, found]
    exact pictures.refused _
  | some root =>
    have holds := pictures.holds_iff.mpr ⟨root, found⟩
    obtain ⟨torn, gone, removes, nodup, within, well, kept⟩ := pictures.well.remove found
    rw [if_neg (not_not.mpr holds), removes, pictures.ncard_subtree found nodup within]
    exact (pictures.torn found well kept).accepted _

/-- Storing a record follows the picture. -/
theorem Pictures.store (draws : Draws change look) (node : UInt32) :
    arena.Follows
      (some ((arena.store node change).1.map fun _ => .set node, (arena.store node change).2))
      (picture.store node look) := by
  rw [Picture.store]
  cases found : arena.find node with
  | none =>
    rw [if_pos (pictures.find_eq_none.mp found), Arena.store, found]
    exact pictures.refused _
  | some ix =>
    have holds := pictures.holds_iff.mpr ⟨ix, found⟩
    rw [if_neg (not_not.mpr holds), Arena.store, found]
    exact (pictures.draw found draws).accepted _

/-- Every delta follows the picture. -/
theorem Pictures.apply (delta : Delta) :
    arena.Follows (arena.apply delta) (picture.apply nodesMax delta) := by
  rw [Arena.apply, Picture.apply]
  cases changes : Change.of delta with
  | error refusal => exact pictures.refused _
  | ok change =>
    cases body : delta.body with
    | createNode entry =>
      cases change with
      | created created =>
        obtain ⟨isNode, isKind⟩ := Change.created_of changes body
        exact (pictures.hang isNode isKind).map Applied.hung
      | removed removal | untouched => exact pictures.refused _
    | removeNode entry =>
      cases change with
      | removed removal =>
        dsimp only
        rw [← Change.removed_of changes body]
        exact pictures.remove.map Applied.removed
      | created created | untouched => exact pictures.refused _
    | setTransform record | setPath record | setPaint record | setEffect record =>
      refine pictures.store ?_ record.node
      exact fun _ => ⟨rfl, rfl, rfl, rfl, rfl⟩
    | commit commit => exact pictures.accepted _

end

end Following

section Runs

/-- The forest without nodes. -/
def bare : Hierarchy SlotIx := ⟨fun _ => none, fun _ => []⟩

/-- The empty arena holds the empty picture. -/
theorem pictures_empty : Arena.empty.Pictures Picture.empty bare [] := by
  have formed : ∀ {α : Type}, (⟨fun _ => none, fun _ => []⟩ : Hierarchy α).Formed :=
    ⟨fun _ => List.nodup_nil, fun _ _ => by simp, fun _ holds => nomatch holds⟩
  have woven : Arena.empty.Woven bare := by
    refine ⟨fun _ => rfl, fun place => ?_, formed⟩
    cases place with
    | none | some _ => exact .nil
  have stocked : Arena.empty.Stocked [] :=
    ⟨.nil, List.nodup_nil, Nat.zero_le _, by simp, (fun _ below => nomatch below), fun _ _ => rfl⟩
  have counted : Arena.empty.Counted := by
    refine ⟨(fun isHeld => nomatch isHeld), fun kind => ?_⟩
    refine (Finset.card_eq_zero.mpr (Finset.filter_eq_empty_iff.mpr fun _ _ => ?_)).symm
    exact nofun
  refine ⟨⟨woven, stocked, counted⟩, ?_, formed, (fun isHeld => nomatch isHeld),
    fun _ => ⟨rfl, rfl⟩⟩
  refine ⟨(fun holds => nomatch holds), fun label => ?_, (fun _ holds => nomatch holds),
    fun _ _ => rfl⟩
  exact ⟨(fun holds => nomatch holds), fun ⟨_, holds, _⟩ => nomatch holds⟩

variable {picture : Picture}

/-- A run of deltas follows the picture. -/
theorem Pictures.applyAll (pictures : arena.Pictures picture forest unused) (deltas : List Delta) :
    ∃ after forest unused, arena.applyAll deltas = some after ∧
      after.Pictures (picture.applyAll nodesMax deltas) forest unused := by
  induction deltas generalizing arena picture forest unused with
  | nil => exact ⟨arena, forest, unused, rfl, pictures⟩
  | cons delta rest ih =>
    obtain ⟨next, nextForest, nextUnused, applies, nextPictures, -⟩ := pictures.apply delta
    obtain ⟨after, forest, unused, run, afterPictures⟩ := ih nextPictures
    refine ⟨after, forest, unused, ?_, afterPictures⟩
    rw [Arena.applyAll, applies]
    exact run

/-- A slot is in the forest, on the free list, or as new, and never two of these. -/
def Sorted (arena : Arena) (forest : Hierarchy SlotIx) (unused : List SlotIx) (ix : SlotIx) :
    Prop :=
  (forest.Holds ix ∧ ix ∉ unused ∧ ix.val < arena.bumped) ∨
    (¬forest.Holds ix ∧ ix ∈ unused ∧ ix.val < arena.bumped) ∨
    (¬forest.Holds ix ∧ ix ∉ unused ∧ arena.bumped ≤ ix.val ∧ arena.slots ix = Slot.empty)

theorem Well.sorted (well : arena.Well forest unused) (ix : SlotIx) :
    arena.Sorted forest unused ix := by
  have stocked := well.stocked
  rw [Sorted, well.woven.holds_iff]
  by_cases used : ix.val < arena.bumped
  · by_cases isUnused : ix ∈ unused
    · rw [(stocked.vacant ix isUnused).1]
      exact .inr (.inl ⟨Bool.false_ne_true, isUnused, used⟩)
    · exact .inl ⟨(stocked.used ix used).resolve_right isUnused, isUnused, used⟩
  · have isEmpty := stocked.never ix (not_lt.mp used)
    refine .inr (.inr ⟨?_, fun isUnused => used (stocked.vacant ix isUnused).2, not_lt.mp used,
      isEmpty⟩)
    rw [held, isEmpty]
    exact Bool.false_ne_true

end Runs

end FSystem.Scene.Arena
