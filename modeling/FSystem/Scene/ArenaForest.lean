import FSystem.Scene.ArenaLinks
import FSystem.Scene.Picture

/-!
# The forest in the scene arena

An arena is well if its links weave a formed forest of the slots that hold a node, every
other slot that was ever used is on the free list, and the census counts the nodes.  Moving a
node and making one hang it in the forest.
-/

namespace FSystem.Scene.Arena

open Function

variable {arena base after : Arena} {ix other : SlotIx} {place before : Option SlotIx}
  {forest : Hierarchy SlotIx} {unused : List SlotIx}

section Holding

/-- The node in a slot. -/
def held (arena : Arena) (ix : SlotIx) : Option Created := (arena.slots ix).held

/-- What the node in a slot is drawn with. -/
def drawn (arena : Arena) (ix : SlotIx) : Drawn :=
  ⟨(arena.slots ix).transform, (arena.slots ix).path, (arena.slots ix).paint⟩

theorem drawn_stripped : arena.stripped.drawn = arena.drawn := rfl

theorem drawn_modify (change : Slot → Slot) :
    (arena.modify ix change).drawn = update arena.drawn ix
      ⟨(change (arena.slots ix)).transform, (change (arena.slots ix)).path,
        (change (arena.slots ix)).paint⟩ :=
  comp_update (fun slot : Slot => Drawn.mk slot.transform slot.path slot.paint) ..

theorem drawn_of_stripped (stripped : after.stripped = arena.stripped) :
    after.drawn = arena.drawn := by
  rw [← drawn_stripped, stripped, drawn_stripped]

theorem held_stripped : arena.stripped.held = arena.held := rfl

theorem held_modify (change : Slot → Slot) :
    (arena.modify ix change).held = update arena.held ix (change (arena.slots ix)).held :=
  comp_update Slot.held ..

section

variable (stripped : after.stripped = arena.stripped)

include stripped

theorem held_of_stripped : after.held = arena.held := by
  rw [← held_stripped, stripped, held_stripped]

theorem free_of_stripped : after.free = arena.free :=
  (congrArg Arena.free stripped :)

theorem bumped_of_stripped : after.bumped = arena.bumped :=
  (congrArg Arena.bumped stripped :)

theorem census_of_stripped : after.census = arena.census :=
  (congrArg Arena.census stripped :)

/-- A slot is its links and the rest of it. -/
theorem slots_eq_of_links (parent : after.parents ix = arena.parents ix)
    (next : after.nexts ix = arena.nexts ix) (head : after.head (some ix) = arena.head (some ix)) :
    after.slots ix = arena.slots ix := by
  have rest := congrFun (congrArg Arena.slots stripped) ix
  cases isSlot : arena.slots ix
  cases isAfter : after.slots ix
  simp only [parents, nexts, Arena.head, isSlot, isAfter] at parent next head
  simp only [Arena.stripped, isSlot, isAfter, Slot.mk.injEq] at rest ⊢
  exact ⟨rest.1, parent, head, next, rest.2.2.2.2.1, rest.2.2.2.2.2.1, rest.2.2.2.2.2.2⟩

end

end Holding

/-- The links weave a forest of the slots that hold a node. -/
structure Woven (arena : Arena) (forest : Hierarchy SlotIx) : Prop where
  hangs : ∀ ix, forest.parent ix = (arena.held ix).map fun _ => arena.parents ix
  chains : ∀ place, Chain arena.nexts (arena.head place) (forest.children place)
  formed : forest.Formed

namespace Woven

variable (woven : arena.Woven forest)

include woven

theorem holds_iff : forest.Holds ix ↔ (arena.held ix).isSome := by
  rw [Hierarchy.Holds, woven.hangs, Option.isSome_map]

theorem parent_of_held (isHeld : (arena.held ix).isSome) :
    forest.parent ix = some (arena.parents ix) := by
  obtain ⟨created, isCreated⟩ := Option.isSome_iff_exists.mp isHeld
  rw [woven.hangs, isCreated]
  rfl

theorem strung : arena.Strung forest.children where
  chains := woven.chains
  nodup := woven.formed.nodup
  apart := by
    intro one key key' inFirst inSecond
    rw [woven.formed.mem_children] at inFirst inSecond
    exact Option.some.inj (inFirst.symm.trans inSecond)

theorem not_holds (vacant : arena.held ix = none) : ¬forest.Holds ix := by
  rw [woven.holds_iff, vacant]
  exact Bool.false_ne_true

/-- A slot without a node stands in no list. -/
theorem notMem_of_vacant (vacant : arena.held ix = none) (key : Option SlotIx) :
    ix ∉ forest.children key := by
  intro inside
  rw [woven.formed.mem_children, woven.hangs, vacant] at inside
  cases inside

/-- A slot without a node heads no list. -/
theorem head_of_vacant (vacant : arena.held ix = none) : arena.head (some ix) = none := by
  have chain := woven.chains (some ix)
  rw [woven.formed.children_of_not_holds (woven.not_holds vacant)] at chain
  exact chain.head_eq

end Woven

/-- The place is the top or holds a node that is not at or under the slot. -/
def MayHang (forest : Hierarchy SlotIx) (ix : SlotIx) (place : Option SlotIx) : Prop :=
  ∀ above ∈ place, forest.Holds above ∧ ¬forest.Within ix above

/-- An arena with the links of a forest but for one slot, which was linked into it. -/
theorem Woven.hang
    (woven : arena.Woven forest)
    (mayHang : MayHang forest ix place)
    (heldSame : ∀ other, other ≠ ix → base.held other = arena.held other)
    (parentSame : ∀ other, other ≠ ix → base.parents other = arena.parents other)
    (isHeld : (base.held ix).isSome)
    (relinked : Relinked base after ix place forest.children
      (forest.hang ix place before).children) :
    after.Woven (forest.hang ix place before) where
  hangs one := by
    rw [held_of_stripped relinked.stripped, relinked.parents]
    by_cases same : one = ix
    · obtain ⟨created, isCreated⟩ := Option.isSome_iff_exists.mp isHeld
      rw [same, Hierarchy.hang_parent_self, isCreated, update_self]
      rfl
    · rw [Hierarchy.hang_parent_of_ne same, woven.hangs, heldSame one same,
        update_of_ne same, parentSame one same]
  chains := relinked.strung.chains
  formed := woven.formed.hang before mayHang

section Moving

theorem Relinked.trans
    {middle : Arena}
    {lists strings results : Option SlotIx → List SlotIx}
    {first : Option SlotIx}
    (earlier : Relinked arena middle ix first lists strings)
    (later : Relinked middle after ix place strings results)
    (fewer : ∀ key, ∀ one ∈ strings key, one ∈ lists key) :
    Relinked arena after ix place lists results where
  stripped := later.stripped.trans earlier.stripped
  parents := by rw [later.parents, earlier.parents, update_idem]
  outside other different nowhere := by
    rw [later.outside other different fun key inside => nowhere key (fewer key other inside),
      earlier.outside other different nowhere]
  strung := later.strung

/-- A slot that is unlinked and linked again. -/
theorem Woven.relink (woven : arena.Woven forest) (isHeld : (arena.held ix).isSome)
    (place before : Option SlotIx) :
    ∃ unlinked after, arena.unlink ix = some unlinked ∧
      unlinked.link ix place before = some after ∧
      Relinked arena after ix place forest.children (forest.hang ix place before).children := by
  have member : ix ∈ forest.children (arena.slots ix).parent :=
    (woven.formed.mem_children _ _).mpr (woven.parent_of_held isHeld)
  obtain ⟨unlinked, unlinks, -, out⟩ := woven.strung.unlink member
  have fresh : ∀ key, ix ∉ (forest.children key).erase ix :=
    fun key => (woven.formed.nodup key).not_mem_erase
  obtain ⟨after, links, back⟩ := out.strung.link fresh place before
  refine ⟨unlinked, after, unlinks, links, out.trans back ?_⟩
  exact fun key one inside => List.mem_of_mem_erase inside

end Moving

/-- Slots once used that hold no node are on the free list; others that hold none are as new. -/
structure Stocked (arena : Arena) (unused : List SlotIx) : Prop where
  freed : Chain arena.nexts arena.free unused
  nodup : unused.Nodup
  bound : arena.bumped ≤ nodesMax
  vacant : ∀ ix ∈ unused, arena.held ix = none ∧ ix.val < arena.bumped
  used : ∀ ix, ix.val < arena.bumped → (arena.held ix).isSome ∨ ix ∈ unused
  never : ∀ ix, arena.bumped ≤ ix.val → arena.slots ix = Slot.empty

/-- No identifier is held twice, and the census counts the nodes of each kind. -/
structure Counted (arena : Arena) : Prop where
  once : ∀ {ix other one two}, arena.held ix = some one → arena.held other = some two →
    one.node = two.node → ix = other
  census : ∀ kind, arena.census kind =
    (Finset.univ.filter fun ix => (arena.held ix).map Created.kind = some kind).card

/-- The arena weaves a forest, keeps its free list and counts its nodes. -/
structure Well (arena : Arena) (forest : Hierarchy SlotIx) (unused : List SlotIx) : Prop where
  woven : arena.Woven forest
  stocked : arena.Stocked unused
  counted : arena.Counted

section Keeping

theorem Counted.congr (counted : arena.Counted) (held : after.held = arena.held)
    (census : after.census = arena.census) : after.Counted where
  once := by
    rw [held]
    exact counted.once
  census := by
    rw [held, census]
    exact counted.census

theorem Counted.of_stripped (counted : arena.Counted)
    (stripped : after.stripped = arena.stripped) : after.Counted :=
  counted.congr (held_of_stripped stripped) (census_of_stripped stripped)

/-- Linking keeps the free list, since it leaves the slots without a node alone. -/
theorem Stocked.relinked
    {lists strings : Option SlotIx → List SlotIx}
    (stocked : base.Stocked unused)
    (relinked : Relinked base after ix place lists strings)
    (isHeld : (base.held ix).isSome)
    (onlyHeld : ∀ key, ∀ one ∈ lists key, (base.held one).isSome)
    (headless : ∀ one, base.held one = none → after.head (some one) = none) :
    after.Stocked unused := by
  have bumped := bumped_of_stripped relinked.stripped
  have free := free_of_stripped relinked.stripped
  have held := held_of_stripped relinked.stripped
  have different : ∀ {one}, base.held one = none → one ≠ ix := by
    rintro one isVacant rfl
    exact Option.isSome_iff_ne_none.mp isHeld isVacant
  have nowhere : ∀ {one}, base.held one = none → ∀ key, one ∉ lists key :=
    fun isVacant key inside => Option.isSome_iff_ne_none.mp (onlyHeld key _ inside) isVacant
  have next : ∀ {one}, base.held one = none → after.nexts one = base.nexts one :=
    fun isVacant => relinked.outside _ (different isVacant) (nowhere isVacant)
  constructor
  case freed =>
    rw [free]
    exact stocked.freed.congr fun one member => next (stocked.vacant one member).1
  case nodup => exact stocked.nodup
  case bound =>
    rw [bumped]
    exact stocked.bound
  case vacant =>
    rw [bumped, held]
    exact stocked.vacant
  case used =>
    rw [bumped, held]
    exact stocked.used
  case never =>
    intro one isNew
    rw [bumped] at isNew
    have isEmpty := stocked.never one isNew
    have isVacant : base.held one = none := by
      rw [Arena.held, isEmpty]
      rfl
    rw [slots_eq_of_links relinked.stripped ?_ (next isVacant) ?_, isEmpty]
    · rw [relinked.parents, update_of_ne (different isVacant)]
    · rw [headless one isVacant, Arena.head, isEmpty]
      rfl

/-- The slots that stand in lists hold a node. -/
theorem Woven.held_of_mem (woven : arena.Woven forest) {key : Option SlotIx} {one : SlotIx}
    (member : one ∈ forest.children key) : (arena.held one).isSome := by
  rw [← woven.holds_iff]
  exact Hierarchy.holds_of_parent ((woven.formed.mem_children _ _).mp member)

/-- Moving a node hangs it elsewhere in the forest. -/
theorem Well.relink (well : arena.Well forest unused) (isHeld : (arena.held ix).isSome)
    (mayHang : MayHang forest ix place) (before : Option SlotIx) :
    ∃ unlinked after, arena.unlink ix = some unlinked ∧
      unlinked.link ix place before = some after ∧ after.stripped = arena.stripped ∧
      after.Well (forest.hang ix place before) unused := by
  obtain ⟨unlinked, after, unlinks, links, relinked⟩ := well.woven.relink isHeld place before
  have woven := well.woven.hang mayHang (fun _ _ => rfl) (fun _ _ => rfl) isHeld relinked
  refine ⟨unlinked, after, unlinks, links, relinked.stripped, woven, ?_, ?_⟩
  · refine well.stocked.relinked relinked isHeld (fun _ _ => well.woven.held_of_mem) ?_
    intro one vacant
    refine woven.head_of_vacant ?_
    rw [held_of_stripped relinked.stripped, vacant]
  · exact well.counted.of_stripped relinked.stripped

end Keeping

section Finding

variable {node : UInt32}

theorem find_eq_none :
    arena.find node = none ↔ ∀ ix created, arena.held ix = some created → created.node ≠ node := by
  simp only [find, List.find?_eq_none, List.mem_finRange, true_implies, Option.any_eq_true,
    decide_eq_true_eq, not_exists, not_and]
  rfl

theorem held_of_find (found : arena.find node = some ix) :
    ∃ created, arena.held ix = some created ∧ created.node = node := by
  have holds := List.find?_some found
  obtain ⟨created, isHeld, same⟩ := (Option.any_eq_true _ _).mp holds
  exact ⟨created, isHeld, of_decide_eq_true same⟩

theorem Counted.find_eq_some (counted : arena.Counted) :
    arena.find node = some ix ↔ ∃ created, arena.held ix = some created ∧ created.node = node := by
  refine ⟨held_of_find, ?_⟩
  rintro ⟨created, isHeld, rfl⟩
  cases result : arena.find created.node with
  | none => exact absurd rfl (find_eq_none.mp result ix created isHeld)
  | some found =>
    obtain ⟨other, alsoHeld, same⟩ := held_of_find result
    rw [counted.once alsoHeld isHeld same]

end Finding

section Making

/-- What taking a slot gives: one without a node, as new, and the rest. -/
structure Taken (arena : Arena) (ix : SlotIx) (taken : Arena) (rest : List SlotIx) : Prop where
  vacant : arena.held ix = none
  slots : taken.slots = update arena.slots ix Slot.empty
  roots : taken.roots = arena.roots
  census : taken.census = arena.census
  freed : Chain arena.nexts taken.free rest
  fresh : ix ∉ rest
  nodup : rest.Nodup
  bound : taken.bumped ≤ nodesMax
  unused : ∀ one ∈ rest, arena.held one = none ∧ one.val < taken.bumped
  below : ix.val < taken.bumped
  used : ∀ one, one.val < taken.bumped → (arena.held one).isSome ∨ one = ix ∨ one ∈ rest
  never : ∀ one, taken.bumped ≤ one.val → arena.slots one = Slot.empty

/-- A slot is taken unless every slot holds a node. -/
theorem Stocked.takeFree (stocked : arena.Stocked unused) :
    (arena.takeFree = none ∧ ∀ ix, (arena.held ix).isSome) ∨
      ∃ ix taken rest, arena.takeFree = some (ix, taken) ∧ arena.Taken ix taken rest := by
  cases isFree : arena.free with
  | some ix =>
    have freed := stocked.freed
    rw [isFree] at freed
    obtain ⟨rest, isUnused, tail⟩ := freed.eq_cons
    have nodup := stocked.nodup
    have vacant := stocked.vacant
    rw [isUnused] at nodup vacant
    obtain ⟨fresh, nodup⟩ := List.nodup_cons.mp nodup
    refine .inr ⟨ix, _, rest, by rw [Arena.takeFree, isFree], ?_⟩
    refine ⟨(vacant ix List.mem_cons_self).1, rfl, rfl, rfl, tail, fresh, nodup, stocked.bound,
      fun one member => vacant one (List.mem_cons_of_mem _ member),
      (vacant ix List.mem_cons_self).2, ?_, stocked.never⟩
    intro one below
    have isUsed := stocked.used one below
    rwa [isUnused, List.mem_cons] at isUsed
  | none =>
    have freed := stocked.freed
    rw [isFree] at freed
    have isUnused := freed.eq_nil
    have used : ∀ one : SlotIx, one.val < arena.bumped → (arena.held one).isSome := by
      intro one below
      refine (stocked.used one below).resolve_right ?_
      rw [isUnused]
      exact List.not_mem_nil
    by_cases room : arena.bumped < nodesMax
    · have isNew := stocked.never ⟨arena.bumped, room⟩ le_rfl
      refine .inr ⟨⟨arena.bumped, room⟩, { arena with bumped := arena.bumped + 1 }, [], ?_, ?_⟩
      · rw [Arena.takeFree, isFree]
        exact dif_pos room
      refine ⟨?_, ?_, rfl, rfl, ?_, List.not_mem_nil, List.nodup_nil, room,
        fun one member => absurd member List.not_mem_nil, Nat.lt_succ_self _, ?_, ?_⟩
      · rw [held, isNew]
        rfl
      · rw [← isNew]
        exact (update_eq_self ..).symm
      · change Chain arena.nexts arena.free []
        rw [isFree]
        exact .nil
      · intro one below
        rcases Nat.lt_succ_iff_lt_or_eq.mp below with earlier | same
        · exact .inl (used one earlier)
        · exact .inr (.inl (Fin.ext same))
      · intro one above
        exact stocked.never one (Nat.le_of_succ_le above)
    · refine .inl ⟨?_, fun one => used one (lt_of_lt_of_le one.isLt (not_lt.mp room))⟩
      rw [Arena.takeFree, isFree]
      exact dif_neg room

namespace Taken

variable {taken : Arena} {rest : List SlotIx} (isTaken : arena.Taken ix taken rest)
  (created : Created)

include isTaken

/-- The slots with a node put into the one that was taken. -/
theorem slots_fill : (taken.fill ix created).slots =
    (arena.modify ix fun _ => { Slot.empty with held := some created }).slots := by
  simp [fill, modify, isTaken.slots, update_idem]

theorem held_fill : (taken.fill ix created).held = update arena.held ix (some created) :=
  (congrArg (Slot.held ∘ ·) (isTaken.slots_fill created)).trans (held_modify _)

theorem drawn_fill : (taken.fill ix created).drawn = update arena.drawn ix {} := by
  funext one
  rw [Arena.drawn, isTaken.slots_fill]
  exact congrFun (drawn_modify _) one

theorem nexts_fill : (taken.fill ix created).nexts = update arena.nexts ix none :=
  (congrArg (Slot.next ∘ ·) (isTaken.slots_fill created)).trans (nexts_modify _)

theorem parents_fill : (taken.fill ix created).parents = update arena.parents ix none :=
  (congrArg (Slot.parent ∘ ·) (isTaken.slots_fill created)).trans (parents_modify _)

theorem head_fill (woven : arena.Woven forest) : (taken.fill ix created).head = arena.head := by
  funext key
  cases key with
  | none => exact isTaken.roots
  | some one =>
    rw [Arena.head, isTaken.slots_fill]
    by_cases same : one = ix
    · rw [same, woven.head_of_vacant isTaken.vacant]
      simp [modify, Slot.empty]
    · simp [modify, same, Arena.head]

theorem strung_fill (woven : arena.Woven forest) :
    (taken.fill ix created).Strung forest.children := by
  refine ⟨fun key => ?_, woven.strung.nodup, woven.strung.apart⟩
  rw [isTaken.nexts_fill, isTaken.head_fill created woven]
  exact (woven.chains key).update_of_notMem (woven.notMem_of_vacant isTaken.vacant key) none

/-- Filling a slot keeps the stock. -/
theorem stocked_fill : (taken.fill ix created).Stocked rest where
  freed := by
    rw [isTaken.nexts_fill]
    exact isTaken.freed.update_of_notMem isTaken.fresh none
  nodup := isTaken.nodup
  bound := isTaken.bound
  vacant one member := by
    obtain ⟨vacant, below⟩ := isTaken.unused one member
    refine ⟨?_, below⟩
    have different : one ≠ ix := fun same => isTaken.fresh (same ▸ member)
    rw [isTaken.held_fill, update_of_ne different, vacant]
  used one below := by
    rw [isTaken.held_fill]
    by_cases same : one = ix
    · rw [same, update_self]
      exact .inl rfl
    · rw [update_of_ne same]
      exact (isTaken.used one below).imp_right fun either => either.resolve_left same
  never one isNew := by
    have different : one ≠ ix := by
      rintro rfl
      exact absurd isTaken.below (not_lt.mpr isNew)
    rw [isTaken.slots_fill, slots_modify_of_ne _ different]
    exact isTaken.never one isNew

end Taken

/-- The nodes of a kind, one more when a node is put where none was. -/
theorem card_update_some
    {held : SlotIx → Option Created} (vacant : held ix = none) (created : Created) (kind : Kind) :
    (Finset.univ.filter fun one =>
        (update held ix (some created) one).map Created.kind = some kind).card =
      (Finset.univ.filter fun one => (held one).map Created.kind = some kind).card +
        if created.kind = kind then 1 else 0 := by
  have absent : ix ∉ Finset.univ.filter fun one => (held one).map Created.kind = some kind := by
    rw [Finset.mem_filter, vacant]
    rintro ⟨-, impossible⟩
    cases impossible
  by_cases same : created.kind = kind
  · rw [if_pos same, ← Finset.card_insert_of_notMem absent]
    refine congrArg Finset.card (Finset.ext fun one => ?_)
    by_cases here : one = ix
    · simp [here, same]
    · simp [here]
  · rw [if_neg same, Nat.add_zero]
    refine congrArg Finset.card (Finset.ext fun one => ?_)
    by_cases here : one = ix
    · simp [here, same, vacant]
    · simp [here]

theorem Counted.census_le (counted : arena.Counted) (kind : Kind) :
    arena.census kind ≤ nodesMax := by
  rw [counted.census]
  exact (Finset.card_le_univ _).trans_eq (Fintype.card_fin nodesMax)

variable {created : Created}

/-- A new node is counted. -/
theorem Taken.counted_fill
    {taken : Arena}
    {rest : List SlotIx}
    (isTaken : arena.Taken ix taken rest)
    (isCounted : arena.Counted)
    (isNew : arena.find created.node = none) : (taken.fill ix created).Counted where
  once := by
    have fresh := find_eq_none.mp isNew
    intro first second one two isOne isTwo same
    rw [isTaken.held_fill] at isOne isTwo
    by_cases firstHere : first = ix
    · by_cases secondHere : second = ix
      · rw [firstHere, secondHere]
      · rw [firstHere, update_self] at isOne
        rw [update_of_ne secondHere] at isTwo
        cases isOne
        exact absurd same.symm (fresh second two isTwo)
    · rw [update_of_ne firstHere] at isOne
      by_cases secondHere : second = ix
      · rw [secondHere, update_self] at isTwo
        cases isTwo
        exact absurd same (fresh first one isOne)
      · rw [update_of_ne secondHere] at isTwo
        exact isCounted.once isOne isTwo same
  census kind := by
    have filled : (taken.fill ix created).census =
        update arena.census created.kind (counted (arena.census created.kind)) := by
      rw [fill, isTaken.census]
    rw [isTaken.held_fill, card_update_some isTaken.vacant, filled, ← isCounted.census]
    by_cases same : created.kind = kind
    · have bound := isCounted.census_le kind
      rw [if_pos same, same, update_self, counted]
      unfold nodesMax at bound
      omega
    · rw [if_neg same, update_of_ne (Ne.symm same), Nat.add_zero]

/-- Making a node hangs it in the forest, unless every slot holds a node. -/
theorem Well.make (well : arena.Well forest unused) (isNew : arena.find created.node = none)
    (place before : Option SlotIx) (placed : ∀ above ∈ place, forest.Holds above) :
    (arena.make created place before = some (.error .capacity, arena) ∧
        ∀ ix, (arena.held ix).isSome) ∨
      ∃ ix after rest, arena.make created place before = some (.ok .created, after) ∧
        arena.held ix = none ∧ after.held = update arena.held ix (some created) ∧
        after.drawn = update arena.drawn ix {} ∧
        after.Well (forest.hang ix place before) rest := by
  rcases well.stocked.takeFree with ⟨full, allHeld⟩ | ⟨ix, taken, rest, takes, isTaken⟩
  · refine .inl ⟨?_, allHeld⟩
    rw [Arena.make, full]
  have woven := well.woven
  have fresh := woven.notMem_of_vacant isTaken.vacant
  obtain ⟨after, links, relinked⟩ := (isTaken.strung_fill created woven).link fresh place before
  have sameLists : Arena.inserted forest.children ix place before =
      (forest.hang ix place before).children := by
    funext key
    rw [Arena.inserted, Hierarchy.hang]
    dsimp only
    rw [List.erase_of_not_mem (fresh key)]
  rw [sameLists] at relinked
  have isHeld : ((taken.fill ix created).held ix).isSome := by
    rw [isTaken.held_fill, update_self]
    rfl
  have mayHang : MayHang forest ix place := by
    intro above isAbove
    refine ⟨placed above isAbove, fun within => ?_⟩
    exact woven.not_holds isTaken.vacant
      (woven.formed.holds_of_within within (placed above isAbove))
  have wovenAfter : after.Woven (forest.hang ix place before) := by
    refine woven.hang mayHang ?_ ?_ isHeld relinked
    · intro other different
      rw [isTaken.held_fill, update_of_ne different]
    · intro other different
      rw [isTaken.parents_fill, update_of_ne different]
  have onlyHeld : ∀ key, ∀ one ∈ forest.children key,
      ((taken.fill ix created).held one).isSome := by
    intro key one inside
    have different : one ≠ ix := fun same => fresh key (same ▸ inside)
    rw [isTaken.held_fill, update_of_ne different]
    exact woven.held_of_mem inside
  have headless : ∀ one, (taken.fill ix created).held one = none →
      after.head (some one) = none := by
    intro one vacant
    refine wovenAfter.head_of_vacant ?_
    rw [held_of_stripped relinked.stripped, vacant]
  refine .inr ⟨ix, after, rest, ?_, isTaken.vacant, ?_, ?_, wovenAfter, ?_, ?_⟩
  · rw [Arena.make, takes]
    dsimp only
    rw [links]
    rfl
  · rw [held_of_stripped relinked.stripped, isTaken.held_fill]
  · rw [drawn_of_stripped relinked.stripped, isTaken.drawn_fill]
  · exact (isTaken.stocked_fill created).relinked relinked isHeld onlyHeld headless
  · exact (isTaken.counted_fill well.counted isNew).of_stripped relinked.stripped

end Making

end FSystem.Scene.Arena
