import FSystem.Scene.ArenaForest

/-!
# Tearing down a subtree of the scene arena

Removal threads its work list through the sibling links of the slots it is about to give
back.  At every moment the subtree is what was given back and what hangs at or under the work
list; what hangs under it is still woven as it was, and everything else is as it was.
-/

namespace FSystem.Scene.Arena

open Function List

variable {arena start after : Arena} {ix one root : SlotIx} {forest : Hierarchy SlotIx}
  {unused pending gone : List SlotIx} {removal : Removal} {cursor : Option SlotIx} {fuel : Nat}

/-- Pushing siblings puts them, the last one first, in front of the work list. -/
theorem pushChildren_eq
    {cells stack : List SlotIx}
    {child : Option SlotIx}
    (chain : Chain arena.nexts child cells)
    (stacked : Chain arena.nexts cursor stack)
    (nodup : cells.Nodup)
    (apart : ∀ one ∈ cells, one ∉ stack)
    (enough : cells.length ≤ fuel) :
    ∃ pushed top, pushChildren fuel arena cursor child = some (pushed, top) ∧
      Chain pushed.nexts top (cells.reverse ++ stack) ∧ pushed.stripped = arena.stripped ∧
      pushed.parents = arena.parents ∧ pushed.head = arena.head ∧
      ∀ other, other ∉ cells → pushed.nexts other = arena.nexts other := by
  induction cells generalizing arena stack child cursor fuel with
  | nil =>
    have isNone : child = none := chain.head_eq
    refine ⟨arena, cursor, ?_, stacked, rfl, rfl, rfl, fun _ _ => rfl⟩
    rw [isNone, pushChildren]
  | cons first rest ih =>
    obtain ⟨fresh, nodup⟩ := List.nodup_cons.mp nodup
    cases fuel with
    | zero => cases enough
    | succ fuel =>
      cases chain with
      | cons tail =>
        have tailLater := tail.update_of_notMem fresh cursor
        have offStack := apart first mem_cons_self
        have stackedLater : Chain (arena.setNext first cursor).nexts (some first)
            (first :: stack) := by
          refine .cons ?_
          rw [nexts_setNext, update_self]
          exact stacked.update_of_notMem offStack cursor
        rw [← nexts_setNext] at tailLater
        have apartLater : ∀ other ∈ rest, other ∉ first :: stack := by
          intro other inRest onStack
          rcases mem_cons.mp onStack with rfl | older
          · exact fresh inRest
          · exact apart other (mem_cons_of_mem _ inRest) older
        obtain ⟨pushed, top, result, chained, stripped, parents, head, outside⟩ :=
          ih tailLater stackedLater nodup apartLater (Nat.le_of_succ_le_succ enough)
        refine ⟨pushed, top, result, ?_, ?_, ?_, ?_, ?_⟩
        · rw [reverse_cons, append_assoc]
          exact chained
        · rw [stripped, stripped_setNext]
        · rw [parents, parents_setNext]
        · rw [head, head_setNext]
        · intro other outsideAll
          have notFirst := ne_of_not_mem_cons outsideAll
          rw [outside other (not_mem_of_not_mem_cons outsideAll), nexts_setNext,
            update_of_ne notFirst]

section Releasing

variable {token : Created} (kind : Kind)

/-- The arena after a slot was given back. -/
def released (arena : Arena) (ix : SlotIx) (kind : Kind) : Arena :=
  { arena.modify ix fun _ => { Slot.empty with next := arena.free } with
    free := some ix
    census := update arena.census kind (arena.census kind - 1) }

theorem kindRemoved_eq : token.kindRemoved removal = token.kind := by
  rw [Created.kindRemoved, Created.removedBy]
  by_cases isRoot : removal.root = token.node
  · rw [if_pos isRoot]
  · rw [if_neg isRoot]
    rfl

theorem release_eq (isHeld : arena.held ix = some token) :
    arena.release ix removal = (some token.kind, arena.released ix token.kind) := by
  have inSlot : (arena.slots ix).held = some token := isHeld
  simp only [release, inSlot, kindRemoved_eq]
  rfl

theorem slots_released_of_ne (different : one ≠ ix) :
    (arena.released ix kind).slots one = arena.slots one :=
  update_of_ne different ..

theorem slots_released_self :
    (arena.released ix kind).slots ix = { Slot.empty with next := arena.free } :=
  update_self ..

theorem held_released : (arena.released ix kind).held = update arena.held ix none :=
  comp_update Slot.held ..

theorem nexts_released : (arena.released ix kind).nexts = update arena.nexts ix arena.free :=
  comp_update Slot.next ..

/-- A slot that is given back is no longer counted. -/
theorem Counted.released (isCounted : arena.Counted) (isHeld : arena.held ix = some token) :
    (arena.released ix token.kind).Counted where
  once := by
    have older : ∀ {place created}, (arena.released ix token.kind).held place = some created →
        arena.held place = some created := by
      intro place created isThere
      rw [held_released] at isThere
      by_cases here : place = ix
      · rw [here, update_self] at isThere
        cases isThere
      · rwa [update_of_ne here] at isThere
    intro first second one two isOne isTwo same
    exact isCounted.once (older isOne) (older isTwo) same
  census kind := by
    have vacant : update arena.held ix none ix = none := update_self ..
    have restored : update (update arena.held ix none) ix (some token) =
        arena.held := by
      rw [update_idem, ← isHeld, update_eq_self]
    have before := card_update_some vacant token kind
    rw [restored, ← isCounted.census] at before
    have census : (arena.released ix token.kind).census =
        update arena.census token.kind (arena.census token.kind - 1) := rfl
    rw [held_released, census]
    by_cases same : token.kind = kind
    · rw [if_pos same] at before
      rw [same, update_self, before, Nat.add_sub_cancel]
    · rw [if_neg same, Nat.add_zero] at before
      rw [update_of_ne (Ne.symm same), before]

end Releasing

/-- Between two turns the subtree is what was given back and what is at or under the work list,
woven as it was. -/
structure Tearing (start : Arena) (forest : Hierarchy SlotIx) (root : SlotIx)
    (unused : List SlotIx) (arena : Arena) (pending gone : List SlotIx) : Prop where
  split : ∀ one, forest.Within root one ↔ one ∈ gone ∨ ∃ top ∈ pending, forest.Within top one
  apart : pending.Pairwise fun first second =>
    ¬forest.Within first second ∧ ¬forest.Within second first
  left : ∀ top ∈ pending, ∀ one ∈ gone, ¬forest.Within top one
  nodup : gone.Nodup
  under : ∀ top ∈ pending, ∀ one, forest.Within top one →
    arena.held one = start.held one ∧
      Chain arena.nexts (arena.head (some one)) (forest.children (some one))
  kept : ∀ one, ¬forest.Within root one → arena.slots one = start.slots one
  emptied : ∀ one ∈ gone, arena.slots one = { Slot.empty with next := arena.nexts one }
  freed : Chain arena.nexts arena.free (gone ++ unused)
  roots : arena.roots = start.roots
  bumped : arena.bumped = start.bumped
  counted : arena.Counted

namespace Tearing

variable (tearing : Tearing start forest root unused arena (one :: pending) gone)

include tearing

variable {other : SlotIx}

theorem within_root (within : forest.Within one other) : forest.Within root other :=
  (tearing.split other).mpr (.inr ⟨one, mem_cons_self, within⟩)

/-- No other slot of the work list hangs at or under the first one. -/
theorem not_within_later (later : other ∈ pending) :
    ¬forest.Within one other ∧ ¬forest.Within other one :=
  (List.pairwise_cons.mp tearing.apart).1 other later

theorem notMem_gone : one ∉ gone :=
  fun inside => tearing.left one mem_cons_self one inside .refl

/-- No child of the first slot is at or above another slot of the work list. -/
theorem child_apart {below : SlotIx} (child : forest.Child one below) (later : other ∈ pending) :
    ¬forest.Within below other ∧ ¬forest.Within other below := by
  obtain ⟨notUnder, notAbove⟩ := tearing.not_within_later later
  refine ⟨fun within => notUnder ((Hierarchy.Within.refl.step child).trans within), ?_⟩
  intro within
  by_cases same : other = below
  · subst same
    exact notUnder (Hierarchy.Within.refl.step child)
  · obtain ⟨above, alsoChild, upper⟩ := within.parent same
    rw [Hierarchy.Child, child] at alsoChild
    cases alsoChild
    exact notAbove upper

/-- The first slot is given back, and its children go onto the work list. -/
theorem advance_split (formed : forest.Formed) (other : SlotIx) :
    forest.Within root other ↔ other ∈ one :: gone ∨
      ∃ top ∈ (forest.children (some one)).reverse ++ pending, forest.Within top other := by
  rw [tearing.split other]
  simp only [mem_cons, mem_append, mem_reverse, or_and_right, exists_or,
    exists_eq_left, formed.within_iff_children one]
  rw [or_assoc, or_left_comm, or_assoc]

theorem advance_apart (formed : forest.Formed) :
    ((forest.children (some one)).reverse ++ pending).Pairwise fun first second =>
      ¬forest.Within first second ∧ ¬forest.Within second first := by
  refine List.pairwise_append.mpr ⟨?_, (List.pairwise_cons.mp tearing.apart).2, ?_⟩
  · refine List.pairwise_reverse.mpr ((formed.children_apart (some one)).imp ?_)
    exact fun ⟨first, second⟩ => ⟨second, first⟩
  · intro below member other later
    exact tearing.child_apart ((formed.mem_children _ _).mp (mem_reverse.mp member)) later

theorem advance_left (formed : forest.Formed) :
    ∀ top ∈ (forest.children (some one)).reverse ++ pending, ∀ other ∈ one :: gone,
      ¬forest.Within top other := by
  intro top isTop other isGone
  rcases mem_append.mp isTop with below | later
  · have child := (formed.mem_children _ _).mp (mem_reverse.mp below)
    rcases mem_cons.mp isGone with rfl | before
    · exact formed.not_within_parent child
    · exact fun within => tearing.left one mem_cons_self other before
        ((Hierarchy.Within.refl.step child).trans within)
  · rcases mem_cons.mp isGone with rfl | before
    · exact (tearing.not_within_later later).2
    · exact tearing.left top (mem_cons_of_mem _ later) other before

end Tearing

/-- Where a place is not under the root, only the root goes from it. -/
theorem children_prune_eq_erase (formed : forest.Formed) {key : Option SlotIx}
    (outside : ∀ above ∈ key, ¬forest.Within root above) :
    (forest.prune root).children key = (forest.children key).erase root := by
  classical
  rw [(formed.nodup key).erase_eq_filter]
  refine filter_congr fun child member => ?_
  rw [Bool.eq_iff_iff, decide_eq_true_eq, bne_iff_ne]
  have atKey := (formed.mem_children _ _).mp member
  constructor
  · intro apart same
    exact apart (same ▸ .refl)
  · intro different within
    obtain ⟨above, child, upper⟩ := within.parent (Ne.symm different)
    rw [Hierarchy.Child, atKey] at child
    exact outside above (Option.some.inj child) upper

section Removing

variable (formed : forest.Formed)
  (isHeld : ∀ other, forest.Within root other → (start.held other).isSome)
  (vacant : ∀ other ∈ unused, ¬forest.Within root other)

include formed isHeld vacant

/-- One turn of the loop. -/
theorem Tearing.step (tearing : Tearing start forest root unused arena (one :: pending) gone)
    (removal : Removal) (chain : Chain arena.nexts (some one) (one :: pending)) :
    ∃ pushed cursor kind,
      pushChildren nodesMax arena (arena.slots one).next (arena.slots one).firstChild =
        some (pushed, cursor) ∧
      pushed.release one removal = (some kind, pushed.released one kind) ∧
      Chain (pushed.released one kind).nexts cursor
        ((forest.children (some one)).reverse ++ pending) ∧
      Tearing start forest root unused (pushed.released one kind)
        ((forest.children (some one)).reverse ++ pending) (one :: gone) := by
  obtain ⟨heldOne, chainOne⟩ := tearing.under one mem_cons_self one .refl
  have isChild : ∀ {below}, below ∈ forest.children (some one) ↔ forest.Child one below :=
    formed.mem_children _ _
  have offPending : ∀ below ∈ forest.children (some one), below ∉ pending :=
    fun below member later => (tearing.child_apart (isChild.mp member) later).1 .refl
  have enough : (forest.children (some one)).length ≤ nodesMax :=
    (formed.nodup (some one)).length_le_card.trans_eq (Fintype.card_fin nodesMax)
  obtain ⟨rest, isRest, tail⟩ := chain.eq_cons
  cases isRest
  obtain ⟨pushed, cursor, pushes, chained, stripped, parents, head, outside⟩ :=
    pushChildren_eq chainOne tail (formed.nodup (some one)) offPending enough
  obtain ⟨token, isToken⟩ := Option.isSome_iff_exists.mp (isHeld one (tearing.within_root .refl))
  have heldPushed : pushed.held one = some token := by
    rw [held_of_stripped stripped, heldOne, isToken]
  have sameSlot : ∀ {other}, other ∉ forest.children (some one) →
      pushed.slots other = arena.slots other :=
    fun {other} notChild => slots_eq_of_links stripped (congrFun parents other)
      (outside other notChild) (congrFun head (some other))
  -- Nothing outside the subtree, and nothing given back before, is a child of the slot.
  have notWithin : ∀ {other}, ¬forest.Within one other →
      other ≠ one ∧ other ∉ forest.children (some one) := by
    intro other notUnder
    refine ⟨fun same => notUnder (same ▸ .refl), fun member => notUnder ?_⟩
    exact Hierarchy.Within.refl.step (isChild.mp member)
  have sameAfter : ∀ {other}, ¬forest.Within one other →
      (pushed.released one token.kind).slots other = arena.slots other := by
    intro other notUnder
    obtain ⟨different, notChild⟩ := notWithin notUnder
    rw [slots_released_of_ne _ different, sameSlot notChild]
  have nextAfter : ∀ {other}, ¬forest.Within one other →
      (pushed.released one token.kind).nexts other = arena.nexts other :=
    fun notUnder => congrArg Slot.next (sameAfter notUnder)
  refine ⟨pushed, cursor, token.kind, pushes, release_eq heldPushed, ?_, ?_⟩
  · rw [nexts_released]
    refine chained.update_of_notMem ?_ _
    intro inside
    rcases mem_append.mp inside with below | later
    · exact formed.not_within_parent (isChild.mp (mem_reverse.mp below)) .refl
    · exact (tearing.not_within_later later).1 .refl
  constructor
  case split => exact tearing.advance_split formed
  case apart => exact tearing.advance_apart formed
  case left => exact tearing.advance_left formed
  case nodup => exact List.nodup_cons.mpr ⟨tearing.notMem_gone, tearing.nodup⟩
  case under =>
    intro top isTop other within
    have notOne : other ≠ one := by
      rintro rfl
      exact tearing.advance_left formed top isTop other mem_cons_self within
    have older : arena.held other = start.held other ∧
        Chain arena.nexts (arena.head (some other)) (forest.children (some other)) := by
      rcases mem_append.mp isTop with below | later
      · have child := isChild.mp (mem_reverse.mp below)
        exact tearing.under one mem_cons_self other
          ((Hierarchy.Within.refl.step child).trans within)
      · exact tearing.under top (mem_cons_of_mem _ later) other within
    have headed : (pushed.released one token.kind).head (some other) =
        arena.head (some other) := by
      rw [← congrFun head (some other)]
      exact congrArg Slot.firstChild (slots_released_of_ne _ notOne)
    refine ⟨?_, ?_⟩
    · rw [held_released, update_of_ne notOne, held_of_stripped stripped, older.1]
    rw [headed]
    refine older.2.congr fun below member => ?_
    have child := (formed.mem_children _ _).mp member
    have notFirst : below ≠ one := by
      rintro rfl
      exact tearing.advance_left formed top isTop below mem_cons_self (within.step child)
    have notSibling : below ∉ forest.children (some one) := by
      intro sibling
      have same := (isChild.mp sibling).symm.trans child
      exact notOne (Option.some.inj (Option.some.inj same)).symm
    rw [nexts_released, update_of_ne notFirst, outside below notSibling]
  case kept =>
    intro other outsideRoot
    rw [sameAfter fun within => outsideRoot (tearing.within_root within),
      tearing.kept other outsideRoot]
  case emptied =>
    intro other isGone
    rcases mem_cons.mp isGone with rfl | before
    · rw [nexts_released, update_self, slots_released_self]
    · have notUnder := tearing.left one mem_cons_self other before
      rw [nextAfter notUnder, sameAfter notUnder]
      exact tearing.emptied other before
  case freed =>
    have linked : (pushed.released one token.kind).nexts one = arena.free := by
      rw [nexts_released, update_self, free_of_stripped stripped]
    refine .cons ?_
    rw [linked]
    refine tearing.freed.congr fun other member => nextAfter ?_
    rcases mem_append.mp member with before | isUnused
    · exact tearing.left one mem_cons_self other before
    · exact fun within => vacant other isUnused (tearing.within_root within)
  case roots => exact (congrFun head none).trans tearing.roots
  case bumped => exact (bumped_of_stripped stripped).trans tearing.bumped
  case counted => exact (tearing.counted.of_stripped stripped).released heldPushed

/-- The loop ends, and gives back exactly the subtree. -/
theorem Tearing.tearDown (tearing : Tearing start forest root unused arena pending gone)
    (removal : Removal) (chain : Chain arena.nexts cursor pending)
    (enough : fuel + gone.length = nodesMax) :
    ∃ torn all, tearDown removal fuel arena cursor gone.length = some (all.length, torn) ∧
      Tearing start forest root unused torn [] all := by
  induction fuel generalizing arena pending gone cursor with
  | zero =>
    cases pending with
    | nil =>
      rw [show cursor = none from chain.head_eq]
      exact ⟨arena, gone, rfl, tearing⟩
    | cons one rest =>
      -- Every slot would have been given back, and one more.
      have nodup : (one :: gone).Nodup := List.nodup_cons.mpr ⟨tearing.notMem_gone, tearing.nodup⟩
      have bound := nodup.length_le_card
      rw [Fintype.card_fin, length_cons] at bound
      omega
  | succ fuel ih =>
    cases pending with
    | nil =>
      rw [show cursor = none from chain.head_eq]
      exact ⟨arena, gone, rfl, tearing⟩
    | cons one rest =>
      have isOne : cursor = some one := chain.head_eq
      rw [isOne] at chain ⊢
      obtain ⟨pushed, next, kind, pushes, releases, chainLater, later⟩ :=
        tearing.step formed isHeld vacant removal chain
      rw [Arena.tearDown, pushes]
      simp only [Option.bind_eq_bind, Option.bind_some, releases, Option.isSome_some, if_true]
      exact ih later chainLater (by rw [length_cons]; omega)

/-- What is left when the whole subtree was given back. -/
theorem Tearing.done (tearing : Tearing start forest root unused after [] gone)
    (well : arena.Well forest unused) (stocked : start.Stocked unused)
    (out : Relinked arena start root none forest.children fun key =>
      (forest.children key).erase root) :
    after.Well (forest.prune root) (gone ++ unused) := by
  have within : ∀ one, forest.Within root one ↔ one ∈ gone := by
    intro one
    rw [tearing.split]
    simp
  have heldStart : start.held = arena.held := held_of_stripped out.stripped
  have emptied : ∀ one, forest.Within root one → after.held one = none := by
    intro one isWithin
    rw [held, tearing.emptied one ((within one).mp isWithin)]
    rfl
  have kept : ∀ one, ¬forest.Within root one → after.held one = arena.held one := by
    intro one apart
    rw [held, tearing.kept one apart, ← heldStart]
    rfl
  constructor
  case woven =>
    refine ⟨fun one => ?_, fun key => ?_, formed.prune root⟩
    · by_cases isWithin : forest.Within root one
      · rw [Hierarchy.prune_parent_of_within isWithin, emptied one isWithin]
        rfl
      have different : one ≠ root := fun same => isWithin (same ▸ .refl)
      have parent : after.parents one = arena.parents one := by
        rw [parents, tearing.kept one isWithin]
        exact (congrFun out.parents one).trans (update_of_ne different ..)
      rw [Hierarchy.prune_parent_of_not_within isWithin, well.woven.hangs, kept one isWithin,
        parent]
    · by_cases under : ∃ above ∈ key, forest.Within root above
      · obtain ⟨above, isAbove, isWithin⟩ := under
        cases isAbove
        have none : (forest.prune root).children (some above) = [] := by
          refine (formed.prune root).children_of_not_holds ?_
          rw [Hierarchy.holds_prune]
          exact fun held => held.2 isWithin
        rw [none, head, tearing.emptied above ((within above).mp isWithin)]
        exact .nil
      · have outside : ∀ above ∈ key, ¬forest.Within root above :=
          fun above isAbove isWithin => under ⟨above, isAbove, isWithin⟩
        have headed : after.head key = start.head key := by
          cases key with
          | none => exact tearing.roots
          | some above => rw [head, head, tearing.kept above (outside above rfl)]
        rw [children_prune_eq_erase formed outside, headed]
        refine (out.strung.chains key).congr fun one member => ?_
        have apart : ¬forest.Within root one := by
          rw [← children_prune_eq_erase formed outside, Hierarchy.mem_children_prune] at member
          exact member.2
        rw [nexts, nexts, tearing.kept one apart]
  case stocked =>
    constructor
    case freed => exact tearing.freed
    case nodup =>
      refine List.nodup_append.mpr ⟨tearing.nodup, stocked.nodup, ?_⟩
      rintro one isGone other isUnused rfl
      exact vacant one isUnused ((within one).mpr isGone)
    case bound =>
      rw [tearing.bumped]
      exact stocked.bound
    case vacant =>
      intro one member
      rw [tearing.bumped]
      rcases mem_append.mp member with isGone | isUnused
      · have isWithin := (within one).mpr isGone
        refine ⟨emptied one isWithin, not_le.mp fun isNew => ?_⟩
        have isSome := isHeld one isWithin
        rw [held, stocked.never one isNew] at isSome
        cases isSome
      · obtain ⟨isVacant, below⟩ := stocked.vacant one isUnused
        rw [kept one (vacant one isUnused), ← heldStart]
        exact ⟨isVacant, below⟩
    case used =>
      intro one below
      rw [tearing.bumped] at below
      by_cases isWithin : forest.Within root one
      · exact .inr (mem_append_left _ ((within one).mp isWithin))
      · rw [kept one isWithin, ← heldStart]
        exact (stocked.used one below).imp_right (mem_append_right _)
    case never =>
      intro one isNew
      rw [tearing.bumped] at isNew
      have isEmpty := stocked.never one isNew
      rw [tearing.kept one fun isWithin => ?_, isEmpty]
      have isSome := isHeld one isWithin
      rw [held, isEmpty] at isSome
      cases isSome
  case counted => exact tearing.counted

end Removing

/-- Removing a node prunes the forest and gives back the slots of the subtree. -/
theorem Well.remove (well : arena.Well forest unused)
    (found : arena.find removal.root = some root) :
    ∃ torn gone, arena.remove removal = some (.ok gone.length, torn) ∧ gone.Nodup ∧
      (∀ one, one ∈ gone ↔ forest.Within root one) ∧
      torn.Well (forest.prune root) (gone ++ unused) ∧
      ∀ one, ¬forest.Within root one →
        torn.held one = arena.held one ∧ torn.drawn one = arena.drawn one := by
  have woven := well.woven
  have formed := woven.formed
  obtain ⟨token, isToken, -⟩ := held_of_find found
  have isHeld : (arena.held root).isSome := by
    rw [isToken]
    rfl
  have member : root ∈ forest.children (arena.slots root).parent :=
    (formed.mem_children _ _).mpr (woven.parent_of_held isHeld)
  obtain ⟨start, unlinks, unlinked, out⟩ := woven.strung.unlink member
  have heldStart : start.held = arena.held := held_of_stripped out.stripped
  have holds : ∀ one, forest.Within root one → (start.held one).isSome := by
    intro one isWithin
    rw [heldStart, ← woven.holds_iff]
    exact isWithin.holds (woven.holds_iff.mpr isHeld)
  have headless : ∀ one, arena.held one = none → start.head (some one) = none := by
    intro one vacant
    have chain := out.strung.chains (some one)
    rw [formed.children_of_not_holds (woven.not_holds vacant)] at chain
    exact chain.head_eq
  have stocked := well.stocked.relinked out isHeld (fun _ _ => woven.held_of_mem) headless
  have vacant : ∀ one ∈ unused, ¬forest.Within root one :=
    fun one isUnused isWithin => Option.isSome_iff_ne_none.mp (holds one isWithin)
      (stocked.vacant one isUnused).1
  have begin : Tearing start forest root unused start [root] [] := by
    refine ⟨by simp, pairwise_singleton _ _, by simp, nodup_nil, ?_, fun _ _ => rfl,
      by simp, stocked.freed, rfl, rfl, well.counted.of_stripped out.stripped⟩
    intro top isTop one isWithin
    rw [List.mem_singleton.mp isTop] at isWithin
    refine ⟨rfl, ?_⟩
    have chain := out.strung.chains (some one)
    rwa [erase_of_not_mem] at chain
    intro isRoot
    exact formed.not_within_parent ((formed.mem_children _ _).mp isRoot) isWithin
  have chain : Chain start.nexts (some root) [root] := by
    refine .cons ?_
    rw [unlinked]
    exact .nil
  have enough : nodesMax + ([] : List SlotIx).length = nodesMax := by rw [length_nil, Nat.add_zero]
  obtain ⟨torn, gone, tears, ended⟩ := begin.tearDown formed holds vacant removal chain enough
  have removes : arena.remove removal = some (.ok gone.length, torn) := by
    rw [length_nil] at tears
    simp only [Arena.remove, found, unlinks, Option.bind_eq_bind, Option.bind_some, tears]
    rfl
  have within : ∀ one, one ∈ gone ↔ forest.Within root one := by
    intro one
    rw [ended.split]
    simp
  refine ⟨torn, gone, removes, ended.nodup, within,
    ended.done formed holds vacant well stocked out, ?_⟩
  · intro one apart
    rw [← heldStart, ← drawn_of_stripped out.stripped, held, drawn, ended.kept one apart]
    exact ⟨rfl, rfl⟩

end FSystem.Scene.Arena
