import FSystem.Kernel.Handles
import FSystem.Library.Forest
import FSystem.Library.Marking

/-!
# Derivation trees and revocation

A capability table seen as a derivation forest over handles.  Every operation keeps
the forest well formed, and the slots a revocation condemns are exactly those that
hold something derived from the capability it was given.
-/

namespace FSystem.Kernel

open Abi

/-- What a slot's capability was derived from, and the rights it carries. -/
def Slot.entry (slot : Slot) : Forest.Entry Handle UInt8 :=
  ⟨if slot.parent = .null then none else some slot.parent, slot.rights⟩

namespace Table

/-- The handles that resolve, with what each one was derived from. -/
def forest (table : Table) : Forest Handle UInt8 := fun handle =>
  (table.slotAt handle.index).bind fun slot =>
    if handle.generation ≠ 0 ∧ slot.generation = handle.generation ∧ slot.occupied = true then
      some slot.entry
    else none

variable {table before after : Table}

theorem forest_eq_some_iff (table : Table) (handle : Handle) (entry : Forest.Entry Handle UInt8) :
    table.forest handle = some entry ↔ ∃ slot, table.Names handle slot ∧ entry = slot.entry := by
  unfold forest
  constructor
  · intro found
    obtain ⟨slot, present, here⟩ := Option.bind_eq_some_iff.1 found
    split_ifs at here with named
    exact ⟨slot, ⟨present, named.1, named.2.1, named.2.2⟩, (Option.some.inj here).symm⟩
  · rintro ⟨slot, names, rfl⟩
    rw [names.found]
    exact if_pos ⟨names.issuable, names.current, names.occupied⟩

variable {handle : Handle}

theorem forest_eq_none (unnamed : ∀ slot, ¬table.Names handle slot) :
    table.forest handle = none := by
  apply Option.eq_none_iff_forall_ne_some.2
  intro entry found
  obtain ⟨slot, names, _⟩ := (table.forest_eq_some_iff handle entry).1 found
  exact unnamed slot names

theorem Names.forest {slot : Slot} (names : table.Names handle slot) :
    table.forest handle = some slot.entry :=
  (table.forest_eq_some_iff handle _).2 ⟨slot, names, rfl⟩

/-- Two tables in which the same handles name slots of one entry have one forest. -/
theorem forest_eq
    (forth : ∀ handle slot, before.Names handle slot →
      ∃ other, after.Names handle other ∧ other.entry = slot.entry)
    (back : ∀ handle slot, after.Names handle slot → ∃ other, before.Names handle other) :
    after.forest = before.forest := by
  funext handle
  cases found : before.forest handle with
  | some entry =>
    obtain ⟨slot, names, rfl⟩ := (before.forest_eq_some_iff handle entry).1 found
    obtain ⟨other, named, same⟩ := forth handle slot names
    rw [named.forest, same]
  | none =>
    apply forest_eq_none
    intro slot names
    obtain ⟨other, named⟩ := back handle slot names
    rw [named.forest] at found
    cases found

theorem Notes.forest (notes : before.Notes after) : after.forest = before.forest := by
  obtain ⟨index, change, annotates, rewrites⟩ := notes
  have same : ∀ other slot, (if index = other then change slot else slot).entry = slot.entry ∧
      (if index = other then change slot else slot).generation = slot.generation ∧
      (if index = other then change slot else slot).occupied = slot.occupied := by
    intro other slot
    split_ifs
    · refine ⟨?_, annotates.generation slot, ?_⟩
      · unfold Slot.entry
        rw [annotates.parent, annotates.rights]
      · unfold Slot.occupied
        rw [annotates.kind]
    · exact ⟨rfl, rfl, rfl⟩
  apply forest_eq
  · intro handle slot names
    obtain ⟨entry, generation, occupied⟩ := same handle.index slot
    exact ⟨_, ⟨rewrites.after names.found, names.issuable, generation.trans names.current,
      occupied.trans names.occupied⟩, entry⟩
  · intro handle slot names
    obtain ⟨old, found, rfl⟩ := rewrites.before names.found
    obtain ⟨_, generation, occupied⟩ := same handle.index old
    exact ⟨old, found, names.issuable, generation.symm.trans names.current,
      occupied.symm.trans names.occupied⟩

theorem forest_withPage (room : before.grown < maxPages) :
    (before.withPage room).forest = before.forest := by
  apply forest_eq
  · intro handle slot names
    exact ⟨slot, { names with found := before.slotAt_withPage_of_some room names.found }, rfl⟩
  · intro handle slot names
    rcases before.slotAt_withPage room names.found with found | ⟨_, rfl⟩
    · exact ⟨slot, { names with found }⟩
    · cases names.occupied

theorem forest_charged (index : Nat) : (before.modify index Slot.charged).forest = before.forest :=
  (Notes.modify before annotates_charged index).forest

theorem Spends.forest (spends : before.Spends after) : after.forest = before.forest := by
  induction spends with
  | refl => rfl
  | withPage spends room ih => exact (forest_withPage room).trans ih
  | charged spends found untyped ih => exact (forest_charged _).trans ih

/-! ## Well-formed forests -/

/-- No parent link dangles, no right is invented and no derivation goes in a circle. -/
def Formed (table : Table) : Prop :=
  table.forest.WellFormed fun above below => Rights.narrows above below = true

/-! ## What a revocation condemns -/

/-- The marks on a table's slots. -/
def condemning : Marking Condemned Nat := ⟨Condemned.holds, Condemned.mark, Condemned.holds_mark⟩

/-- Whether a slot hangs below a handle or below a condemned slot, by its index. -/
def hangsAt (table : Table) (handle : Handle) (doomed : Condemned) (index : Nat) : Bool :=
  (table.slotAt index).any (table.hangs handle doomed)

/-- The descendants, as a closure. -/
theorem descendants_eq (table : Table) (handle : Handle) :
    table.descendants handle =
      condemning.close (table.hangsAt handle) (List.range table.capacity)
        (table.capacity + 1) .none := by
  unfold descendants
  generalize table.capacity + 1 = fuel
  generalize Condemned.none = doomed
  induction fuel generalizing doomed with
  | zero => rfl
  | succ fuel ih =>
    unfold descendantsLoop Marking.close
    dsimp only
    rw [ih]
    rfl

theorem hangs_eq_true_iff (handle : Handle) (doomed : Condemned) (slot : Slot) :
    table.hangs handle doomed slot = true ↔
      slot.occupied = true ∧ slot.parent.generation ≠ 0 ∧
        (slot.parent = handle ∨ doomed.holds slot.parent.index = true ∧
          ∃ above, table.slotAt slot.parent.index = some above ∧
            above.generation = slot.parent.generation) := by
  simp only [hangs, markedParent, Handle.isIssuable, Bool.and_eq_true, Bool.or_eq_true,
    decide_eq_true_eq, Option.any_eq_true, beq_iff_eq, and_assoc]

/-- What a child is: a slot whose capability names its parent. -/
theorem child_iff (parent child : Handle) :
    table.forest.Child parent child ↔
      ∃ slot, table.Names child slot ∧ slot.parent = parent ∧ parent ≠ .null := by
  constructor
  · rintro ⟨entry, found, link⟩
    obtain ⟨slot, names, rfl⟩ := (table.forest_eq_some_iff child entry).1 found
    unfold Slot.entry at link
    split_ifs at link with root
    obtain rfl := Option.some.inj link
    exact ⟨slot, names, rfl, root⟩
  · rintro ⟨slot, names, rfl, derived⟩
    exact ⟨slot.entry, names.forest, if_neg derived⟩

theorem below_names {handle child : Handle} (below : table.forest.Below handle child) :
    ∃ slot, table.Names child slot := by
  obtain ⟨_, _, step⟩ := Relation.TransGen.tail'_iff.1 below
  obtain ⟨slot, names, _⟩ := (child_iff _ child).1 step
  exact ⟨slot, names⟩

theorem ne_null_of_issuable (issuable : handle.generation ≠ 0) :
    handle ≠ .null := by
  rintro rfl
  exact issuable rfl

/-- Only what was derived from the handle is condemned: a mark is below the handle or a mark. -/
theorem Sound.below_of_descendants (sound : table.Sound) {index : Nat}
    (held : (table.descendants handle).holds index = true) :
    ∃ slot, table.slotAt index = some slot ∧
      table.forest.Below handle ⟨index, slot.generation⟩ := by
  rw [descendants_eq] at held
  refine condemning.close_sound (table.hangsAt handle)
    (fun place => ∃ slot, table.slotAt place = some slot ∧
      table.forest.Below handle ⟨place, slot.generation⟩)
    ?_ _ _ (fun place marked => ?_) index held
  · intro doomed inside place hangs
    obtain ⟨slot, found, hangs⟩ := (Option.any_eq_true ..).1 hangs
    obtain ⟨occupied, issuable, link⟩ := (hangs_eq_true_iff ..).1 hangs
    have names : table.Names ⟨place, slot.generation⟩ slot :=
      ⟨found, Nat.ne_of_gt (sound.slots place slot found).pos, rfl, occupied⟩
    have child : table.forest.Child slot.parent ⟨place, slot.generation⟩ :=
      (child_iff ..).2 ⟨slot, names, rfl, ne_null_of_issuable issuable⟩
    refine ⟨slot, found, ?_⟩
    rcases link with rfl | ⟨held, above, present, same⟩
    · exact .single child
    · obtain ⟨other, also, below⟩ := inside slot.parent.index held
      obtain rfl := Option.mem_unique present also
      rw [same] at below
      exact below.tail child
  · cases (Condemned.holds_none place).symm.trans marked

/-- Everything derived from a handle that resolves is condemned. -/
theorem descendants_of_below {handle child : Handle} {own : Slot} (named : table.Names handle own)
    (below : table.forest.Below handle child) :
    (table.descendants handle).holds child.index = true := by
  have closed : ∀ index, table.hangsAt handle (table.descendants handle) index = true →
      (table.descendants handle).holds index = true := by
    intro index hangs
    obtain ⟨slot, found, _⟩ := (Option.any_eq_true ..).1 hangs
    have fewer := condemning.unmarked_le_length (List.range table.capacity) Condemned.none
    rw [List.length_range] at fewer
    rw [descendants_eq] at hangs ⊢
    exact condemning.close_closed (table.hangsAt handle) _ (Nat.lt_succ_of_le fewer)
      (List.mem_range.2 (table.lt_capacity found)) hangs
  induction below with
  | @single child step =>
    obtain ⟨slot, names, link, _⟩ := (child_iff ..).1 step
    apply closed
    refine (Option.any_eq_true ..).2 ⟨slot, names.found, (hangs_eq_true_iff ..).2 ?_⟩
    exact ⟨names.occupied, link ▸ named.issuable, .inl link⟩
  | @tail middle child above step held =>
    obtain ⟨slot, names, rfl, _⟩ := (child_iff ..).1 step
    obtain ⟨upper, present⟩ := below_names above
    apply closed
    refine (Option.any_eq_true ..).2 ⟨slot, names.found, (hangs_eq_true_iff ..).2 ?_⟩
    exact ⟨names.occupied, present.issuable, .inr ⟨held, upper, present.found, present.current⟩⟩

/-- A sweep takes out of the forest what is in a condemned slot, and nothing else. -/
theorem forest_sweep (condemned : Condemned) (handle : Handle) :
    (condemned.holds handle.index = true → (before.sweep condemned).forest handle = none) ∧
      (condemned.holds handle.index = false →
        (before.sweep condemned).forest handle = before.forest handle) := by
  have rewrites := (before.sweep_rewrites condemned).2
  constructor
  · intro held
    apply forest_eq_none
    intro slot names
    obtain ⟨old, _, rfl⟩ := rewrites.before names.found
    have occupied := names.occupied
    rw [if_pos held] at occupied
    cases occupied
  · intro spared
    have same : (before.sweep condemned).slotAt handle.index = before.slotAt handle.index := by
      rw [rewrites.slotAt]
      simp [spared]
    unfold forest
    rw [same]

variable {condemned : Condemned}

theorem condemn_ok (condemns : table.condemn handle = .ok condemned) :
    condemned = table.descendants handle ∧ ∃ slot, table.Names handle slot := by
  unfold condemn at condemns
  split at condemns
  · cases condemns
  rename_i found invoked
  obtain ⟨slot, _, names, _⟩ := table.invokeAny_ok invoked
  exact ⟨(Except.ok.inj condemns).symm, slot, names⟩

theorem condemnOwn_ok (condemns : table.condemnOwn handle = .ok condemned) :
    condemned = (table.descendants handle).mark handle.index ∧ ∃ slot, table.Names handle slot := by
  unfold condemnOwn at condemns
  cases below : table.condemn handle with
  | error error =>
    rw [below] at condemns
    cases condemns
  | ok inner =>
    obtain ⟨rfl, slot, names⟩ := condemn_ok below
    simp only [below, names.resolve] at condemns
    exact ⟨(Except.ok.inj condemns).symm, slot, names⟩

theorem Sound.descendants_closed
    (sound : table.Sound)
    {own : Slot}
    (named : table.Names handle own)
    {parent child : Handle}
    (step : table.forest.Child parent child)
    (formed : table.Formed)
    (held : (table.descendants handle).holds parent.index = true) :
    (table.descendants handle).holds child.index = true := by
  obtain ⟨slot, found, below⟩ := sound.below_of_descendants held
  -- The parent link names the slot's present occupant, since no link dangles.
  obtain ⟨entry, there, link⟩ := step
  obtain ⟨above, present, _⟩ := formed.linked child entry parent there link
  obtain ⟨other, names, _⟩ := (forest_eq_some_iff ..).1 present
  obtain rfl := Option.mem_unique found names.found
  rw [names.current] at below
  exact descendants_of_below named (below.tail ⟨entry, there, link⟩)

/-- The end of a process leaves no derivation. -/
theorem Formed.clearAll (sound : before.Sound) : before.clearAll.Formed := by
  apply Forest.WellFormed.empty
  intro handle
  apply forest_eq_none
  intro slot names
  exact sound.ages_clearAll.2 handle.index ⟨slot, names.found, names.occupied⟩

section

variable (formed : before.Formed)
include formed

/-- Sweeping a set of slots that is closed under derivation keeps the forest well
formed. -/
theorem Formed.sweep
    (closed : ∀ parent child, before.forest.Child parent child →
      condemned.holds parent.index = true → condemned.holds child.index = true) :
    (before.sweep condemned).Formed := by
  refine Forest.WellFormed.prune formed (fun handle => condemned.holds handle.index = true)
    closed ?_ ?_
  · exact fun handle => (forest_sweep condemned handle).1
  · exact fun handle spared => (forest_sweep condemned handle).2 (Bool.eq_false_iff.2 spared)

theorem Formed.notes (notes : before.Notes after) : after.Formed := by
  unfold Formed
  rwa [notes.forest]

variable (sound : before.Sound)
include sound

/-- Placing a granted capability, or one derived from a handle that resolves. -/
theorem Formed.place
    {rights : UInt8}
    {parent : Handle}
    (below : parent = .null ∨
      ∃ slot, before.Names parent slot ∧ Rights.narrows slot.rights rights = true)
    (kind : CapType)
    (object extent : Nat) :
    (before.place kind rights object extent parent).2.Formed := by
  rcases before.place_cases kind rights object extent parent with
    ⟨_, refused⟩ | ⟨index, slot, found, empty, -, -, placed⟩
  · rw [refused]
    exact formed
  rw [placed]
  have filled := before.slotAt_modify_self found
    (Slot.filled before.postsNotices kind rights object extent parent)
  have here : ∀ handle : Handle, handle.index = index → ∀ other, ¬before.Names handle other := by
    rintro handle rfl other names
    rw [← Option.mem_unique found names.found] at names
    rw [names.occupied] at empty
    cases empty
  refine Forest.WellFormed.add formed
    (forest_eq_none (here ⟨index, slot.generation⟩ rfl)) ?_ (Names.forest ⟨filled, ?_, rfl, rfl⟩) ?_
  · intro above link
    rcases below with rfl | ⟨other, names, narrow⟩
    · cases link
    · have unequal : parent ≠ .null := by
        rintro rfl
        exact names.issuable rfl
      obtain rfl : parent = above := Option.some.inj ((if_neg unequal).symm.trans link)
      exact ⟨other.entry, names.forest, narrow⟩
  · exact Nat.ne_of_gt (sound.slots index slot found).pos
  · intro handle different
    by_cases same : handle.index = index
    · rw [forest_eq_none (here handle same), forest_eq_none]
      intro other names
      rcases before.slotAt_modify_cases names.found with ⟨old, -, held, rfl⟩ | ⟨away, -⟩
      · rw [same] at held
        obtain rfl := Option.mem_unique found held
        exact different (Handle.ext same names.current.symm)
      · exact away same.symm
    · unfold Table.forest
      rw [slotAt_modify_of_ne before (Ne.symm same)]

/-- Deriving keeps the forest formed. -/
theorem Formed.derive (handle : Handle) (asked : UInt8) (backing : Backing) :
    (before.derive handle asked backing).2.Formed := by
  obtain ⟨spent, spends, outcome⟩ := before.derive_spends handle asked backing
  have kept : spent.Formed := by
    unfold Formed
    rwa [spends.forest]
  rcases outcome with ⟨error, refused⟩ | ⟨slot, _, _, _, names, narrow, placed⟩
  · rw [refused]
    exact kept
  rw [placed]
  refine kept.place (sound.ages_spends spends).sound (.inr ?_) _ _ _
  -- Spending leaves the forest alone, so the parent is still there with the rights that
  -- were checked.
  have kept := names.forest
  rw [← spends.forest] at kept
  obtain ⟨other, named, same⟩ := (forest_eq_some_iff ..).1 kept
  refine ⟨other, named, ?_⟩
  have rights : slot.rights = other.rights := congrArg Forest.Entry.rights same
  rwa [← rights]

/-- Revoking keeps it formed. -/
theorem Formed.revoke (handle : Handle) : (before.revoke handle).2.Formed := by
  rcases before.revoke_cases handle with ⟨_, refused⟩ | ⟨condemned, condemns, swept⟩
  · rw [refused]
    exact formed
  · rw [swept]
    obtain ⟨rfl, slot, names⟩ := condemn_ok condemns
    exact formed.sweep fun parent child step held => sound.descendants_closed names step formed held

/-- Relinquishing keeps it formed. -/
theorem Formed.relinquish (handle : Handle) : (before.relinquish handle).2.Formed := by
  rcases before.relinquish_cases handle with ⟨_, refused⟩ | ⟨condemned, condemns, swept⟩
  · rw [refused]
    exact formed
  rw [swept]
  obtain ⟨rfl, slot, names⟩ := condemnOwn_ok condemns
  refine formed.sweep fun parent child step held => ?_
  refine (Condemned.holds_mark ..).2 (.inr ?_)
  rcases (Condemned.holds_mark ..).1 held with own | held
  · -- A child of the slot's occupant is a child of the handle itself.
    obtain ⟨entry, there, link⟩ := step
    obtain ⟨above, present, _⟩ := formed.linked child entry parent there link
    obtain ⟨other, named, _⟩ := (forest_eq_some_iff ..).1 present
    have same : parent = handle := by
      ext
      · exact own
      · have found := named.found
        rw [own, names.found] at found
        rw [← named.current, ← Option.some.inj found, names.current]
    exact descendants_of_below names (.single (same ▸ ⟨entry, there, link⟩))
  · exact sound.descendants_closed names step formed held

/-- Every operation keeps the forest well formed. -/
theorem Formed.apply (operation : Operation) : (before.apply operation).2.Formed := by
  cases operation with
  | grant kind rights object extent => exact formed.place sound (.inl rfl) kind object extent
  | derive handle asked backing => exact formed.derive sound handle asked backing
  | grow backing =>
    unfold Formed
    rwa [show (before.apply (.grow backing)).2.forest = before.forest from
      (before.grow_spends backing).forest]
  | revoke handle => exact formed.revoke sound handle
  | relinquish handle => exact formed.relinquish sound handle
  | refund handle bytes floor => exact formed.notes (before.refund_notes handle bytes floor)
  | noteMapping handle virt => exact formed.notes (before.noteMapping_remarks handle virt).notes
  | owesNotices => exact formed.notes before.owesNotices_remarks.notes
  | notePeerGone handle => exact formed.notes (before.notePeerGone_remarks handle).notes
  | nextSlotNotice => exact formed.notes before.nextSlotNotice_remarks.notes
  | clearAll => exact Formed.clearAll sound

/-- A revocation empties exactly the slots derived from its handle, not its own. -/
theorem Formed.revoke_exact {count : Nat} (revoked : before.revoke handle = (.ok count, after)) :
    ¬before.forest.Below handle handle ∧ after.capacity = before.capacity ∧
      ∀ index slot, before.slotAt index = some slot →
        (before.forest.Below handle ⟨index, slot.generation⟩ →
          after.slotAt index = some (slot.cleared before.postsNotices)) ∧
        (¬before.forest.Below handle ⟨index, slot.generation⟩ →
          after.slotAt index = some slot) := by
  rcases before.revoke_cases handle with ⟨_, refused⟩ | ⟨condemned, condemns, swept⟩
  · rw [refused] at revoked
    cases revoked
  rw [swept] at revoked
  obtain rfl : before.sweep condemned = after := congrArg Prod.snd revoked
  obtain ⟨rfl, own, names⟩ := condemn_ok condemns
  have rewrites := (before.sweep_rewrites (before.descendants handle)).2
  refine ⟨(formed.rooted handle _ names.forest).not_below_self, rewrites.capacity,
    fun index slot found => ⟨fun below => ?_, fun apart => ?_⟩⟩
  · rw [rewrites.after found, if_pos (descendants_of_below names below)]
  · rw [rewrites.after found, if_neg]
    intro held
    obtain ⟨other, present, below⟩ := sound.below_of_descendants held
    obtain rfl := Option.mem_unique found present
    exact apart below

end

theorem empty_formed : empty.Formed := by
  apply Forest.WellFormed.empty
  intro handle
  apply forest_eq_none
  intro slot names
  have occupied := names.occupied
  rw [List.eq_of_mem_replicate (List.mem_of_getElem? names.found)] at occupied
  cases occupied

/-- The run lemma. -/
theorem run_formed (operations : List Operation) :
    (empty.run operations).Sound ∧ (empty.run operations).Formed := by
  suffices run : ∀ table : Table, table.Sound → table.Formed →
      (table.run operations).Sound ∧ (table.run operations).Formed from
    run empty empty_sound empty_formed
  induction operations with
  | nil => exact fun table sound formed => ⟨sound, formed⟩
  | cons operation rest ih =>
    intro table sound formed
    exact ih _ (sound.apply_moves operation).sound (formed.apply sound operation)

/-- After every run of operations: each occupied slot's parent is null or resolves and
carries at least the slot's rights, following parents ends at a granted capability, and
a revocation empties exactly what was derived from the capability it was given. -/
theorem derivation_and_revocation_exact (operations : List Operation) :
    (∀ index slot, (empty.run operations).slotAt index = some slot → slot.occupied = true →
      (slot.parent = .null ∨
        (empty.run operations).resolve slot.parent = .ok slot.parent.index ∧
          ∃ above, (empty.run operations).slotAt slot.parent.index = some above ∧
            Rights.narrows above.rights slot.rights = true) ∧
      (empty.run operations).forest.Rooted ⟨index, slot.generation⟩) ∧
    ∀ handle count after, (empty.run operations).revoke handle = (.ok count, after) →
      ¬(empty.run operations).forest.Below handle handle ∧
      after.capacity = (empty.run operations).capacity ∧
      ∀ index slot, (empty.run operations).slotAt index = some slot →
        ((empty.run operations).forest.Below handle ⟨index, slot.generation⟩ →
          after.slotAt index = some (slot.cleared (empty.run operations).postsNotices)) ∧
        (¬(empty.run operations).forest.Below handle ⟨index, slot.generation⟩ →
          after.slotAt index = some slot) := by
  obtain ⟨sound, formed⟩ := run_formed operations
  generalize empty.run operations = table at sound formed
  refine ⟨fun index slot found occupied => ?_, fun handle count after revoked =>
    formed.revoke_exact sound revoked⟩
  have names : table.Names ⟨index, slot.generation⟩ slot :=
    ⟨found, Nat.ne_of_gt (sound.slots index slot found).pos, rfl, occupied⟩
  refine ⟨?_, formed.rooted _ _ names.forest⟩
  by_cases root : slot.parent = .null
  · exact .inl root
  · obtain ⟨entry, present, narrow⟩ :=
      formed.linked _ _ slot.parent names.forest (if_neg root)
    obtain ⟨above, named, rfl⟩ := (forest_eq_some_iff ..).1 present
    exact .inr ⟨named.resolve, above, named.found, narrow⟩

end Table

end FSystem.Kernel
