import FSystem.Kernel.TableLaws
import FSystem.Library.Generations

/-!
# Revoked handles stay dead

A capability table seen as an arena of places with generations.  A slot that does not
exist stands at the table's floor, which is what carries a dropped page's past over to
the page that is bought in its place.
-/

namespace FSystem.Kernel

open Abi

/-! ## Generations in range -/

/-- A slot's generation is in range, and an occupied slot is not retired. -/
structure Slot.Sound (slot : Slot) : Prop where
  pos : 0 < slot.generation
  le : slot.generation ≤ Handle.retiredGeneration
  live : slot.occupied = true → slot.generation < Handle.retiredGeneration

/-- One slot ages: its occupant stays, or it moves on. -/
structure Slot.Ages (old new : Slot) : Prop where
  grows : old.generation ≤ new.generation
  keeps : old.occupied = true → new.occupied = true ∨ old.generation < new.generation
  invents : new.occupied = true → old.occupied = true ∧ new.generation = old.generation
  le : new.generation ≤ Handle.retiredGeneration

namespace Slot

theorem Ages.sound {old new : Slot} (ages : old.Ages new) (sound : old.Sound) : new.Sound where
  pos := sound.pos.trans_le ages.grows
  le := ages.le
  live occupied := by
    obtain ⟨held, same⟩ := ages.invents occupied
    rw [same]
    exact sound.live held

/-- A slot whose occupant and generation are the same has aged. -/
theorem Ages.same {old new : Slot} (sound : old.Sound)
    (generation : new.generation = old.generation) (occupied : new.occupied = old.occupied) :
    old.Ages new where
  grows := generation.ge
  keeps held := .inl (occupied.trans held)
  invents held := ⟨occupied ▸ held, generation⟩
  le := generation.trans_le sound.le

theorem Sound.ages_refl {slot : Slot} (sound : slot.Sound) : slot.Ages slot :=
  .same sound rfl rfl

/-- An emptied slot moves on, unless it was empty and retired already. -/
theorem Sound.ages_cleared {slot : Slot} (sound : slot.Sound) (owes : Bool) :
    slot.Ages (slot.cleared owes) where
  grows := Nat.le_min.2 ⟨Nat.le_succ _, sound.le⟩
  keeps occupied := .inr (Nat.lt_min.2 ⟨Nat.lt_succ_self _, sound.live occupied⟩)
  invents occupied := by cases occupied
  le := Nat.min_le_right _ _

theorem charged_generation (slot : Slot) : slot.charged.generation = slot.generation := by
  unfold charged
  split <;> rfl

theorem charged_kind (slot : Slot) : slot.charged.kind = slot.kind := by
  unfold charged
  split <;> rfl

theorem Sound.ages_charged {slot : Slot} (sound : slot.Sound) : slot.Ages slot.charged :=
  .same sound slot.charged_generation (by unfold occupied; rw [charged_kind])

theorem Sound.fresh {floor : Nat} (pos : 0 < floor) (le : floor ≤ Handle.retiredGeneration) :
    (Slot.fresh floor).Sound :=
  ⟨pos, le, fun occupied => by cases occupied⟩

end Slot

namespace Table

/-- Every slot is sound, and so is the floor fresh slots start at. -/
structure Sound (table : Table) : Prop where
  floor_pos : 0 < table.floor
  floor_le : table.floor ≤ Handle.retiredGeneration
  slots : ∀ index slot, table.slotAt index = some slot → slot.Sound

/-- The table as an arena: a slot that does not exist stands at the floor. -/
def arena (table : Table) : Generations.Arena Nat where
  generation index := (table.slotAt index).elim table.floor Slot.generation
  occupied index := ∃ slot, table.slotAt index = some slot ∧ slot.occupied = true

variable {index : Nat}

theorem generation_of_some {table : Table} {slot : Slot}
    (found : table.slotAt index = some slot) : table.arena.generation index = slot.generation := by
  simp [arena, found, Option.elim_some]

theorem generation_of_none {table : Table} (absent : table.slotAt index = none) :
    table.arena.generation index = table.floor := by
  simp [arena, absent, Option.elim_none]

/-- A table ages and stays sound. -/
structure Ages (before after : Table) : Prop where
  sound : after.Sound
  arena : before.arena.Ages after.arena

/-- One handle is issued out of a vacant slot. -/
structure Issues (before after : Table) (handle : Handle) : Prop where
  sound : after.Sound
  arena : before.arena.Issues after.arena (handle.index, handle.generation)

variable {before after : Table}

theorem Sound.ages_refl (sound : before.Sound) : before.Ages before :=
  ⟨sound, .refl _⟩

theorem Ages.trans {last : Table} (early : before.Ages after) (late : after.Ages last) :
    before.Ages last :=
  ⟨late.sound, early.arena.trans late.arena⟩

section

variable (sound : before.Sound)

include sound

/-- Rewriting every slot into one it ages to ages the table. -/
theorem Rewrites.ages {change : Nat → Slot → Slot} (rewrites : before.Rewrites after change)
    (each : ∀ index slot, before.slotAt index = some slot → slot.Ages (change index slot)) :
    before.Ages after where
  sound := by
    refine ⟨rewrites.floor ▸ sound.floor_pos, rewrites.floor ▸ sound.floor_le,
      fun index slot found => ?_⟩
    obtain ⟨old, held, rfl⟩ := rewrites.before found
    exact (each index old held).sound (sound.slots index old held)
  arena :=
    { grows := fun index => by
        cases found : before.slotAt index with
        | none =>
          have absent : after.slotAt index = none := by rw [rewrites.slotAt, found]; rfl
          rw [generation_of_none found, generation_of_none absent]
          exact rewrites.floor.ge
        | some slot =>
          rw [generation_of_some found, generation_of_some (rewrites.after found)]
          exact (each index slot found).grows
      keeps := fun index ⟨slot, found, occupied⟩ => by
        rcases (each index slot found).keeps occupied with stays | moves
        · exact .inl ⟨_, rewrites.after found, stays⟩
        · refine .inr ?_
          rw [generation_of_some found, generation_of_some (rewrites.after found)]
          exact moves
      invents := fun index ⟨slot, found, occupied⟩ => by
        obtain ⟨old, earlier, rfl⟩ := rewrites.before found
        obtain ⟨held, same⟩ := (each index old earlier).invents occupied
        refine ⟨⟨old, earlier, held⟩, ?_⟩
        rw [generation_of_some earlier, generation_of_some found]
        exact same }

/-- Rewriting one slot into one it ages to ages the table. -/
theorem Sound.ages_modify {change : Slot → Slot}
    (each : ∀ slot, before.slotAt index = some slot → slot.Ages (change slot)) :
    before.Ages (before.modify index change) := by
  refine (Rewrites.modify before index change).ages sound fun other slot found => ?_
  split_ifs with here
  · subst here
    exact each slot found
  · exact (sound.slots other slot found).ages_refl

/-- A bought page stands at the generations its slots had when they did not exist. -/
theorem Sound.ages_withPage (room : before.grown < maxPages) :
    before.Ages (before.withPage room) where
  sound := by
    refine ⟨sound.floor_pos, sound.floor_le, fun index slot found => ?_⟩
    rcases before.slotAt_withPage room found with found | ⟨_, rfl⟩
    · exact sound.slots index slot found
    · exact .fresh sound.floor_pos sound.floor_le
  arena := by
    have same : ∀ index, (before.withPage room).arena.generation index =
        before.arena.generation index := by
      intro index
      cases found : before.slotAt index with
      | some slot =>
        rw [generation_of_some found,
          generation_of_some (before.slotAt_withPage_of_some room found)]
      | none =>
        rw [generation_of_none found]
        cases bought : (before.withPage room).slotAt index with
        | none => exact generation_of_none bought
        | some slot =>
          rw [generation_of_some bought]
          rcases before.slotAt_withPage room bought with held | ⟨_, rfl⟩
          · rw [found] at held
            cases held
          · rfl
    refine ⟨fun index => (same index).ge, fun index ⟨slot, found, occupied⟩ => ?_,
      fun index ⟨slot, found, occupied⟩ => ⟨?_, same index⟩⟩
    · exact .inl ⟨slot, before.slotAt_withPage_of_some room found, occupied⟩
    · rcases before.slotAt_withPage room found with found | ⟨_, rfl⟩
      · exact ⟨slot, found, occupied⟩
      · cases occupied

/-- Ending a process empties every slot, and the floor passes every bought one. -/
theorem Sound.ages_clearAll :
    before.Ages before.clearAll ∧ ∀ index, ¬before.clearAll.arena.occupied index := by
  have emptied : before.Ages before.emptied :=
    before.emptied_rewrites.ages sound fun index slot found => by
      split_ifs with occupied
      · exact (sound.slots index slot found).ages_cleared _
      · exact (sound.slots index slot found).ages_refl
  have vacant : ∀ index slot, before.emptied.slotAt index = some slot →
      slot.occupied = false := by
    intro index slot found
    obtain ⟨old, -, rfl⟩ := before.emptied_rewrites.before found
    by_cases occupied : old.occupied = true
    · rw [if_pos occupied]
      rfl
    · rw [if_neg occupied]
      exact Bool.eq_false_iff.2 occupied
  rw [clearAll_eq]
  generalize before.emptied = cleared at emptied vacant ⊢
  have floor := cleared.reached_le_iff.1 le_rfl
  have none : ∀ index, ¬(cleared.withoutPages cleared.reached).arena.occupied index := by
    rintro index ⟨slot, found, occupied⟩
    rw [slotAt_withoutPages] at found
    split_ifs at found
    obtain ⟨old, held, rfl⟩ := Option.map_eq_some_iff.1 found
    exact absurd occupied (by rw [Bool.not_eq_true]; exact vacant index old held)
  refine ⟨emptied.trans ⟨⟨?_, ?_, ?_⟩, ⟨fun index => ?_, fun index ⟨slot, found, occupied⟩ => ?_,
    fun index occupied => absurd occupied (none index)⟩⟩, none⟩
  · exact emptied.sound.floor_pos.trans_le floor.1
  · exact cleared.reached_le_iff.2 ⟨emptied.sound.floor_le,
      fun index slot _ found => (emptied.sound.slots index slot found).le⟩
  · intro index slot found
    rw [slotAt_withoutPages] at found
    split_ifs at found
    obtain ⟨old, held, rfl⟩ := Option.map_eq_some_iff.1 found
    have old := emptied.sound.slots index old held
    exact { old with }
  · -- A free slot keeps its generation, and the floor stands for a bought one.
    by_cases free : index < tableSlots
    · obtain ⟨slot, found⟩ := cleared.exists_slotAt
        (free.trans_le cleared.tableSlots_le_capacity)
      have kept : (cleared.withoutPages cleared.reached).slotAt index =
          some { slot with notice := .quiet } := by
        rw [slotAt_withoutPages, if_pos free, found]
        rfl
      rw [generation_of_some found, generation_of_some kept]
    · have absent : (cleared.withoutPages cleared.reached).slotAt index = .none := by
        rw [slotAt_withoutPages, if_neg free]
      rw [generation_of_none absent]
      cases found : cleared.slotAt index with
      | none =>
        rw [generation_of_none found]
        exact floor.1
      | some slot =>
        rw [generation_of_some found]
        exact floor.2 index slot (Nat.le_of_not_lt free) found
  · exact absurd occupied (by rw [Bool.not_eq_true]; exact vacant index slot found)

/-- A sweep ages the slots. -/
theorem Sound.ages_sweep (condemned : Condemned) : before.Ages (before.sweep condemned) :=
  (before.sweep_rewrites condemned).2.ages sound fun index slot found => by
    split_ifs
    · exact (sound.slots index slot found).ages_cleared _
    · exact (sound.slots index slot found).ages_refl

end

/-- What is swept is free. -/
theorem not_occupied_sweep {condemned : Condemned}
    (held : condemned.holds index = true) : ¬(before.sweep condemned).arena.occupied index := by
  rintro ⟨slot, found, occupied⟩
  obtain ⟨old, _, rfl⟩ := (before.sweep_rewrites condemned).2.before found
  rw [if_pos held] at occupied
  cases occupied

/-- Ageing that may end with one handle being issued. -/
def Moves (before : Table) : Option Handle → Table → Prop
  | none, after => before.Ages after
  | some handle, after => ∃ middle, before.Ages middle ∧ middle.Issues after handle

theorem Ages.moves {last : Table} {issued : Option Handle} (ages : before.Ages after)
    (moves : after.Moves issued last) : before.Moves issued last := by
  cases issued with
  | none => exact ages.trans moves
  | some handle =>
    obtain ⟨middle, aged, issues⟩ := moves
    exact ⟨middle, ages.trans aged, issues⟩

section

variable (sound : before.Sound) (handle : Handle)

include sound

/-- Placing issues a fresh name. -/
theorem Sound.place_moves (kind : CapType) (rights : UInt8) (object extent : Nat)
    (parent : Handle) :
    before.Moves (before.place kind rights object extent parent).1.toOption
      (before.place kind rights object extent parent).2 := by
  rcases before.place_cases kind rights object extent parent with
    ⟨_, refused⟩ | ⟨index, slot, found, empty, unretired, -, placed⟩
  · rw [refused]
    exact sound.ages_refl
  rw [placed]
  have old := sound.slots index slot found
  have rewrites := Rewrites.modify before index
    (Slot.filled before.postsNotices kind rights object extent parent)
  have same : ∀ other, (before.modify index
      (Slot.filled before.postsNotices kind rights object extent parent)).arena.generation other =
      before.arena.generation other := by
    intro other
    cases held : before.slotAt other with
    | none =>
      have absent := rewrites.slotAt other
      rw [held] at absent
      rw [generation_of_none held, generation_of_none absent, floor_modify]
    | some slot =>
      rw [generation_of_some held, generation_of_some (rewrites.after held)]
      split_ifs <;> rfl
  refine ⟨before, sound.ages_refl, ⟨⟨sound.floor_pos, sound.floor_le, fun other new present => ?_⟩,
    ⟨?_, generation_of_some found, same, fun other => ⟨?_, ?_⟩⟩⟩⟩
  · rcases before.slotAt_modify_cases present with ⟨earlier, rfl, held, rfl⟩ | ⟨-, held⟩
    · obtain rfl := Option.mem_unique found held
      exact ⟨old.pos, old.le, fun _ => Nat.lt_of_le_of_ne old.le unretired⟩
    · exact sound.slots other new held
  · rintro ⟨other, held, occupied⟩
    obtain rfl := Option.mem_unique found held
    rw [empty] at occupied
    cases occupied
  · rintro ⟨new, present, occupied⟩
    rcases before.slotAt_modify_cases present with ⟨-, here, -⟩ | ⟨-, held⟩
    · exact .inr here.symm
    · exact .inl ⟨new, held, occupied⟩
  · rintro (⟨earlier, held, occupied⟩ | rfl)
    · refine ⟨_, rewrites.after held, ?_⟩
      split_ifs
      · rfl
      · exact occupied
    · refine ⟨_, rewrites.after found, ?_⟩
      rw [if_pos rfl]
      rfl

theorem Sound.ages_spends (spends : before.Spends after) : before.Ages after := by
  induction spends with
  | refl => exact sound.ages_refl
  | withPage spends room ih => exact ih.trans (ih.sound.ages_withPage room)
  | charged spends found untyped ih =>
    exact ih.trans (ih.sound.ages_modify fun slot found =>
      (ih.sound.slots _ slot found).ages_charged)

/-- Deriving issues a fresh name. -/
theorem Sound.derive_moves (asked : UInt8) (backing : Backing) :
    before.Moves (before.derive handle asked backing).1.toOption
      (before.derive handle asked backing).2 := by
  obtain ⟨spent, spends, outcome⟩ := before.derive_spends handle asked backing
  have ages := sound.ages_spends spends
  rcases outcome with ⟨error, refused⟩ | ⟨_, _, _, _, _, _, placed⟩
  · rw [refused]
    exact ages
  · rw [placed]
    exact ages.moves (ages.sound.place_moves ..)

theorem Sound.ages_notes (notes : before.Notes after) : before.Ages after := by
  obtain ⟨index, change, annotates, rewrites⟩ := notes
  refine rewrites.ages sound fun other slot found => ?_
  have old := sound.slots other slot found
  split_ifs
  · exact .same old (annotates.generation slot) (by unfold Slot.occupied; rw [annotates.kind])
  · exact old.ages_refl

/-- Every operation ages the table, and may end by issuing one handle. -/
theorem Sound.apply_moves (operation : Operation) :
    before.Moves (before.apply operation).1 (before.apply operation).2 := by
  cases operation with
  | grant kind rights object extent => exact sound.place_moves kind rights object extent .null
  | derive handle asked backing => exact sound.derive_moves handle asked backing
  | grow backing => exact sound.ages_spends (before.grow_spends backing)
  | revoke handle => exact (before.revoke_induct handle sound.ages_refl sound.ages_sweep).1
  | relinquish handle =>
    exact (before.revoke_induct handle sound.ages_refl sound.ages_sweep).2
  | refund handle bytes floor => exact sound.ages_notes (before.refund_notes handle bytes floor)
  | noteMapping handle virt => exact sound.ages_notes (before.noteMapping_remarks handle virt).notes
  | owesNotices => exact sound.ages_notes before.owesNotices_remarks.notes
  | notePeerGone handle => exact sound.ages_notes (before.notePeerGone_remarks handle).notes
  | nextSlotNotice => exact sound.ages_notes before.nextSlotNotice_remarks.notes
  | clearAll => exact sound.ages_clearAll.1

end

section

variable {issued : Option Handle} (moves : before.Moves issued after)

include moves

theorem Moves.sound : after.Sound := by
  cases issued with
  | none => exact Ages.sound moves
  | some handle =>
    obtain ⟨_, _, issues⟩ := moves
    exact issues.sound

/-- What is dead stays dead. -/
theorem Moves.dead {name : Nat × Nat} (dead : before.arena.Dead name) : after.arena.Dead name := by
  cases issued with
  | none => exact (Ages.arena moves).dead dead
  | some handle =>
    obtain ⟨_, ages, issues⟩ := moves
    exact issues.arena.dead (ages.arena.dead dead)

/-- What is live stays live or dies. -/
theorem Moves.live_or_dead {name : Nat × Nat} (live : before.arena.Live name) :
    after.arena.Live name ∨ after.arena.Dead name := by
  cases issued with
  | none => exact (Ages.arena moves).live_or_dead live
  | some handle =>
    obtain ⟨_, ages, issues⟩ := moves
    exact (ages.arena.live_or_dead live).imp issues.arena.live issues.arena.dead

end

theorem empty_sound : empty.Sound where
  floor_pos := by decide
  floor_le := by decide
  slots index slot found := by
    have member := List.mem_of_getElem? found
    rw [List.eq_of_mem_replicate member]
    exact .fresh (by decide) (by decide)

/-- The name a handle is in the arena. -/
def nameOf (handle : Handle) : Nat × Nat := (handle.index, handle.generation)

/-- In a sound table a handle resolves exactly when its name is live. -/
theorem Sound.resolve_ok_iff_live (sound : before.Sound) (handle : Handle) :
    (before.resolve handle).isOk = true ↔ before.arena.Live (nameOf handle) := by
  rw [resolve_ok_iff]
  constructor
  · rintro ⟨slot, names⟩
    exact ⟨⟨slot, names.found, names.occupied⟩,
      (generation_of_some names.found).trans names.current⟩
  rintro ⟨⟨slot, found, occupied⟩, same⟩
  have current : slot.generation = handle.generation := (generation_of_some found).symm.trans same
  refine ⟨slot, found, ?_, current, occupied⟩
  rw [← current]
  exact Nat.ne_of_gt (sound.slots handle.index slot found).pos

end Table

/-! ## Histories -/

/-- An operation on a table, or a sweep of slots condemned at some earlier time. -/
inductive Event
  | operation (operation : Table.Operation)
  | sweep (condemned : Condemned)

/-- The slots an event empties. -/
def Event.Clears (table : Table) : Event → Nat → Prop
  | .sweep condemned, index => condemned.holds index = true
  | .operation (.revoke handle), index =>
    ∃ condemned, table.condemn handle = .ok condemned ∧ condemned.holds index = true
  | .operation (.relinquish handle), index =>
    ∃ condemned, table.condemnOwn handle = .ok condemned ∧ condemned.holds index = true
  | .operation .clearAll, _ => True
  | .operation _, _ => False

/-- A table, and every handle it issued, the latest first. -/
structure History where
  table : Table
  issued : List Handle

namespace History

/-- An empty table that has issued nothing. -/
def start : History := ⟨.empty, []⟩

/-- The history after one more event. -/
def next (history : History) : Event → History
  | .operation operation =>
    let result := history.table.apply operation
    ⟨result.2, result.1.toList ++ history.issued⟩
  | .sweep condemned => { history with table := history.table.sweep condemned }

/-- The history after some more events. -/
def run (history : History) (events : List Event) : History := events.foldl next history

/-- The table is sound, and every issued handle is live or dead, and issued once. -/
structure Settled (history : History) : Prop where
  sound : history.table.Sound
  accounts : history.table.arena.Accounts (history.issued.map Table.nameOf)

variable {history : History}

theorem start_settled : start.Settled :=
  ⟨Table.empty_sound, .empty _⟩

section

variable (settled : history.Settled) (event : Event)

include settled

/-- The step lemma. -/
theorem Settled.next : (history.next event).Settled := by
  cases event with
  | sweep condemned =>
    have ages := settled.sound.ages_sweep condemned
    exact ⟨ages.sound, settled.accounts.ages ages.arena⟩
  | operation operation =>
    have moves := settled.sound.apply_moves operation
    refine ⟨moves.sound, ?_⟩
    unfold History.next
    dsimp only
    generalize history.table.apply operation = result at moves
    obtain ⟨issued, after⟩ := result
    cases issued with
    | none => exact settled.accounts.ages (Table.Ages.arena moves)
    | some handle =>
      obtain ⟨middle, ages, issues⟩ := moves
      exact (settled.accounts.ages ages.arena).issues issues.arena

/-- The run lemma. -/
theorem Settled.run (events : List Event) : (history.run events).Settled := by
  induction events generalizing history with
  | nil => exact settled
  | cons event rest ih => exact ih (settled.next event)

/-- What is dead before an event is dead after it. -/
theorem Settled.dead_next {name : Nat × Nat} (dead : history.table.arena.Dead name) :
    (history.next event).table.arena.Dead name := by
  cases event with
  | sweep condemned => exact (settled.sound.ages_sweep condemned).arena.dead dead
  | operation operation => exact (settled.sound.apply_moves operation).dead dead

/-- A dead name stays dead. -/
theorem Settled.dead_run (events : List Event) {name : Nat × Nat}
    (dead : history.table.arena.Dead name) : (history.run events).table.arena.Dead name := by
  induction events generalizing history with
  | nil => exact dead
  | cons event rest ih => exact ih (settled.next event) (settled.dead_next event dead)

/-- A handle that was issued and does not resolve never resolves again. -/
theorem Settled.stays_dead {handle : Handle} (member : handle ∈ history.issued)
    (gone : ¬(history.table.resolve handle).isOk = true) (events : List Event) :
    ¬((history.run events).table.resolve handle).isOk = true := by
  rw [settled.sound.resolve_ok_iff_live] at gone
  rw [(settled.run events).sound.resolve_ok_iff_live]
  have dead := settled.accounts.dead (List.mem_map_of_mem member) gone
  exact (settled.dead_run events dead).not_live

/-- An event leaves nothing in the slots it empties. -/
theorem Settled.not_occupied {index : Nat} (clears : event.Clears history.table index) :
    ¬(history.next event).table.arena.occupied index := by
  cases event with
  | sweep condemned => exact Table.not_occupied_sweep clears
  | operation operation =>
    cases operation with
    | revoke handle =>
      obtain ⟨condemned, condemns, held⟩ := clears
      simp only [History.next, Table.apply, Table.revoke, condemns]
      exact Table.not_occupied_sweep held
    | relinquish handle =>
      obtain ⟨condemned, condemns, held⟩ := clears
      simp only [History.next, Table.apply, Table.relinquish, condemns]
      exact Table.not_occupied_sweep held
    | clearAll => exact settled.sound.ages_clearAll.2 index
    | grant | derive | grow | refund | noteMapping | owesNotices | notePeerGone
    | nextSlotNotice => exact clears.elim

end

/-- Over every history of a table, whatever processes came and went: no handle is issued
twice, an issued handle that does not resolve never resolves again, and a handle whose
slot was emptied does not resolve at any later time. -/
theorem issued_once_and_dead_for_good (events later : List Event) :
    (start.run events).issued.Nodup ∧
      (∀ handle ∈ (start.run events).issued, ¬((start.run events).table.resolve handle).isOk = true
        → ¬(((start.run events).run later).table.resolve handle).isOk = true) ∧
      ∀ handle ∈ (start.run events).issued, ∀ event : Event,
        event.Clears (start.run events).table handle.index →
        ¬((((start.run events).next event).run later).table.resolve handle).isOk = true := by
  have settled := start_settled.run events
  refine ⟨List.Nodup.of_map _ settled.accounts.nodup, fun handle member gone =>
    settled.stays_dead member gone later, fun handle member event clears => ?_⟩
  have after := settled.next event
  have still : handle ∈ ((start.run events).next event).issued := by
    cases event with
    | sweep condemned => exact member
    | operation operation => exact List.mem_append_right _ member
  refine after.stays_dead still ?_ later
  rw [after.sound.resolve_ok_iff_live]
  exact fun live => settled.not_occupied event clears live.1

end History

end FSystem.Kernel
