import FSystem.Kernel.Table
import Mathlib.Data.List.Nodup
import Mathlib.Data.List.Range

/-!
# What each table operation does

One law for each operation of the capability table: which slot it looks at, when it
is refused, and what every slot holds afterwards.  Later modules use these laws and
never the definitions.
-/

namespace FSystem.Kernel

open Abi List

namespace Table

variable (table : Table)

/-! ## Slots -/

@[simp] theorem floor_modify (index : Nat) (change : Slot → Slot) :
    (table.modify index change).floor = table.floor := rfl

theorem slotAt_eq_none_iff (index : Nat) : table.slotAt index = none ↔ table.capacity ≤ index := by
  rw [slotAt, getElem?_eq_none_iff, table.length_slots, capacity]

variable {index : Nat} {slot : Slot}

theorem lt_capacity (found : table.slotAt index = some slot) :
    index < table.capacity := by
  by_contra outside
  rw [(table.slotAt_eq_none_iff index).2 (Nat.le_of_not_lt outside)] at found
  cases found

theorem exists_slotAt (inside : index < table.capacity) :
    ∃ slot, table.slotAt index = some slot := by
  apply Option.ne_none_iff_exists'.1
  rw [ne_eq, slotAt_eq_none_iff]
  omega

theorem slotAt_modify (index other : Nat) (change : Slot → Slot) :
    (table.modify index change).slotAt other =
      (table.slotAt other).map fun slot => if index = other then change slot else slot := by
  simp only [slotAt, modify, getElem?_modify]
  rfl

theorem slotAt_modify_self (found : table.slotAt index = some slot)
    (change : Slot → Slot) : (table.modify index change).slotAt index = some (change slot) := by
  rw [slotAt_modify, found]
  simp

theorem slotAt_modify_of_ne {index other : Nat} (different : index ≠ other) (change : Slot → Slot) :
    (table.modify index change).slotAt other = table.slotAt other := by
  rw [slotAt_modify]
  simp [different]

/-- A slot of a table of which one slot was changed is that slot, or is as it was. -/
theorem slotAt_modify_cases {other : Nat} {change : Slot → Slot}
    (found : (table.modify index change).slotAt other = some slot) :
    (∃ old, index = other ∧ table.slotAt other = some old ∧ slot = change old) ∨
      index ≠ other ∧ table.slotAt other = some slot := by
  by_cases here : index = other
  · rw [slotAt_modify, Option.map_eq_some_iff] at found
    obtain ⟨old, held, rfl⟩ := found
    exact .inl ⟨old, here, held, if_pos here⟩
  · rw [slotAt_modify_of_ne table here] at found
    exact .inr ⟨here, found⟩

section

variable (room : table.grown < maxPages)

include room

theorem capacity_withPage : (table.withPage room).capacity = table.capacity + slotsPerPage := by
  simp only [capacity, withPage]
  rw [Nat.succ_mul, Nat.add_assoc]

theorem slotAt_withPage_of_lt (inside : index < table.capacity) :
    (table.withPage room).slotAt index = table.slotAt index := by
  simp only [slotAt, withPage]
  rw [getElem?_append_left]
  rwa [table.length_slots]

theorem slotAt_withPage_of_some (found : table.slotAt index = some slot) :
    (table.withPage room).slotAt index = some slot := by
  rw [slotAt_withPage_of_lt table room (table.lt_capacity found), found]

/-- A slot of a table with one more page was there, or is fresh. -/
theorem slotAt_withPage (found : (table.withPage room).slotAt index = some slot) :
    table.slotAt index = some slot ∨ table.slotAt index = none ∧ slot = Slot.fresh table.floor := by
  by_cases inside : index < table.capacity
  · rw [slotAt_withPage_of_lt table room inside] at found
    exact .inl found
  · refine .inr ⟨(table.slotAt_eq_none_iff index).2 (by omega), ?_⟩
    simp only [slotAt, withPage] at found
    rw [getElem?_append_right (by rw [table.length_slots]; unfold capacity at inside; omega)]
      at found
    exact eq_of_mem_replicate (mem_of_getElem? found)

end

/-- The handle is the name of what is in this slot now. -/
structure Names (handle : Handle) (slot : Slot) : Prop where
  found : table.slotAt handle.index = some slot
  issuable : handle.generation ≠ 0
  current : slot.generation = handle.generation
  occupied : slot.occupied = true

variable {handle : Handle}

/-! ## Lookups -/

/-- A handle is refused, or names its slot. -/
theorem resolve_cases (handle : Handle) :
    (∃ error, table.resolve handle = .error error ∧ ∀ slot, ¬table.Names handle slot) ∨
      ∃ slot, table.Names handle slot ∧ table.resolve handle = .ok handle.index := by
  have only : ∀ {slot other}, table.slotAt handle.index = some slot → table.Names handle other →
      slot = other := fun found names => Option.mem_unique found names.found
  fun_cases resolve table handle with
  | case1 unissuable =>
    refine .inl ⟨_, rfl, fun slot names => unissuable ?_⟩
    simpa [Handle.isIssuable] using names.issuable
  | case2 issuable outside =>
    exact .inl ⟨_, rfl, fun slot names => absurd (table.lt_capacity names.found) (by omega)⟩
  | case3 issuable inside absent =>
    exact .inl ⟨_, rfl, fun slot names => nomatch absent.symm.trans names.found⟩
  | case4 issuable inside slot found generation =>
    refine .inl ⟨_, rfl, fun other names => generation ?_⟩
    rw [only found names, names.current]
  | case5 issuable inside slot found generation vacant =>
    refine .inl ⟨_, rfl, fun other names => vacant ?_⟩
    rw [only found names, names.occupied]
  | case6 issuable inside slot found generation occupied =>
    refine .inr ⟨slot, ⟨found, ?_, (not_not.1 generation).symm, not_not.1 occupied⟩, rfl⟩
    simpa [Handle.isIssuable] using issuable

theorem Names.resolve {table : Table}
    (names : table.Names handle slot) : table.resolve handle = .ok handle.index := by
  rcases table.resolve_cases handle with ⟨_, _, unnamed⟩ | ⟨_, _, resolves⟩
  · exact absurd names (unnamed slot)
  · exact resolves

/-- A handle resolves exactly when it names what its slot holds. -/
theorem resolve_ok_iff (handle : Handle) :
    (table.resolve handle).isOk = true ↔ ∃ slot, table.Names handle slot := by
  rcases table.resolve_cases handle with ⟨error, refused, unnamed⟩ | ⟨slot, names, resolves⟩
  · rw [refused]
    exact ⟨fun ok => absurd ok (by simp [Except.isOk, Except.toBool]),
      fun ⟨slot, names⟩ => absurd names (unnamed slot)⟩
  · rw [resolves]
    exact ⟨fun _ => ⟨slot, names⟩, fun _ => rfl⟩

/-- What a slot says of its capability. -/
def foundIn (slot : Slot) (kind : CapType) : Found :=
  ⟨kind, slot.rights, slot.object, slot.extent⟩

/-- The same, with what the slot says. -/
theorem inspect_cases (handle : Handle) :
    (∃ error, table.inspect handle = .error error) ∨
      ∃ slot kind, table.Names handle slot ∧ slot.kind = some kind ∧
        table.inspect handle = .ok (foundIn slot kind) := by
  unfold inspect
  rcases table.resolve_cases handle with ⟨error, refused, -⟩ | ⟨slot, names, resolves⟩
  · rw [refused]
    exact .inl ⟨error, rfl⟩
  · obtain ⟨kind, present⟩ := Option.isSome_iff_exists.1 names.occupied
    refine .inr ⟨slot, kind, names, present, ?_⟩
    simp only [resolves, names.found, present]
    rfl

variable {asked : UInt8} {found : Found}

theorem invokeAny_ok (ok : table.invokeAny handle asked = .ok found) :
    ∃ slot kind, table.Names handle slot ∧ found = foundIn slot kind := by
  unfold invokeAny at ok
  rcases table.inspect_cases handle with ⟨error, refused⟩ | ⟨slot, kind, names, -, seen⟩
  · rw [refused] at ok
    cases ok
  · rw [seen] at ok
    simp only at ok
    split_ifs at ok
    · cases ok
      exact ⟨slot, kind, names, rfl⟩

theorem invoke_ok {kind : CapType} (ok : table.invoke handle kind asked = .ok found) :
    ∃ slot, table.Names handle slot ∧ slot.kind = some kind ∧
      found = foundIn slot kind := by
  unfold invoke at ok
  rcases table.inspect_cases handle with ⟨error, refused⟩ | ⟨slot, other, names, present, seen⟩
  · rw [refused] at ok
    cases ok
  rw [seen] at ok
  simp only at ok
  split_ifs at ok with wrong
  · cases ok
    obtain rfl : other = kind := by simpa [foundIn] using wrong
    exact ⟨slot, names, present, rfl⟩

/-! ## Filling a slot -/

theorem find?_slot {test : Slot → Bool}
    (found : (range table.capacity).find? (fun index => (table.slotAt index).any test) =
      some index) :
    ∃ slot, table.slotAt index = some slot ∧ test slot = true := by
  have any := find?_some found
  rwa [Option.any_eq_true] at any

/-- Placing is refused with nothing changed, or fills a vacant slot. -/
theorem place_cases (kind : CapType) (rights : UInt8) (object extent : Nat) (parent : Handle) :
    table.vacancy = none ∧
        table.place kind rights object extent parent = (.error .quotaExhausted, table) ∨
      ∃ index slot, table.slotAt index = some slot ∧ slot.occupied = false ∧
        slot.generation ≠ Handle.retiredGeneration ∧ slot.notice = .quiet ∧
        table.place kind rights object extent parent =
          (.ok ⟨index, slot.generation⟩, table.modify index
            (Slot.filled table.postsNotices kind rights object extent parent)) := by
  unfold place
  cases found : table.vacancy with
  | none => exact .inl ⟨rfl, rfl⟩
  | some index =>
    obtain ⟨slot, present, vacant⟩ := table.find?_slot found
    simp only [Slot.vacant, Pending.isQuiet, Bool.and_eq_true, Bool.not_eq_true',
      decide_eq_true_eq] at vacant
    exact .inr ⟨index, slot, present, vacant.1.1, vacant.1.2, vacant.2, by simp [present]⟩

/-! ## Buying a page -/

/-- Growing is refused with nothing changed, or adds a page and charges for it. -/
theorem grow_cases (backing : Backing) :
    table.grow backing = (.error .quotaExhausted, table) ∨
      ∃ (room : table.grown < maxPages) (account : Nat) (slot : Slot),
        table.account = some account ∧ table.slotAt account = some slot ∧
        slot.pays = true ∧
        table.grow backing = (.ok (), (table.withPage room).modify account Slot.charged) := by
  unfold grow
  split_ifs with room
  · cases found : table.account with
    | none => exact .inl rfl
    | some account =>
      obtain ⟨slot, present, pays⟩ := table.find?_slot found
      cases reached : backing slot.object with
      | none => exact .inl (by simp [present, reached])
      | some base =>
        exact .inr ⟨room, account, slot, rfl, present, pays, by simp [present, reached]⟩
  · exact .inl rfl

/-- Making room is refused with nothing changed, finds room, or buys a page. -/
theorem makeRoom_cases (backing : Backing) :
    table.makeRoom backing = (.error .quotaExhausted, table) ∨
      table.vacancy.isSome = true ∧ table.makeRoom backing = (.ok (), table) ∨
      ∃ (room : table.grown < maxPages) (account : Nat),
        table.makeRoom backing = (.ok (), (table.withPage room).modify account Slot.charged) := by
  unfold makeRoom
  cases found : table.vacancy with
  | some index => exact .inr (.inl ⟨rfl, rfl⟩)
  | none =>
    rcases table.grow_cases backing with refused | ⟨room, account, _, _, _, _, bought⟩
    · exact .inl refused
    · exact .inr (.inr ⟨room, account, bought⟩)

/-! ## Deriving -/

theorem carved_eq_some {object extent frame : Nat} {result : Nat × Nat}
    (carved : Watermark.carved object extent frame = some result) :
    frame ≤ extent ∧ result = (object + frame, extent - frame) := by
  unfold Watermark.carved at carved
  split_ifs at carved with small far
  exact ⟨Nat.le_of_not_lt small, (Option.some.inj carved).symm⟩

variable (handle)

/-- Retyping is refused with nothing changed, copies, or carves a frame. -/
theorem retype_cases :
    (∃ error, table.retype handle = (.error error, table)) ∨
      ∃ slot, table.Names handle slot ∧
        ((∃ kind, slot.kind = some kind ∧ kind ≠ .untyped ∧
            table.retype handle = (.ok (kind, slot.object, slot.extent), table)) ∨
          slot.kind = some .untyped ∧
            (Watermark.carved slot.object slot.extent frameSize).isSome = true ∧
            table.retype handle =
              (.ok (.frame, slot.object, frameSize), table.modify handle.index Slot.charged)) := by
  unfold retype
  rcases table.resolve_cases handle with ⟨error, refused, _⟩ | ⟨slot, names, resolves⟩
  · exact .inl ⟨error, by simp [refused]⟩
  obtain ⟨kind, present⟩ := Option.isSome_iff_exists.1 names.occupied
  simp only [resolves, names.found, present]
  by_cases untyped : kind = .untyped
  · subst untyped
    cases carved : Watermark.carved slot.object slot.extent frameSize with
    | none => exact .inl ⟨_, rfl⟩
    | some result => exact .inr ⟨slot, names, .inr ⟨present, by rw [carved]; rfl, rfl⟩⟩
  · rw [if_pos untyped]
    exact .inr ⟨slot, names, .inl ⟨kind, present, untyped, rfl⟩⟩

/-- Deriving is refused first, refused after room was made, or retypes and places. -/
theorem derive_cases (asked : UInt8) (backing : Backing) :
    (∃ error, table.derive handle asked backing = (.error error, table)) ∨
      ∃ slot, table.Names handle slot ∧ Rights.narrows slot.rights asked = true ∧
        (table.makeRoom backing).1 = .ok () ∧
        ((∃ error, table.derive handle asked backing =
            (.error error, (table.makeRoom backing).2)) ∨
          ∃ kind object extent,
            ((table.makeRoom backing).2.retype handle).1 = .ok (kind, object, extent) ∧
            table.derive handle asked backing =
              ((table.makeRoom backing).2.retype handle).2.place kind asked object extent
                handle) := by
  fun_cases derive table handle asked backing with
  | case1 | case2 | case3 => exact .inl ⟨_, rfl⟩
  | case4 _ _ _ _ error roomy made =>
    rcases table.makeRoom_cases backing with same | ⟨_, same⟩ | ⟨_, _, same⟩ <;>
      cases made.symm.trans same
    exact .inl ⟨_, rfl⟩
  | case5 known parent invoked narrow roomy made error retyped typed =>
    obtain ⟨slot, _, names, rfl⟩ := table.invokeAny_ok invoked
    rcases roomy.retype_cases handle with ⟨_, same⟩ | ⟨_, _, ⟨_, _, _, same⟩ | ⟨_, _, same⟩⟩ <;>
      cases typed.symm.trans same
    rw [made]
    exact .inr ⟨slot, names, not_not.1 narrow, rfl, .inl ⟨_, rfl⟩⟩
  | case6 known parent invoked narrow roomy made kind object extent retyped typed =>
    obtain ⟨slot, _, names, rfl⟩ := table.invokeAny_ok invoked
    rw [made, typed]
    exact .inr ⟨slot, names, not_not.1 narrow, rfl, .inr ⟨_, _, _, rfl, rfl⟩⟩

/-- A table that bought pages and was charged for frames, and is the same besides. -/
inductive Spends (before : Table) : Table → Prop
  | refl : Spends before before
  | withPage {after : Table} (spends : Spends before after) (room : after.grown < maxPages) :
    Spends before (after.withPage room)
  | charged {after : Table} {index : Nat} {slot : Slot} (spends : Spends before after)
      (found : after.slotAt index = some slot) (untyped : slot.kind = some .untyped) :
    Spends before (after.modify index Slot.charged)

/-- A purchase only spends. -/
theorem grow_spends (backing : Backing) : table.Spends (table.grow backing).2 := by
  rcases table.grow_cases backing with refused | ⟨room, account, slot, _, found, pays, bought⟩
  · rw [refused]
    exact .refl
  · rw [bought]
    simp only [Slot.pays, Bool.and_eq_true, decide_eq_true_eq] at pays
    exact .charged (.withPage .refl room) (table.slotAt_withPage_of_some room found) pays.1.1.2

theorem makeRoom_spends (backing : Backing) : table.Spends (table.makeRoom backing).2 := by
  unfold makeRoom
  split_ifs
  · exact table.grow_spends backing
  · exact .refl

theorem Spends.retype {before : Table} (spends : before.Spends table) :
    before.Spends (table.retype handle).2 := by
  rcases table.retype_cases handle with ⟨_, refused⟩ | ⟨slot, names, ⟨_, _, _, same⟩ | carved⟩
  · rwa [refused]
  · rwa [same]
  · rw [carved.2.2]
    exact .charged spends names.found carved.1

/-- A derivation spends, and then is refused or places what it derives. -/
theorem derive_spends (asked : UInt8) (backing : Backing) :
    ∃ spent, table.Spends spent ∧
      ((∃ error, table.derive handle asked backing = (.error error, spent)) ∨
        ∃ slot kind object extent, table.Names handle slot ∧
          Rights.narrows slot.rights asked = true ∧
          table.derive handle asked backing = spent.place kind asked object extent handle) := by
  rcases table.derive_cases handle asked backing with
    ⟨error, refused⟩ | ⟨slot, names, narrow, _, ⟨error, refused⟩ | ⟨_, _, _, _, placed⟩⟩
  · exact ⟨_, .refl, .inl ⟨error, refused⟩⟩
  · exact ⟨_, table.makeRoom_spends backing, .inl ⟨error, refused⟩⟩
  · exact ⟨_, (table.makeRoom_spends backing).retype _ _,
      .inr ⟨slot, _, _, _, names, narrow, placed⟩⟩

/-! ## Emptying slots -/

/-- Every slot rewritten in place, each in its own way. -/
structure Rewrites (before after : Table) (change : Nat → Slot → Slot) : Prop where
  slotAt : ∀ index, after.slotAt index = (before.slotAt index).map (change index)
  grown : after.grown = before.grown
  floor : after.floor = before.floor

theorem Rewrites.modify (index : Nat) (change : Slot → Slot) :
    table.Rewrites (table.modify index change)
      (fun other slot => if index = other then change slot else slot) :=
  ⟨fun other => table.slotAt_modify index other change, rfl, rfl⟩

variable {change : Nat → Slot → Slot}

theorem Rewrites.capacity {before after : Table}
    (rewrites : before.Rewrites after change) : after.capacity = before.capacity := by
  unfold Table.capacity
  rw [rewrites.grown]

/-- What a rewritten table holds, it held. -/
theorem Rewrites.before {before after : Table} (rewrites : before.Rewrites after change)
    (found : after.slotAt index = some slot) :
    ∃ old, before.slotAt index = some old ∧ slot = change index old := by
  rw [rewrites.slotAt, Option.map_eq_some_iff] at found
  obtain ⟨old, found, same⟩ := found
  exact ⟨old, found, same.symm⟩

theorem Rewrites.after {before after : Table} (rewrites : before.Rewrites after change)
    (found : before.slotAt index = some slot) : after.slotAt index = some (change index slot) := by
  rw [rewrites.slotAt, found]
  rfl

/-- Emptying some slots one after another, each chosen by its own content. -/
theorem foldl_clears
    (clears : Nat → Slot → Bool)
    (step : Table → Nat → Table)
    (steps : ∀ (table : Table) (index : Nat),
      (step table index).postsNotices = table.postsNotices ∧
      table.Rewrites (step table index) fun other slot =>
        if index = other ∧ clears index slot = true then
          slot.cleared table.postsNotices
        else slot)
    (indices : List Nat)
    (nodup : indices.Nodup) :
    (indices.foldl step table).postsNotices = table.postsNotices ∧
      table.Rewrites (indices.foldl step table) fun other slot =>
        if other ∈ indices ∧ clears other slot = true then
          slot.cleared table.postsNotices
        else slot := by
  induction indices generalizing table with
  | nil => exact ⟨rfl, ⟨fun index => by simp, rfl, rfl⟩⟩
  | cons first rest ih =>
    obtain ⟨fresh, nodup⟩ := List.nodup_cons.1 nodup
    obtain ⟨posts, once⟩ := steps table first
    obtain ⟨postsRest, later⟩ := ih (step table first) nodup
    refine ⟨postsRest.trans posts, ⟨fun index => ?_, later.grown.trans once.grown,
      later.floor.trans once.floor⟩⟩
    rw [foldl_cons, later.slotAt, once.slotAt, Option.map_map, posts]
    congr 1
    funext slot
    -- The first index is not among the rest, so each slot is emptied at most once.
    by_cases here : first = index
    · subst here
      simp [fresh]
    · simp [here, Ne.symm here]

/-- A sweep empties exactly the condemned slots. -/
theorem sweep_rewrites (condemned : Condemned) :
    (table.sweep condemned).postsNotices = table.postsNotices ∧
      table.Rewrites (table.sweep condemned) fun index slot =>
        if condemned.holds index = true then slot.cleared table.postsNotices else slot := by
  obtain ⟨posts, rewrites⟩ := table.foldl_clears (fun index _ => condemned.holds index)
    (fun table index => if condemned.holds index then table.clear index else table)
    (fun table index => by
      by_cases held : condemned.holds index = true
      · simp only [held, if_true, and_true]
        exact ⟨rfl, Rewrites.modify table index _⟩
      · simp only [held]
        exact ⟨rfl, ⟨fun other => by simp, rfl, rfl⟩⟩)
    (range table.capacity) nodup_range
  refine ⟨posts, ⟨fun index => ?_, rewrites.grown, rewrites.floor⟩⟩
  unfold sweep
  rw [rewrites.slotAt]
  cases found : table.slotAt index with
  | none => rfl
  | some slot => simp [table.lt_capacity found]

/-- The table with every occupied slot emptied, before its pages are dropped. -/
def emptied : Table := (range table.capacity).foldl clearOccupied table

/-- Every occupied slot is cleared. -/
theorem emptied_rewrites :
    table.Rewrites table.emptied fun _ slot =>
      if slot.occupied = true then slot.cleared table.postsNotices else slot := by
  obtain ⟨_, rewrites⟩ := table.foldl_clears (fun _ slot => slot.occupied) clearOccupied
    (fun table index => by
      unfold clearOccupied
      split_ifs with occupied
      · refine ⟨rfl, fun other => ?_, rfl, rfl⟩
        rw [clear, slotAt_modify]
        refine Option.map_congr fun slot found => if_congr ⟨fun here => ⟨here, ?_⟩, And.left⟩ rfl
          rfl
        rwa [here, Option.mem_def.1 found] at occupied
      · refine ⟨rfl, fun other => ?_, rfl, rfl⟩
        refine Option.map_id'.symm.trans (Option.map_congr fun slot found => (if_neg ?_).symm)
        rintro ⟨rfl, isOccupied⟩
        rw [Option.mem_def.1 found] at occupied
        exact occupied isOccupied)
    (range table.capacity) nodup_range
  refine ⟨fun index => ?_, rewrites.grown, rewrites.floor⟩
  unfold emptied
  rw [rewrites.slotAt]
  cases found : table.slotAt index with
  | none => rfl
  | some slot => simp [table.lt_capacity found]

theorem clearAll_eq : table.clearAll = table.emptied.withoutPages table.emptied.reached := rfl

theorem slotAt_withoutPages (floor index : Nat) :
    (table.withoutPages floor).slotAt index =
      if index < tableSlots then
        (table.slotAt index).map fun slot => { slot with notice := .quiet }
      else none := by
  simp only [slotAt, withoutPages, getElem?_map, getElem?_take]
  split_ifs <;> rfl

theorem tableSlots_le_capacity : tableSlots ≤ table.capacity := Nat.le_add_right _ _

/-- The floor a table leaves is the least one above the old one and every bought slot's
generation. -/
theorem reached_le_iff {bound : Nat} :
    table.reached ≤ bound ↔ table.floor ≤ bound ∧
      ∀ index slot, tableSlots ≤ index → table.slotAt index = some slot →
        slot.generation ≤ bound := by
  have fold : ∀ (indices : List Nat) (floor : Nat), indices.foldl
      (fun floor index => max floor ((table.slotAt index).elim floor Slot.generation)) floor ≤ bound
      ↔ floor ≤ bound ∧ ∀ index ∈ indices, ∀ slot, table.slotAt index = some slot →
        slot.generation ≤ bound := by
    intro indices
    induction indices with
    | nil => simp
    | cons first rest ih =>
      intro floor
      rw [foldl_cons, ih, Nat.max_le, forall_mem_cons]
      cases found : table.slotAt first with
      | none | some slot => simp [and_assoc]
  refine (fold _ _).trans (and_congr_right fun _ => ⟨fun all index slot bought found => ?_,
    fun all index member slot => all index slot (mem_range'_1.1 member).1⟩)
  have inside := table.lt_capacity found
  exact all index (mem_range'_1.2 (by omega)) slot found

/-! ## Notes on a slot -/

/-- A change that leaves alone what a slot holds and who derived it. -/
structure Annotates (change : Slot → Slot) : Prop where
  kind : ∀ slot, (change slot).kind = slot.kind
  rights : ∀ slot, (change slot).rights = slot.rights
  generation : ∀ slot, (change slot).generation = slot.generation
  parent : ∀ slot, (change slot).parent = slot.parent

/-- At most one slot changes, and not in its kind, rights, generation or parent. -/
def Notes (before after : Table) : Prop :=
  ∃ index change, Annotates change ∧ before.Rewrites after fun other slot =>
    if index = other then change slot else slot

/-- At most one slot changes, and neither what `Notes` leaves alone nor what it spans. -/
def Remarks (before after : Table) : Prop :=
  ∃ index change, Annotates change ∧
    (∀ slot, (change slot).object = slot.object ∧ (change slot).extent = slot.extent) ∧
    before.Rewrites after fun other slot => if index = other then change slot else slot

theorem Remarks.notes {before after : Table} (remarks : before.Remarks after) :
    before.Notes after := by
  obtain ⟨index, change, annotates, _, rewrites⟩ := remarks
  exact ⟨index, change, annotates, rewrites⟩

theorem Remarks.refl : table.Remarks table :=
  ⟨0, id, ⟨fun _ => rfl, fun _ => rfl, fun _ => rfl, fun _ => rfl⟩, fun _ => ⟨rfl, rfl⟩,
    ⟨fun index => by simp, rfl, rfl⟩⟩

/-- Noting a mapping or a notice is a remark. -/
theorem Remarks.modify (mapped : Slot → Nat) (notice : Slot → Pending) (index : Nat) :
    table.Remarks (table.modify index fun slot =>
      { slot with mapped := mapped slot, notice := notice slot }) :=
  ⟨index, fun slot => { slot with mapped := mapped slot, notice := notice slot },
    ⟨fun _ => rfl, fun _ => rfl, fun _ => rfl, fun _ => rfl⟩, fun _ => ⟨rfl, rfl⟩,
    .modify table index _⟩

theorem Notes.modify {change : Slot → Slot} (annotates : Annotates change) (index : Nat) :
    table.Notes (table.modify index change) :=
  ⟨index, change, annotates, .modify table index change⟩

theorem annotates_charged : Annotates Slot.charged := by
  refine ⟨fun slot => ?_, fun slot => ?_, fun slot => ?_, fun slot => ?_⟩ <;>
    · unfold Slot.charged
      split <;> rfl

theorem noteMapping_remarks (virt : Nat) : table.Remarks (table.noteMapping handle virt).2 := by
  fun_cases noteMapping with
  | case4 => exact .modify table (fun _ => virt) Slot.notice _
  | _ => exact .refl table

theorem refund_notes (bytes floor : Nat) : table.Notes (table.refund handle bytes floor).2 := by
  fun_cases refund with
  | case5 =>
    apply Notes.modify
    exact ⟨fun _ => rfl, fun _ => rfl, fun _ => rfl, fun _ => rfl⟩
  | _ => exact (Remarks.refl table).notes

theorem owesNotices_remarks : table.Remarks table.owesNotices :=
  ⟨0, id, ⟨fun _ => rfl, fun _ => rfl, fun _ => rfl, fun _ => rfl⟩, fun _ => ⟨rfl, rfl⟩,
    ⟨fun index => by simp [owesNotices, slotAt], rfl, rfl⟩⟩

theorem notePeerGone_remarks : table.Remarks (table.notePeerGone handle).2 := by
  fun_cases notePeerGone with
  | case1 => exact .refl table
  | case2 =>
    dsimp only
    split
    · exact .modify table Slot.mapped ..
    · exact .refl table

theorem nextSlotNotice_remarks : table.Remarks table.nextSlotNotice.2 := by
  unfold nextSlotNotice
  split
  · exact .refl table
  · split
    · exact .refl table
    · exact .modify table Slot.mapped ..

/-! ## Runs -/

/-- An operation on a table. -/
inductive Operation
  | grant (kind : CapType) (rights : UInt8) (object extent : Nat)
  | derive (handle : Handle) (asked : UInt8) (backing : Backing)
  | grow (backing : Backing)
  | revoke (handle : Handle)
  | relinquish (handle : Handle)
  | refund (handle : Handle) (bytes floor : Nat)
  | noteMapping (handle : Handle) (virt : Nat)
  | owesNotices
  | notePeerGone (handle : Handle)
  | nextSlotNotice
  | clearAll

/-- The handle an operation issues, if it issues one, and the table it leaves. -/
def apply : Operation → Option Handle × Table
  | .grant kind rights object extent =>
    let result := table.grant kind rights object extent
    (result.1.toOption, result.2)
  | .derive handle asked backing =>
    let result := table.derive handle asked backing
    (result.1.toOption, result.2)
  | .grow backing => (none, (table.grow backing).2)
  | .revoke handle => (none, (table.revoke handle).2)
  | .relinquish handle => (none, (table.relinquish handle).2)
  | .refund handle bytes floor => (none, (table.refund handle bytes floor).2)
  | .noteMapping handle virt => (none, (table.noteMapping handle virt).2)
  | .owesNotices => (none, table.owesNotices)
  | .notePeerGone handle => (none, (table.notePeerGone handle).2)
  | .nextSlotNotice => (none, table.nextSlotNotice.2)
  | .clearAll => (none, table.clearAll)

/-- The table some operations leave. -/
def run (operations : List Operation) : Table :=
  operations.foldl (fun table operation => (table.apply operation).2) table

/-- A revocation is refused with nothing changed, or sweeps what it condemned. -/
theorem revoke_cases :
    (∃ error, table.revoke handle = (.error error, table)) ∨
      ∃ condemned, table.condemn handle = .ok condemned ∧
        table.revoke handle = (.ok (table.sweepCount condemned), table.sweep condemned) := by
  unfold revoke
  cases table.condemn handle with
  | error error => exact .inl ⟨error, rfl⟩
  | ok condemned => exact .inr ⟨condemned, rfl, rfl⟩

/-- Relinquishing is refused with nothing changed, or sweeps what it condemned. -/
theorem relinquish_cases :
    (∃ error, table.relinquish handle = (.error error, table)) ∨
      ∃ condemned, table.condemnOwn handle = .ok condemned ∧
        table.relinquish handle = (.ok (table.sweepCount condemned), table.sweep condemned) := by
  unfold relinquish
  cases table.condemnOwn handle with
  | error error => exact .inl ⟨error, rfl⟩
  | ok condemned => exact .inr ⟨condemned, rfl, rfl⟩

/-- What holds of a table and its sweeps holds when capabilities were withdrawn. -/
theorem revoke_induct {motive : Table → Prop} (same : motive table)
    (swept : ∀ condemned, motive (table.sweep condemned)) :
    motive (table.revoke handle).2 ∧ motive (table.relinquish handle).2 := by
  constructor
  · rcases table.revoke_cases handle with ⟨_, refused⟩ | ⟨condemned, _, done⟩
    · rwa [refused]
    · rw [done]
      exact swept condemned
  · rcases table.relinquish_cases handle with ⟨_, refused⟩ | ⟨condemned, _, done⟩
    · rwa [refused]
    · rw [done]
      exact swept condemned

end Table

end FSystem.Kernel
