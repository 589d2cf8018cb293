import FSystem.Kernel.Derivation
import FSystem.Library.Runs

/-!
# Notices

A component with a control ring is told what happens to its capabilities.  A slot's story is
what was delivered during each of its occupancies, how often the far end was noted gone, and
how much had been delivered when the capability was withdrawn.  Each call turns the story of
each slot by at most one item, and what the slot owes says how the story goes on.
-/

namespace FSystem.Kernel

open Abi

/-- A table with the words its holder is told of beside the slots. -/
structure Control where
  table : Table
  stop : Promise
  pressure : Grade
  generation : Grade

namespace Table

/-- How many notices the slots owe. -/
def slotsOwe (self : Table) : Nat := (self.slots.map fun slot => slot.notice.owed).sum

/-- The notices that are delivered by asking for the next one again and again. -/
def drained : Nat → Table → List (Notice × Handle)
  | 0, _ => []
  | fuel + 1, table =>
    match table.nextSlotNotice with
    | (none, _) => []
    | (some notice, after) => notice :: drained fuel after

end Table

namespace Control

/-- How many notices are owed. -/
def owes (self : Control) : Nat :=
  self.stop.owed.toNat + self.pressure.owed.toNat + self.generation.owed.toNat + self.table.slotsOwe

/-- A call on a table or on the words beside it. -/
inductive Call
  | table (operation : Table.Operation)
  | stopBy (deadline : UInt64)
  | pressureIs (grade : UInt64)
  | generationIs (generation : UInt64)
  | nextStopNotice
  | nextGradeNotice

/-- The control after a call. -/
def next (self : Control) : Call → Control
  | .table .clearAll => ⟨self.table.clearAll, .none, .none, .none⟩
  | .table operation => { self with table := (self.table.apply operation).2 }
  | .stopBy deadline => { self with stop := self.stop.promise deadline }
  | .pressureIs grade => { self with pressure := self.pressure.set grade }
  | .generationIs generation => { self with generation := self.generation.set generation }
  | .nextStopNotice => { self with stop := self.stop.drain.2 }
  | .nextGradeNotice =>
    if self.pressure.owed then { self with pressure := self.pressure.drain.2 }
    else { self with generation := self.generation.drain.2 }

end Control

/-- What one call does to one slot. -/
inductive Turn
  | stays
  | placed
  | withdrawn
  | noted
  | delivered (notice : Notice)
  deriving DecidableEq

/-- Whether a slot is occupied, and what it owes. -/
structure Status where
  occupied : Bool
  pending : Pending
  deriving DecidableEq

namespace Table

/-- The status of a slot; one that was not bought yet is empty and owes nothing. -/
def status (table : Table) (index : Nat) : Status :=
  (table.slotAt index).elim ⟨false, .quiet⟩ fun slot => ⟨slot.occupied, slot.notice⟩

/-- What an operation does to a slot, by its answer and the slot before and after. -/
def turn (table : Table) (operation : Operation) (index : Nat) : Turn :=
  match operation with
  | .grant .. | .derive .. =>
    if (table.apply operation).1.any (·.index = index) then .placed else .stays
  | .revoke _ | .relinquish _ =>
    if (table.status index).occupied ∧ ¬((table.apply operation).2.status index).occupied then
      .withdrawn
    else .stays
  | .notePeerGone handle => if (table.resolve handle).toOption = some index then .noted else .stays
  | .nextSlotNotice =>
    match table.nextSlotNotice.1 with
    | some (notice, handle) => if handle.index = index then .delivered notice else .stays
    | none => .stays
  | _ => .stays

end Table

/-- What a turn makes of a slot's status. -/
def Turn.Takes : Turn → Status → Status → Prop
  | .stays, before, after => after = before
  | .placed, before, after => before = ⟨false, .quiet⟩ ∧ after = ⟨true, .granted⟩
  | .withdrawn, before, after =>
    before.occupied = true ∧ after = ⟨false, before.pending.afterRevoke⟩
  | .noted, before, after => before.occupied = true ∧ after = ⟨true, before.pending.afterPeerGone⟩
  | .delivered notice, before, after =>
    before.pending.drain = (some notice, after.pending) ∧ after.occupied = before.occupied

/-- What was delivered in one occupancy, how often the far end was noted gone, and how much was
delivered before a withdrawal. -/
structure Occupancy where
  delivered : List Notice
  noted : Nat
  withdrawnAfter : Option Nat
  deriving DecidableEq

/-- The occupancies of a slot, the latest first, and what was delivered before any. -/
structure Story where
  occupancies : List Occupancy
  strays : List Notice
  deriving DecidableEq

/-- A grant is delivered first, then the far end gone, no more often than noted; a withdrawal
adds one revocation, or leaves nothing if the grant was not delivered.  What is owed is the
missing end. -/
def Occupancy.Told (occupancy : Occupancy) (pending : Pending) : Prop :=
  match occupancy.withdrawnAfter with
  | none =>
    occupancy.delivered = [] ∧
        (pending = .granted ∧ occupancy.noted = 0 ∨
          pending = .grantedThenPeerGone ∧ 0 < occupancy.noted) ∨
      ∃ times, occupancy.delivered = .granted :: List.replicate times .peerGone ∧
        (pending = .quiet ∧ times ≤ occupancy.noted ∧ (0 < occupancy.noted → 0 < times) ∨
          pending = .peerGone ∧ times < occupancy.noted)
  | some 0 => occupancy.delivered = [] ∧ pending = .quiet
  | some (times + 1) =>
    times ≤ occupancy.noted ∧
      (pending = .revoked ∧ occupancy.delivered = .granted :: List.replicate times .peerGone ∨
        pending = .quiet ∧ occupancy.delivered = .granted :: List.replicate times .peerGone ++
        [.revoked])

namespace Story

/-- Nothing happened yet. -/
def empty : Story := ⟨[], []⟩

/-- Change the latest occupancy. -/
def latest (story : Story) (change : Occupancy → Occupancy) : Story :=
  { story with occupancies := story.occupancies.modifyHead change }

/-- The story after a turn. -/
def turn (story : Story) : Turn → Story
  | .stays => story
  | .placed => { story with occupancies := ⟨[], 0, none⟩ :: story.occupancies }
  | .withdrawn => story.latest fun occupancy =>
    { occupancy with withdrawnAfter := some occupancy.delivered.length }
  | .noted => story.latest fun occupancy => { occupancy with noted := occupancy.noted + 1 }
  | .delivered notice =>
    if story.occupancies = [] then { story with strays := story.strays ++ [notice] }
    else story.latest fun occupancy =>
      { occupancy with delivered := occupancy.delivered ++ [notice] }

/-- Nothing strayed, every earlier occupancy was told of in full, and the latest is the
occupant's if there is one. -/
def Tells (story : Story) (status : Status) : Prop :=
  story.strays = [] ∧
    match story.occupancies with
    | [] => status = ⟨false, .quiet⟩
    | latest :: earlier =>
      latest.Told status.pending ∧ latest.withdrawnAfter.isNone = status.occupied ∧
        ∀ occupancy ∈ earlier, occupancy.Told .quiet ∧ occupancy.withdrawnAfter.isSome = true

end Story

section Turning

variable {story : Story} {before after : Status}

section

variable {occupancy : Occupancy} {pending : Pending} (told : occupancy.Told pending)
  (held : occupancy.withdrawnAfter = none)

include told held

theorem Occupancy.told_noted :
    ({ occupancy with noted := occupancy.noted + 1 } : Occupancy).Told pending.afterPeerGone := by
  unfold Occupancy.Told at told ⊢
  rw [held] at told
  rw [held]
  rcases told with ⟨delivered, owed⟩ | ⟨times, delivered, owed⟩
  · refine .inl ⟨delivered, .inr ?_⟩
    rcases owed with ⟨rfl, -⟩ | ⟨rfl, -⟩
    · exact ⟨rfl, Nat.succ_pos _⟩
    · exact ⟨rfl, Nat.succ_pos _⟩
  · refine .inr ⟨times, delivered, .inr ?_⟩
    rcases owed with ⟨rfl, bound, -⟩ | ⟨rfl, bound⟩
    · exact ⟨rfl, Nat.lt_succ_of_le bound⟩
    · exact ⟨rfl, Nat.lt_succ_of_lt bound⟩

theorem Occupancy.told_withdrawn :
    ({ occupancy with withdrawnAfter := some occupancy.delivered.length } : Occupancy).Told
      pending.afterRevoke := by
  unfold Occupancy.Told at told ⊢
  rw [held] at told
  rcases told with ⟨delivered, owed⟩ | ⟨times, delivered, owed⟩
  · rw [delivered]
    refine ⟨rfl, ?_⟩
    rcases owed with ⟨rfl, -⟩ | ⟨rfl, -⟩
    · rfl
    · rfl
  · have length : occupancy.delivered.length = times + 1 := by
      rw [delivered, List.length_cons, List.length_replicate]
    rw [length]
    rcases owed with ⟨rfl, bound, -⟩ | ⟨rfl, bound⟩
    · exact ⟨bound, .inl ⟨rfl, delivered⟩⟩
    · exact ⟨Nat.le_of_lt bound, .inl ⟨rfl, delivered⟩⟩

end

theorem Occupancy.told_delivered
    {occupancy : Occupancy}
    {pending later : Pending}
    {notice : Notice}
    (told : occupancy.Told pending)
    (drains : pending.drain = (some notice, later)) :
    ({ occupancy with delivered := occupancy.delivered ++ [notice] } : Occupancy).Told later := by
  unfold Occupancy.Told at told ⊢
  dsimp only at told ⊢
  split at told
  next =>
    rcases told with ⟨delivered, owed⟩ | ⟨times, delivered, owed⟩
    · right
      rw [delivered]
      rcases owed with ⟨rfl, noted⟩ | ⟨rfl, noted⟩
      · cases drains
        exact ⟨0, rfl, .inl ⟨rfl, Nat.zero_le _, fun some => absurd some (by omega)⟩⟩
      · cases drains
        exact ⟨0, rfl, .inr ⟨rfl, noted⟩⟩
    · rcases owed with ⟨rfl, -⟩ | ⟨rfl, bound⟩
      · cases drains
      · cases drains
        refine .inr ⟨times + 1, ?_, .inl ⟨rfl, bound, fun _ => Nat.succ_pos _⟩⟩
        rw [delivered, List.replicate_succ']
        rfl
  next =>
    rw [told.2] at drains
    cases drains
  next =>
    obtain ⟨bound, ⟨rfl, delivered⟩ | ⟨rfl, -⟩⟩ := told
    · cases drains
      refine ⟨bound, .inr ⟨rfl, ?_⟩⟩
      rw [delivered]
    · cases drains

/-- A story that tells of a slot goes on telling of it. -/
theorem Story.Tells.turn (tells : story.Tells before) {turn : Turn}
    (takes : turn.Takes before after) : (story.turn turn).Tells after := by
  obtain ⟨occupancies, strays⟩ := story
  obtain ⟨none, tells⟩ := tells
  cases turn with
  | stays =>
    rw [takes]
    exact ⟨none, tells⟩
  | placed =>
    obtain ⟨rfl, rfl⟩ := takes
    refine ⟨none, .inl ⟨rfl, .inl ⟨rfl, rfl⟩⟩, rfl, ?_⟩
    cases occupancies with
    | nil => simp
    | cons latest earlier =>
      obtain ⟨told, free, ended⟩ := tells
      intro occupancy member
      rcases List.mem_cons.mp member with isLatest | isEarlier
      · rw [isLatest]
        refine ⟨told, ?_⟩
        rw [← Option.not_isNone, free]
        rfl
      · exact ended occupancy isEarlier
  | withdrawn =>
    obtain ⟨occupied, rfl⟩ := takes
    cases occupancies with
    | nil =>
      rw [tells] at occupied
      cases occupied
    | cons latest earlier =>
      obtain ⟨told, held, ended⟩ := tells
      rw [occupied, Option.isNone_iff_eq_none] at held
      exact ⟨none, Occupancy.told_withdrawn told held, rfl, ended⟩
  | noted =>
    obtain ⟨occupied, rfl⟩ := takes
    cases occupancies with
    | nil =>
      rw [tells] at occupied
      cases occupied
    | cons latest earlier =>
      obtain ⟨told, held, ended⟩ := tells
      rw [occupied] at held
      exact ⟨none, Occupancy.told_noted told (Option.isNone_iff_eq_none.mp held), held, ended⟩
  | delivered notice =>
    obtain ⟨drains, same⟩ := takes
    cases occupancies with
    | nil =>
      rw [tells] at drains
      cases drains
    | cons latest earlier =>
      obtain ⟨told, held, ended⟩ := tells
      exact ⟨none, Occupancy.told_delivered told drains, held.trans same.symm, ended⟩

end Turning

namespace Table

variable {after : Table} {index : Nat}

section Statuses

variable {table : Table} (backing : Backing)

theorem status_of_some {slot : Slot} (found : table.slotAt index = some slot) :
    table.status index = ⟨slot.occupied, slot.notice⟩ := by
  rw [status, found]
  rfl

theorem status_modify_of_ne {other : Nat} (different : index ≠ other) (change : Slot → Slot) :
    (table.modify index change).status other = table.status other := by
  rw [status, status, table.slotAt_modify_of_ne different]

/-- A change that leaves kinds and notices alone changes no status. -/
theorem status_modify {change : Slot → Slot} (kinds : ∀ slot, (change slot).kind = slot.kind)
    (notices : ∀ slot, (change slot).notice = slot.notice) (index other : Nat) :
    (table.modify index change).status other = table.status other := by
  by_cases here : index = other
  · rw [← here]
    cases found : table.slotAt index with
    | none => rw [status, status, slotAt_modify, found]; rfl
    | some slot =>
      rw [status_of_some found, status_of_some (table.slotAt_modify_self found _),
        Slot.occupied, kinds, notices]
      rfl
  · exact status_modify_of_ne here change

theorem charged_notice (slot : Slot) : slot.charged.notice = slot.notice := by
  rw [Slot.charged]
  split <;> rfl

theorem status_charged (index other : Nat) :
    (table.modify index Slot.charged).status other = table.status other :=
  status_modify annotates_charged.kind charged_notice index other

theorem status_withPage (room : table.grown < maxPages) (index : Nat) :
    (table.withPage room).status index = table.status index := by
  cases found : (table.withPage room).slotAt index with
  | none =>
    have outside := ((table.withPage room).slotAt_eq_none_iff index).mp found
    rw [capacity_withPage] at outside
    have absent := (table.slotAt_eq_none_iff index).mpr (by omega)
    rw [status, status, found, absent]
  | some slot =>
    rcases table.slotAt_withPage room found with present | ⟨absent, isFresh⟩
    · rw [status_of_some found, status_of_some present]
    · rw [status_of_some found, status, absent, isFresh]
      rfl

/-- Spending turns no slot. -/
theorem Spends.keeps (spends : table.Spends after) :
    after.postsNotices = table.postsNotices ∧ ∀ index, after.status index = table.status index := by
  induction spends with
  | refl => exact ⟨rfl, fun _ => rfl⟩
  | withPage spends room ih =>
    exact ⟨ih.1, fun index => (status_withPage room index).trans (ih.2 index)⟩
  | charged spends found untyped ih =>
    exact ⟨ih.1, fun index => (status_charged _ index).trans (ih.2 index)⟩

end Statuses

section Turns

variable {table : Table}

/-- Placing turns the slot it fills, from empty and quiet, and no other. -/
theorem place_takes
    (posts : table.postsNotices = true)
    (kind : CapType)
    (rights : UInt8)
    (object extent : Nat)
    (parent : Handle)
    (index : Nat) :
    let placed := table.place kind rights object extent parent
    placed.2.postsNotices = true ∧
      Turn.Takes (if placed.1.toOption.any (·.index = index) then .placed else .stays)
        (table.status index) (placed.2.status index) := by
  rcases table.place_cases kind rights object extent parent with
    ⟨-, refused⟩ | ⟨place, slot, found, empty, -, quiet, placed⟩
  · rw [refused]
    exact ⟨posts, rfl⟩
  rw [placed]
  refine ⟨posts, ?_⟩
  by_cases here : place = index
  · rw [← here, status_of_some found, status_of_some (table.slotAt_modify_self found _)]
    rw [if_pos (by simp [Except.toOption]), empty, quiet]
    refine ⟨rfl, ?_⟩
    rw [Slot.filled, posts, quiet]
    rfl
  · rw [if_neg (by simpa [Except.toOption] using here), status_modify_of_ne here]
    rfl

/-- A slot that a revocation condemns is occupied. -/
theorem occupied_of_descendants {handle : Handle}
    (held : (table.descendants handle).holds index = true) :
    (table.status index).occupied = true := by
  rw [descendants_eq] at held
  refine condemning.close_sound (table.hangsAt handle)
    (fun place => (table.status place).occupied = true) ?_ _ _ (fun place marked => ?_) index held
  · intro doomed _ place hangs
    obtain ⟨slot, found, hangs⟩ := (Option.any_eq_true ..).mp hangs
    rw [status_of_some found]
    exact ((hangs_eq_true_iff ..).mp hangs).1
  · cases (Condemned.holds_none place).symm.trans marked

/-- A sweep of occupied slots turns those and no others. -/
theorem sweep_takes (posts : table.postsNotices = true) {condemned : Condemned}
    (occupied : ∀ index, condemned.holds index = true → (table.status index).occupied = true)
    (index : Nat) :
    (table.sweep condemned).postsNotices = true ∧
      Turn.Takes
        (if (table.status index).occupied ∧ ¬((table.sweep condemned).status index).occupied then
          .withdrawn else .stays)
        (table.status index) ((table.sweep condemned).status index) := by
  obtain ⟨same, rewrites⟩ := table.sweep_rewrites condemned
  refine ⟨same.trans posts, ?_⟩
  cases found : table.slotAt index with
  | none =>
    have gone : (table.sweep condemned).slotAt index = none := by
      rw [rewrites.slotAt, found]
      rfl
    rw [status, status, found, gone]
    exact rfl
  | some slot =>
    have swept := rewrites.after found
    by_cases held : condemned.holds index = true
    · rw [if_pos held, posts] at swept
      have isOccupied := occupied index held
      rw [status_of_some swept, if_pos ⟨isOccupied, Bool.false_ne_true⟩]
      refine ⟨isOccupied, ?_⟩
      rw [status_of_some found]
      rfl
    · rw [if_neg held] at swept
      rw [status_of_some swept, status_of_some found]
      rw [if_neg (fun both => both.2 both.1)]
      rfl

/-- The next notice is the first one owed, if any is owed. -/
theorem nextSlotNotice_cases :
    (∀ index slot, table.slotAt index = some slot → slot.notice = .quiet) ∧
        table.nextSlotNotice = (none, table) ∨
      ∃ index slot notice, table.slotAt index = some slot ∧
        slot.notice.drain.1 = some notice ∧
        table.nextSlotNotice =
          (some (notice, ⟨index, slot.generation⟩), table.modify index fun slot =>
            { slot with notice := slot.notice.drain.2 }) := by
  rw [nextSlotNotice]
  split
  next none =>
    refine .inl ⟨fun index slot found => ?_, rfl⟩
    have quiet := List.find?_eq_none.mp none index (List.mem_range.mpr (table.lt_capacity found))
    rw [found] at quiet
    simpa [Pending.isQuiet] using quiet
  next index first =>
    obtain ⟨slot, found, owes⟩ := table.find?_slot first
    have isOwed : slot.notice ≠ .quiet := by simpa [Pending.isQuiet] using owes
    obtain ⟨notice, drains⟩ : ∃ notice, slot.notice.drain.1 = some notice := by
      cases pending : slot.notice with
      | quiet => exact absurd pending isOwed
      | granted | revoked | peerGone | grantedThenPeerGone => exact ⟨_, rfl⟩
    refine .inr ⟨index, slot, notice, found, drains, ?_⟩
    rw [found]
    dsimp only
    rw [drains]
    rfl

/-- Every operation but the end of the process turns every slot as its answer says. -/
theorem apply_takes (posts : table.postsNotices = true) (operation : Operation)
    (goesOn : operation ≠ .clearAll) (index : Nat) :
    (table.apply operation).2.postsNotices = true ∧
      (table.turn operation index).Takes (table.status index)
        ((table.apply operation).2.status index) := by
  cases operation with dsimp only [turn, apply]
  | clearAll => exact absurd rfl goesOn
  | grant kind rights object extent => exact place_takes posts kind rights object extent .null index
  | derive handle asked backing =>
    obtain ⟨spent, spends, outcome⟩ := table.derive_spends handle asked backing
    obtain ⟨samePosts, same⟩ := spends.keeps
    rcases outcome with ⟨error, refused⟩ | ⟨_, _, _, _, _, _, made⟩
    · simp only [refused]
      exact ⟨samePosts.trans posts, same index⟩
    · simp only [made]
      rw [← same index]
      exact place_takes (samePosts.trans posts) _ _ _ _ _ index
  | grow backing =>
    obtain ⟨samePosts, same⟩ := (table.grow_spends backing).keeps
    exact ⟨samePosts.trans posts, same index⟩
  | revoke handle =>
    rcases table.revoke_cases handle with ⟨error, refused⟩ | ⟨condemned, condemns, swept⟩
    · simp only [refused, and_not_self, if_false]
      exact ⟨posts, rfl⟩
    · simp only [swept]
      obtain ⟨rfl, -⟩ := condemn_ok condemns
      exact sweep_takes posts (fun _ => occupied_of_descendants) index
  | relinquish handle =>
    rcases table.relinquish_cases handle with ⟨error, refused⟩ | ⟨condemned, condemns, swept⟩
    · simp only [refused, and_not_self, if_false]
      exact ⟨posts, rfl⟩
    simp only [swept]
    obtain ⟨rfl, slot, names⟩ := condemnOwn_ok condemns
    refine sweep_takes posts (fun place marked => ?_) index
    rcases (Condemned.holds_mark ..).mp marked with own | below
    · rw [own, status_of_some names.found]
      exact names.occupied
    · exact occupied_of_descendants below
  | refund handle bytes floor =>
    fun_cases refund with
    | case5 =>
      refine ⟨posts, ?_⟩
      apply status_modify
      · exact fun _ => rfl
      · exact fun _ => rfl
    | _ => exact ⟨posts, rfl⟩
  | noteMapping handle virt =>
    fun_cases noteMapping with
    | case4 =>
      refine ⟨posts, ?_⟩
      apply status_modify
      · exact fun _ => rfl
      · exact fun _ => rfl
    | _ => exact ⟨posts, rfl⟩
  | owesNotices => exact ⟨rfl, rfl⟩
  | notePeerGone handle =>
    rw [notePeerGone]
    rcases table.resolve_cases handle with ⟨error, refused, -⟩ | ⟨slot, names, resolves⟩
    · rw [refused]
      exact ⟨posts, rfl⟩
    rw [resolves]
    dsimp only
    rw [if_pos posts, Except.toOption]
    refine ⟨posts, ?_⟩
    by_cases here : handle.index = index
    · rw [if_pos (congrArg some here), ← here, status_of_some names.found,
        status_of_some (table.slotAt_modify_self names.found _)]
      exact ⟨names.occupied, congrArg (Status.mk · _) names.occupied⟩
    · rw [if_neg (fun same => here (Option.some.inj same)), status_modify_of_ne here]
      rfl
  | nextSlotNotice =>
    rcases table.nextSlotNotice_cases with ⟨-, none⟩ | ⟨place, slot, notice, found, drains, next⟩
    · rw [none]
      exact ⟨posts, rfl⟩
    rw [next]
    refine ⟨posts, ?_⟩
    dsimp only
    by_cases here : place = index
    · rw [if_pos here, ← here, status_of_some found,
        status_of_some (table.slotAt_modify_self found _)]
      exact ⟨Prod.ext drains rfl, rfl⟩
    · rw [if_neg here, status_modify_of_ne here]
      rfl

end Turns

section Owing

variable {table : Table}

theorem sum_modify
    (slots : List Slot)
    (index : Nat)
    (slot : Slot)
    (found : slots[index]? = some slot)
    (change : Slot → Slot)
    (owed : (change slot).notice.owed + 1 = slot.notice.owed) :
    ((slots.modify index change).map fun slot => slot.notice.owed).sum + 1 =
      (slots.map fun slot => slot.notice.owed).sum := by
  induction slots generalizing index with
  | nil => simp at found
  | cons head rest ih =>
    cases index with
    | zero =>
      obtain rfl : head = slot := by simpa using found
      simp only [List.modify_zero_cons, List.map_cons, List.sum_cons]
      omega
    | succ index =>
      have later := ih index (by simpa using found)
      simp only [List.modify_succ_cons, List.map_cons, List.sum_cons]
      omega

/-- Each notice that is delivered is one that was owed. -/
theorem slotsOwe_next {notice : Notice × Handle}
    (next : table.nextSlotNotice = (some notice, after)) : after.slotsOwe + 1 = table.slotsOwe := by
  rcases table.nextSlotNotice_cases with ⟨-, none⟩ | ⟨index, slot, kind, found, drains, isNext⟩
  · rw [none] at next
    cases next
  rw [isNext] at next
  cases next
  apply sum_modify table.slots index slot found
  cases pending : slot.notice with
  | quiet =>
    rw [pending] at drains
    cases drains
  | granted | revoked | peerGone | grantedThenPeerGone => rfl

/-- Draining delivers exactly what the slots owe. -/
theorem length_drained (fuel : Nat) (enough : table.slotsOwe ≤ fuel) :
    (table.drained fuel).length = table.slotsOwe := by
  induction fuel generalizing table with
  | zero => exact (Nat.le_zero.mp enough).symm
  | succ fuel ih =>
    rw [drained]
    rcases next : table.nextSlotNotice with ⟨_ | notice, after⟩
    · rcases table.nextSlotNotice_cases with ⟨quiet, -⟩ | ⟨_, _, _, _, _, isNext⟩
      · symm
        apply List.sum_eq_zero_iff_forall_eq_nat.mpr
        intro owed member
        obtain ⟨slot, inside, rfl⟩ := List.mem_map.mp member
        obtain ⟨index, found⟩ := List.mem_iff_getElem?.mp inside
        rw [quiet index slot found]
        rfl
      · rw [isNext] at next
        cases next
    · have fewer := slotsOwe_next next
      rw [List.length_cons, ih (by omega)]
      exact fewer

end Owing

end Table

/-- A control and the story of each slot. -/
structure Telling where
  control : Control
  stories : Nat → Story

namespace Telling

/-- A call, and how it turns the story of each slot. -/
def next (telling : Telling) (call : Control.Call) : Telling where
  control := telling.control.next call
  stories index :=
    match call with
    | .table operation => (telling.stories index).turn (telling.control.table.turn operation index)
    | _ => telling.stories index

/-- A table before its first placement, whose holder is now owed notices. -/
def start (table : Table) : Telling :=
  ⟨⟨table.owesNotices, .none, .none, .none⟩, fun _ => .empty⟩

/-- The stories tell of the slots, and the holder is owed notices. -/
structure Faithful (telling : Telling) : Prop where
  posts : telling.control.table.postsNotices = true
  tells : ∀ index, (telling.stories index).Tells (telling.control.table.status index)

/-- Every call but the end of the process keeps the stories faithful. -/
theorem Faithful.next {telling : Telling} (faithful : telling.Faithful) (call : Control.Call)
    (goesOn : call ≠ .table .clearAll) : (telling.next call).Faithful := by
  cases call with
  | table operation =>
    have takes := Table.apply_takes faithful.posts operation
      (fun same => goesOn (congrArg Control.Call.table same))
    have table : (telling.control.next (.table operation)).table =
        (telling.control.table.apply operation).2 := by
      cases operation with
      | clearAll => exact absurd rfl goesOn
      | grant | derive | grow | revoke | relinquish | refund | noteMapping | owesNotices
      | notePeerGone | nextSlotNotice => rfl
    refine ⟨?_, fun index => ?_⟩
    · exact (congrArg Table.postsNotices table).trans (takes 0).1
    · change (_ : Story).Tells ((telling.control.next (.table operation)).table.status index)
      rw [table]
      exact (faithful.tells index).turn (takes index).2
  | stopBy | pressureIs | generationIs | nextStopNotice => exact ⟨faithful.posts, faithful.tells⟩
  | nextGradeNotice =>
    have table : (telling.control.next .nextGradeNotice).table = telling.control.table := by
      rw [Control.next]
      split <;> rfl
    refine ⟨(congrArg Table.postsNotices table).trans faithful.posts, fun index => ?_⟩
    change (_ : Story).Tells ((telling.control.next .nextGradeNotice).table.status index)
    rw [table]
    exact faithful.tells index

/-- Notices are neither lost nor invented.  Over every run from a table before its first
placement: every slot's story tells of its occupancies as `Occupancy.Told` says, a call that
fills a slot finds it empty and owing nothing, and what is owed is what draining the slots
delivers and the words that have not been told. -/
theorem notices_neither_lost_nor_invented
    (table : Table)
    (unplaced : ∀ index, table.status index = ⟨false, .quiet⟩)
    (calls : List Control.Call)
    (goesOn : ∀ call ∈ calls, call ≠ .table .clearAll) :
    let telling := Runs.run next (start table) calls
    (∀ index, (telling.stories index).Tells (telling.control.table.status index)) ∧
      (∀ operation handle, operation ≠ .clearAll → (telling.control.table.apply operation).1 = some
        handle → telling.control.table.status handle.index = ⟨false, .quiet⟩) ∧
      ∀ fuel, telling.control.table.slotsOwe ≤ fuel →
        telling.control.owes = (telling.control.table.drained fuel).length +
          telling.control.stop.owed.toNat + telling.control.pressure.owed.toNat +
          telling.control.generation.owed.toNat := by
  intro telling
  have faithful : telling.Faithful := by
    refine Runs.invariant_of_along Faithful ?_ ?_ (Runs.along_of_forall goesOn (start table))
    · exact fun _ call allowed faithful => faithful.next call allowed
    · exact ⟨rfl, fun index => ⟨rfl, unplaced index⟩⟩
  refine ⟨faithful.tells, ?_, ?_⟩
  · intro operation handle goesOn issued
    have takes := (Table.apply_takes faithful.posts operation goesOn handle.index).2
    have placed : telling.control.table.turn operation handle.index = .placed := by
      cases operation with
      | grant | derive =>
        rw [Table.turn, issued]
        exact if_pos (by simp)
      | grow | revoke | relinquish | refund | noteMapping | owesNotices | notePeerGone
      | nextSlotNotice | clearAll => cases issued
    rw [placed] at takes
    exact takes.1
  · intro fuel enough
    rw [Table.length_drained fuel enough, Control.owes]
    omega

theorem status_empty (index : Nat) : Table.empty.status index = ⟨false, .quiet⟩ := by
  cases found : Table.empty.slotAt index with
  | none =>
    rw [Table.status, found]
    rfl
  | some slot =>
    have isFresh := List.eq_of_mem_replicate (List.mem_of_getElem? found)
    rw [Table.status_of_some found, isFresh]
    rfl

/-- A frame granted to a new process, told of, and noted gone. -/
theorem notices_neither_lost_nor_invented_granted :
    let telling := Runs.run next (start .empty)
      [.table (.grant .frame Rights.all 4096 4096), .table .nextSlotNotice,
        .table (.notePeerGone ⟨0, 1⟩)]
    (telling.stories 0).Tells (telling.control.table.status 0) :=
  (notices_neither_lost_nor_invented .empty status_empty _ (by simp)).1 0

end Telling

end FSystem.Kernel
