import FSystem.Kernel.Notices
import FSystem.Kernel.Untyped

/-!
# Promises a table does not keep

A derivation makes room before it retypes and places, so one that is refused may already
have bought a page of slots.  A notice is rebuilt from its slot when it is delivered, long
after the slot moved on to its next generation.
-/

namespace FSystem.Kernel.Table

open Abi

variable {table : Table} {handle : Handle} {asked : UInt8} {backing : Backing}

/-- No untyped region moved, the capacity is the same, and handles resolve as before. -/
def Untouched (before after : Table) : Prop :=
  (∀ index slot, before.slotAt index = some slot → slot.kind = some .untyped →
    ∃ now, after.slotAt index = some now ∧ now.object = slot.object ∧ now.extent = slot.extent) ∧
  after.capacity = before.capacity ∧ ∀ handle, after.resolve handle = before.resolve handle

theorem Untouched.refl (table : Table) : table.Untouched table :=
  ⟨fun _ slot found _ => ⟨slot, found, rfl, rfl⟩, rfl, fun _ => rfl⟩

/-- Retyping keeps the number of pages and the vacancies. -/
theorem retype_keeps (handle : Handle) : (table.retype handle).2.grown = table.grown ∧
    (table.retype handle).2.vacancy = table.vacancy := by
  rcases table.retype_cases handle with ⟨_, isSame⟩ | ⟨_, _, ⟨_, _, _, isSame⟩ | ⟨_, _, isSame⟩⟩
  · rw [isSame]
    exact ⟨rfl, rfl⟩
  · rw [isSame]
    exact ⟨rfl, rfl⟩
  rw [isSame]
  refine ⟨rfl, congrArg (List.find? · _) (funext fun index => ?_)⟩
  rw [slotAt_modify, Option.any_map]
  congr
  funext slot
  split
  · unfold Slot.vacant Slot.occupied
    rw [slot.charged_kind, slot.charged_generation, charged_notice]
  · rfl

/-- What is bought to make room stays bought. -/
theorem grown_derive (allowed : table.authorises handle asked = true) :
    (table.derive handle asked backing).2.grown = (table.makeRoom backing).2.grown := by
  rw [derive_authorised allowed]
  split
  · rfl
  split
  · exact (retype_keeps handle).1
  rename_i kind object extent _
  rcases ((table.makeRoom backing).2.retype handle).2.place_cases kind asked object extent handle
    with ⟨_, isSame⟩ | ⟨_, _, _, _, _, _, isSame⟩
  · rw [isSame]
    exact (retype_keeps handle).1
  · rw [isSame]
    exact (retype_keeps handle).1

/-- Room is made without buying a page: a slot is vacant, the table may not grow, or no slot can
pay from memory in the kernel's reach. -/
def Spares (table : Table) (backing : Backing) : Prop :=
  table.vacancy.isSome ∨ table.grown = maxPages ∨ table.account = none ∨
    ∃ account slot, table.account = some account ∧ table.slotAt account = some slot ∧
      backing slot.object = none

/-- When no page is bought. -/
theorem grown_makeRoom_iff :
    (table.makeRoom backing).2.grown = table.grown ↔ table.Spares backing := by
  unfold makeRoom grow Spares
  cases table.vacancy with
  | some index => simp
  | none =>
    by_cases room : table.grown < maxPages
    swap
    · have all := table.grown_le.antisymm (Nat.le_of_not_lt room)
      simp [all]
    cases found : table.account with
    | none => simp [room]
    | some account =>
      obtain ⟨slot, present, -⟩ := table.find?_slot found
      cases reached : backing slot.object <;>
        simp [room, room.ne, present, reached, modify, withPage]

/-- A refused derivation costs nothing exactly when it was not authorised or no page is bought
for it. -/
theorem refused_derivation_is_free_iff
    {error : CapError}
    (refused : (table.derive handle asked backing).1 = .error error) :
    table.Untouched (table.derive handle asked backing).2 ↔
      (table.authorises handle asked = true → table.Spares backing) := by
  rw [← grown_makeRoom_iff]
  by_cases allowed : table.authorises handle asked = true
  swap
  · rw [derive_unauthorised allowed]
    exact ⟨fun _ isAllowed => absurd isAllowed allowed, fun _ => .refl table⟩
  constructor
  · rintro ⟨-, same, -⟩ -
    rw [← grown_derive allowed]
    unfold capacity slotsPerPage frameSize at same
    omega
  intro unbought
  rcases table.derive_cases handle asked backing with ⟨_, isSame⟩ |
    ⟨_, _, _, made, outcome⟩
  · rw [isSame]
    exact .refl table
  rcases table.makeRoom_cases backing with isRefused | ⟨roomy, kept⟩ | ⟨_, _, bought⟩
  · rw [isRefused] at made
    cases made
  · rw [kept] at outcome
    rcases outcome with ⟨_, isSame⟩ | ⟨kind, object, extent, -, isSame⟩
    · rw [isSame]
      exact .refl table
    -- the vacant slot is still there, so placing is not refused
    rcases (table.retype handle).2.place_cases kind asked object extent handle with
      ⟨full, -⟩ | ⟨_, _, _, _, _, _, placed⟩
    · rw [(retype_keeps handle).2] at full
      rw [full] at roomy
      cases roomy
    · rw [isSame, placed] at refused
      cases refused
  · have more := unbought allowed
    rw [bought] at more
    exact absurd more (Nat.succ_ne_self _)

/-- A full table: one frame's worth of untyped memory, and frames. -/
def full : Table :=
  empty.run (.grant .untyped Rights.all 0 frameSize ::
    List.replicate 31 (.grant .frame Rights.all 0 frameSize))

theorem refused_derivation_is_free_unbacked :
    full.Untouched (full.derive ⟨1, 1⟩ Rights.all fun _ => none).2 := by
  have refused : (full.derive ⟨1, 1⟩ Rights.all fun _ => none).1 = .error .quotaExhausted := by
    decide +kernel
  have paying : full.account = some 0 := by decide +kernel
  have present : (full.slotAt 0).isSome = true := by decide +kernel
  obtain ⟨slot, found⟩ := Option.isSome_iff_exists.mp present
  exact (refused_derivation_is_free_iff refused).mpr fun _ =>
    .inr (.inr (.inr ⟨0, slot, paying, found, rfl⟩))

/-- The page that makes room takes the frame that was to be derived. -/
theorem refused_derivation_buys_a_page :
    (full.derive ⟨0, 1⟩ Rights.all some).1 = .error .quotaExhausted ∧
      ¬full.Untouched (full.derive ⟨0, 1⟩ Rights.all some).2 :=
  ⟨by decide +kernel, fun same => absurd same.2.1 (by decide +kernel)⟩

/-- Every revoked notice delivered names a handle that was live, and is revoked ever after. -/
def NamesTheWithdrawn (operations : List Operation) : Prop :=
  ∀ earlier handle, earlier ++ [.nextSlotNotice] <+: operations →
    (empty.run earlier).nextSlotNotice.1 = some (.revoked, handle) →
      (∃ start, start <+: earlier ∧ ∃ slot, (empty.run start).Names handle slot) ∧
        ∀ later, ((empty.run earlier).nextSlotNotice.2.run later).inspect handle = .error .revoked

/-- A handle of the generation its slot is at does not answer as revoked. -/
theorem inspect_current {index : Nat} {slot : Slot} (found : table.slotAt index = some slot) :
    table.inspect ⟨index, slot.generation⟩ ≠ .error .revoked := by
  unfold inspect resolve
  simp only [found, ne_eq, not_true_eq_false, if_false]
  split_ifs <;> cases kind : slot.kind <;> simp [found, kind]

/-- The first slot that owes a notice owes that what it held was revoked. -/
def OwesRevoked (table : Table) : Prop :=
  ∃ index slot, table.slotAt index = some slot ∧ slot.notice = .revoked ∧
    ∀ before < index, ∀ other, table.slotAt before = some other → other.notice = .quiet

/-- A revoked notice is delivered exactly when the first slot that owes one owes it. -/
theorem delivers_revoked_iff :
    (∃ handle, table.nextSlotNotice.1 = some (.revoked, handle)) ↔ table.OwesRevoked := by
  rw [nextSlotNotice]
  constructor
  · rintro ⟨handle, delivers⟩
    split at delivers
    · cases delivers
    next index first =>
      obtain ⟨slot, found, -⟩ := table.find?_slot first
      rw [found] at delivers
      refine ⟨index, slot, found, ?_, fun before earlier other present => ?_⟩
      · cases pending : slot.notice <;> simp_all [Pending.drain]
      · have quiet := (List.find?_range_eq_some.mp first).2.2 before earlier
        simpa [present, Pending.isQuiet] using quiet
  · rintro ⟨index, slot, found, revoked, quiet⟩
    have first : (List.range table.capacity).find? (fun index =>
        (table.slotAt index).any fun slot => !slot.notice.isQuiet) = some index := by
      refine List.find?_range_eq_some.mpr ⟨?_, List.mem_range.mpr (table.lt_capacity found), ?_⟩
      · simp [found, revoked, Pending.isQuiet]
      · intro before earlier
        cases present : table.slotAt before with
        | none => rfl
        | some other => simp [quiet before earlier other present, Pending.isQuiet]
    simp [first, found, revoked, Pending.drain]

/-- A revoked notice names the generation its slot moved on to, so a run names what was
withdrawn exactly when no notice is asked of it while a revoked one is the first owed. -/
theorem revoked_notices_name_the_withdrawn_iff (operations : List Operation) :
    NamesTheWithdrawn operations ↔ ∀ earlier, earlier ++ [.nextSlotNotice] <+: operations →
      ¬(empty.run earlier).OwesRevoked := by
  simp only [← delivers_revoked_iff]
  refine ⟨fun names earlier begins ⟨handle, delivers⟩ => ?_, fun none earlier handle begins
    delivers => absurd ⟨handle, delivers⟩ (none earlier begins)⟩
  have answers := (names earlier handle begins delivers).2 []
  rcases (empty.run earlier).nextSlotNotice_cases with ⟨-, none⟩ | ⟨_, slot, _, found, -, next⟩
  · rw [none] at delivers
    cases delivers
  rw [next] at delivers answers
  cases delivers
  exact inspect_current (slotAt_modify_self _ found _) answers

/-- A frame is granted and announced, and then given up. -/
def givenUp : List Operation :=
  [.owesNotices, .grant .frame Rights.all 0 frameSize, .nextSlotNotice, .relinquish ⟨0, 1⟩]

/-- What was withdrawn at its first generation is announced at its second. -/
theorem revoked_notice_names_the_next_generation :
    ¬NamesTheWithdrawn (givenUp ++ [.nextSlotNotice]) := by
  intro names
  have answers := (names givenUp ⟨0, 2⟩ List.prefix_rfl (by decide +kernel)).2 []
  exact absurd answers (by decide +kernel)

end FSystem.Kernel.Table
