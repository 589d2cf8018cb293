import FSystem.Kernel.Process
import FSystem.Kernel.Derivation

/-!
# Revocation takes the memory back

What holds between the page tables and the capability slots over a process's calls, and
the call after which it stops holding: a mapping is made before it is recorded, and a
capability that records one already refuses the record.
-/

namespace FSystem.Kernel

open Abi Paging Function List

/-! ## What a derivation does to the slots -/

/-- The same capability, which may have paid for a frame if it is untyped. -/
structure Slot.Carries (old new : Slot) : Prop where
  kind : new.kind = old.kind
  generation : new.generation = old.generation
  mapped : new.mapped = old.mapped
  object : old.kind ≠ some .untyped → new.object = old.object

theorem Slot.Carries.refl (slot : Slot) : slot.Carries slot := ⟨rfl, rfl, rfl, fun _ => rfl⟩

theorem Slot.Carries.trans {first second third : Slot} (early : first.Carries second)
    (late : second.Carries third) : first.Carries third where
  kind := late.kind.trans early.kind
  generation := late.generation.trans early.generation
  mapped := late.mapped.trans early.mapped
  object typed := (late.object (by rwa [early.kind])).trans (early.object typed)

theorem Slot.Carries.occupied {old new : Slot} (carries : old.Carries new) :
    new.occupied = old.occupied := by
  unfold Slot.occupied
  rw [carries.kind]

variable {slot : Slot} {condemned : Condemned} {handle : Handle}

theorem Slot.carries_charged (untyped : slot.kind = some .untyped) : slot.Carries slot.charged where
  kind := slot.charged_kind
  generation := slot.charged_generation
  mapped := by
    unfold charged
    split <;> rfl
  object typed := absurd untyped typed

namespace Table

/-- Every capability is carried over; a new one records no mapping, and names no address space
but its own. -/
structure Evolves (root : Nat) (before after : Table) : Prop where
  forth : ∀ index slot, before.slotAt index = some slot → slot.occupied = true →
    ∃ new, after.slotAt index = some new ∧ slot.Carries new
  back : ∀ index new, after.slotAt index = some new →
    (∃ slot, before.slotAt index = some slot ∧ slot.Carries new) ∨
      new.mapped = notMapped ∧ (new.kind = some .addressSpace → new.object = root)

variable {root : Nat} {before after : Table} (table : Table)

theorem Evolves.refl : table.Evolves root table :=
  ⟨fun _ slot found _ => ⟨slot, found, .refl slot⟩,
    fun _ slot found => .inl ⟨slot, found, .refl slot⟩⟩

theorem Evolves.trans {last : Table} (early : before.Evolves root after)
    (late : after.Evolves root last) : before.Evolves root last where
  forth index slot found occupied := by
    obtain ⟨middle, there, carries⟩ := early.forth index slot found occupied
    obtain ⟨new, present, carried⟩ :=
      late.forth index middle there (carries.occupied.trans occupied)
    exact ⟨new, present, carries.trans carried⟩
  back index new found := by
    rcases late.back index new found with ⟨middle, there, carries⟩ | fresh
    · rcases early.back index middle there with ⟨slot, present, carried⟩ | ⟨unmapped, own⟩
      · exact .inl ⟨slot, present, carried.trans carries⟩
      · refine .inr ⟨carries.mapped.trans unmapped, fun space => ?_⟩
        have kind : middle.kind = some .addressSpace := carries.kind.symm.trans space
        rw [carries.object (by rw [kind]; decide)]
        exact own kind
    · exact .inr fresh

theorem evolves_withPage (room : before.grown < maxPages) :
    before.Evolves root (before.withPage room) := by
  refine ⟨fun index slot found _ =>
    ⟨slot, before.slotAt_withPage_of_some room found, .refl slot⟩, fun index new found => ?_⟩
  rcases before.slotAt_withPage room found with there | ⟨_, rfl⟩
  · exact .inl ⟨new, there, .refl new⟩
  · exact .inr ⟨rfl, fun space => by cases space⟩

theorem evolves_charged {index : Nat} (found : before.slotAt index = some slot)
    (untyped : slot.kind = some .untyped) :
    before.Evolves root (before.modify index Slot.charged) := by
  have rewrites := Rewrites.modify before index Slot.charged
  have carries : ∀ other old, before.slotAt other = some old →
      old.Carries (if index = other then old.charged else old) := by
    intro other old there
    split_ifs with here
    · subst here
      obtain rfl := Option.mem_unique found there
      exact Slot.carries_charged untyped
    · exact .refl old
  refine ⟨fun other old there _ => ⟨_, rewrites.after there, carries other old there⟩,
    fun other new there => ?_⟩
  obtain ⟨old, held, rfl⟩ := rewrites.before there
  exact .inl ⟨old, held, carries other old held⟩

variable {kind : CapType}

theorem evolves_place
    {object : Nat}
    (own : kind = .addressSpace → object = root)
    (rights : UInt8)
    (extent : Nat)
    (parent : Handle) :
    before.Evolves root (before.place kind rights object extent parent).2 := by
  rcases before.place_cases kind rights object extent parent with
    ⟨_, refused⟩ | ⟨index, slot, found, empty, -, -, placed⟩
  · rw [refused]
    exact .refl before
  rw [placed]
  refine ⟨fun other old there occupied => ⟨old, ?_, .refl old⟩, fun other new there => ?_⟩
  · rw [slotAt_modify_of_ne, there]
    rintro rfl
    rw [Option.mem_unique found there, occupied] at empty
    cases empty
  · rcases before.slotAt_modify_cases there with ⟨old, -, -, rfl⟩ | ⟨-, held⟩
    · exact .inr ⟨rfl, fun space => own (Option.some.inj space)⟩
    · exact .inl ⟨new, held, .refl new⟩

/-- Spending loses no capability. -/
theorem Spends.evolves (spends : before.Spends after) : before.Evolves root after := by
  induction spends with
  | refl => exact .refl before
  | withPage spends room ih => exact ih.trans (evolves_withPage room)
  | charged spends found untyped ih => exact ih.trans (evolves_charged found untyped)

/-- The address spaces a table names are all the one at `root`. -/
def OwnSpaces (root : Nat) (table : Table) : Prop :=
  ∀ index slot, table.slotAt index = some slot → slot.kind = some .addressSpace → slot.object = root

theorem OwnSpaces.evolves (own : before.OwnSpaces root) (evolves : before.Evolves root after) :
    after.OwnSpaces root := by
  intro index new found space
  rcases evolves.back index new found with ⟨slot, there, carries⟩ | ⟨_, named⟩
  · have kind : slot.kind = some .addressSpace := carries.kind.symm.trans space
    rw [carries.object (by rw [kind]; decide)]
    exact own index slot there kind
  · exact named space

/-- What retyping produces names the address space it should if it names one. -/
theorem OwnSpaces.retype (own : before.OwnSpaces root) {object extent : Nat}
    (typed : (before.retype handle).1 = .ok (kind, object, extent)) (space : kind = .addressSpace) :
    object = root := by
  rcases before.retype_cases handle with
    ⟨error, refused⟩ | ⟨slot, names, ⟨kind, present, _, copied⟩ | ⟨_, _, carved⟩⟩
  · rw [refused] at typed
    cases typed
  · rw [copied] at typed
    cases typed
    exact own handle.index slot names.found (present.trans (congrArg some space))
  · rw [carved] at typed
    cases typed
    cases space

/-- A derivation carries every capability over, and what it adds records no mapping. -/
theorem OwnSpaces.derive (own : before.OwnSpaces root) (handle : Handle) (asked : UInt8)
    (backing : Backing) : before.Evolves root (before.derive handle asked backing).2 := by
  have spends := before.makeRoom_spends backing
  rcases before.derive_cases handle asked backing with
    ⟨error, refused⟩ | ⟨_, _, _, _, ⟨error, refused⟩ | ⟨kind, object, extent, typed, placed⟩⟩
  · rw [refused]
    exact .refl before
  · rw [refused]
    exact spends.evolves
  · rw [placed]
    exact (spends.retype _ handle).evolves.trans
      (evolves_place ((own.evolves spends.evolves).retype typed) asked extent handle)

/-! ## What a revocation unmaps -/

/-- The addresses condemned capabilities record, from the slot the caller has read to. -/
def mappings (table : Table) (condemned : Condemned) : List Nat :=
  (range' condemned.cursor (table.capacity - condemned.cursor)).filterMap fun index =>
    if condemned.holds index then (table.slotAt index).bind Slot.mapping else none

/-- The next mapping is the first of those left, and passing it leaves the rest. -/
theorem nextMapping_spec (condemned : Condemned) :
    table.mappings condemned = [] ∧ (table.nextMapping condemned).1 = none ∨
      ∃ page passed, table.nextMapping condemned = (some page, passed) ∧
        table.mappings condemned = page :: table.mappings passed := by
  unfold nextMapping
  generalize left : table.capacity - condemned.cursor = fuel
  induction fuel generalizing condemned with
  | zero =>
    refine .inl ⟨?_, rfl⟩
    unfold mappings
    rw [left]
    rfl
  | succ fuel ih =>
    have inside : condemned.cursor < table.capacity := by omega
    have passed := ih { condemned with cursor := condemned.cursor + 1 } (by dsimp only; omega)
    have listed : table.mappings condemned =
        (if condemned.holds condemned.cursor then
          (table.slotAt condemned.cursor).bind Slot.mapping else none).toList ++
        table.mappings { condemned with cursor := condemned.cursor + 1 } := by
      unfold mappings
      rw [left, show table.capacity - (condemned.cursor + 1) = fuel by omega,
        range'_succ, filterMap_cons]
      split <;> rename_i found <;> rw [found] <;> rfl
    unfold nextMappingIn
    rw [if_pos inside, listed]
    cases found : (if condemned.holds condemned.cursor then
        (table.slotAt condemned.cursor).bind Slot.mapping else none) with
    | none => simpa using passed
    | some page => exact .inr ⟨page, _, rfl, rfl⟩

theorem length_mappings_le (condemned : Condemned) :
    (table.mappings condemned).length ≤ table.capacity := by
  refine (length_filterMap_le _ _).trans ?_
  rw [length_range']
  omega

/-- What is read is what is condemned and mapped. -/
theorem mem_mappings (unread : condemned.cursor = 0) (page : Nat) :
    page ∈ table.mappings condemned ↔
      ∃ index slot, condemned.holds index = true ∧ table.slotAt index = some slot ∧
        slot.mapped ≠ notMapped ∧ slot.mapped = page := by
  unfold mappings
  rw [unread, mem_filterMap]
  constructor
  · rintro ⟨index, _, found⟩
    split_ifs at found with held
    obtain ⟨slot, present, here⟩ := Option.bind_eq_some_iff.1 found
    unfold Slot.mapping at here
    split_ifs at here with unmapped
    exact ⟨index, slot, held, present, unmapped, Option.some.inj here⟩
  · rintro ⟨index, slot, held, present, mapped, rfl⟩
    refine ⟨index, ?_, ?_⟩
    · have inside := table.lt_capacity present
      rw [mem_range'_1]
      omega
    · rw [if_pos held, present]
      exact if_neg mapped

end Table

namespace Process

variable {state : State} {process : Process}

/-- Withdraw some mappings, one after another. -/
def withdrawAll (state : State) : List Nat → Process → Option (Except CapError Unit × Process)
  | [], process => some (.ok (), process)
  | page :: rest, process =>
    match process.withdraw state page with
    | none => none
    | some (.error error, process) => some (.error error, process)
    | some (.ok (), process) => withdrawAll state rest process

variable {after : Process} {virt : Nat}

theorem withdraw_table {page : Nat} {outcome : Except CapError Unit}
    (withdrawn : process.withdraw state page = some (outcome, after)) :
    after.table = process.table := by
  unfold withdraw at withdrawn
  split_ifs at withdrawn
  · cases withdrawn
    rfl
  · split at withdrawn
    · cases withdrawn
    · cases withdrawn
      rfl

/-- Draining withdraws the mappings of the condemned capabilities. -/
theorem drain_eq {fuel : Nat} (enough : (process.table.mappings condemned).length < fuel) :
    drain state fuel condemned process =
      withdrawAll state (process.table.mappings condemned) process := by
  induction fuel generalizing condemned process with
  | zero => cases enough
  | succ fuel ih =>
    unfold drain
    rcases process.table.nextMapping_spec condemned with
      ⟨empty, none⟩ | ⟨page, passed, next, listed⟩
    · rw [empty]
      generalize process.table.nextMapping condemned = next at none
      obtain ⟨_, _⟩ := next
      obtain rfl := none
      rfl
    · rw [next, listed]
      unfold withdrawAll
      dsimp only
      rw [listed, length_cons] at enough
      cases withdrawn : process.withdraw state page with
      | none => rfl
      | some result =>
        obtain ⟨outcome, after⟩ := result
        cases outcome with
        | error error => rfl
        | ok done =>
          have same := withdraw_table withdrawn
          dsimp only
          rw [ih (by rw [same]; omega), same]

/-- A page-aligned address of the lower half. -/
def IsPage (virt : Nat) : Prop := virt < 2 ^ 47 ∧ virt % 4096 = 0

theorem path_ne {other : Nat} (page : IsPage virt) (also : IsPage other) (different : virt ≠ other)
    : path virt ≠ path other :=
  fun same => different (path_injective page.1 also.1 page.2 also.2 same)

/-- Withdrawing distinct mapped pages takes exactly those out of the address space. -/
theorem withdrawAll_spec (running : ¬(state.frames = 0 ∨ state.root = 0)) {pages : List Nat}
    (each : ∀ page ∈ pages, IsPage page ∧ Mapped (process.spaces state.root) page)
    (distinct : pages.Nodup) :
    ∃ after, withdrawAll state pages process = some (.ok (), after) ∧
      after.table = process.table ∧
      (∀ page ∈ pages, ¬Mapped (after.spaces state.root) page) ∧
      ∀ virt, IsPage virt → virt ∉ pages →
        leafAt (after.spaces state.root) virt = leafAt (process.spaces state.root) virt := by
  induction pages generalizing process with
  | nil => exact ⟨process, rfl, rfl, fun _ member => absurd member not_mem_nil, fun _ _ _ => rfl⟩
  | cons page rest ih =>
    obtain ⟨fresh, distinct⟩ := List.nodup_cons.1 distinct
    obtain ⟨isPage, mapped⟩ := each page mem_cons_self
    obtain ⟨built, unmapped, gone, others⟩ := unmapUserLive_of_mapped isPage.1 mapped
    have withdrawn : process.withdraw state page = some (.ok (),
        { process with spaces := update process.spaces state.root built }) := by
      unfold withdraw
      rw [if_neg running, unmapped]
    have untouched : ∀ virt, IsPage virt → virt ≠ page →
        leafAt built virt = leafAt (process.spaces state.root) virt :=
      fun virt also different => others virt (path_ne isPage also (Ne.symm different))
    obtain ⟨after, ends, table, cleared, kept⟩ :=
      @ih { process with spaces := update process.spaces state.root built }
        (fun other member => by
          obtain ⟨also, there⟩ := each other (mem_cons_of_mem _ member)
          refine ⟨also, ?_⟩
          dsimp only
          rw [update_self]
          unfold Mapped
          rw [untouched other also (fun same => fresh (same ▸ member))]
          exact there)
        distinct
    dsimp only at table kept
    rw [update_self] at kept
    refine ⟨after, ?_, table, fun other member => ?_, fun virt also absent => ?_⟩
    · unfold withdrawAll
      rw [withdrawn]
      exact ends
    · rcases mem_cons.1 member with rfl | member
      · unfold Mapped
        rw [kept other isPage fresh]
        exact gone
      · exact cleared other member
    · rw [mem_cons, not_or] at absent
      rw [kept virt also absent.2, untouched virt also absent.1]

theorem descendants_cursor (table : Table) (handle : Handle) :
    (table.descendants handle).cursor = 0 := by
  have pass (indices : List Nat) (progress : Condemned × Bool) :
      (indices.foldl (table.descend handle) progress).1.cursor = progress.1.cursor := by
    refine indices.foldlRecOn (motive := fun next : Condemned × Bool =>
      next.1.cursor = progress.1.cursor) _ rfl fun next same index _ => ?_
    unfold Table.descend
    split_ifs <;> exact same
  have loop : ∀ (fuel : Nat) (doomed : Condemned),
      (table.descendantsLoop handle fuel doomed).cursor = doomed.cursor := by
    intro fuel
    induction fuel with
    | zero => exact fun _ => rfl
    | succ fuel ih =>
      intro doomed
      unfold Table.descendantsLoop
      dsimp only
      split_ifs
      · rw [ih]
        exact pass _ _
      · exact pass _ _
  exact loop _ _

/-- A mapping that is authorised is of a frame the process holds, into a space it holds. -/
theorem authorise_ok {frame space : Handle} {second : Nat} {request : Request}
    (allowed : process.authorise state frame space second = .ok request) :
    request.frame = frame ∧ request.virt % 4096 = 0 ∧
      (∃ slot, process.table.Names frame slot ∧ slot.kind = some .frame ∧
        request.phys = slot.object) ∧
      ∃ target, process.table.Names space target ∧ target.kind = some .addressSpace ∧
        request.root = target.object := by
  revert allowed
  fun_cases authorise state process frame space second with
  | case8 virt low _ _ object held target entered =>
    rintro ⟨⟩
    obtain ⟨slot, names, typed, rfl⟩ := process.table.invoke_ok held
    obtain ⟨other, named, spaced, rfl⟩ := process.table.invoke_ok entered
    exact ⟨rfl, Nat.mul_mod_left .., ⟨slot, names, typed, rfl⟩, ⟨other, named, spaced, rfl⟩⟩
  | _ => nofun

theorem noteMapping_of_unmapped {table : Table} (names : table.Names handle slot)
    (unmapped : slot.mapped = notMapped) (virt : Nat) :
    table.noteMapping handle virt =
      (.ok (), table.modify handle.index fun slot => { slot with mapped := virt }) := by
  unfold Table.noteMapping
  simp only [names.resolve, names.found, unmapped]
  exact if_neg (not_not.2 rfl)

/-! ## Mappings and records -/

/-- A page a call created: the capability it was made on, the top-level table, the address. -/
structure Made where
  through : Handle
  root : Nat
  virt : Nat
  deriving DecidableEq

/-- The pages a call creates, whether or not it is refused afterwards. -/
def created (state : State) (process : Process) : Call → List Made
  | .mapFrame first second =>
    match process.authorise state (lowHandle first) (highHandle first) second.toNat with
    | .error _ => []
    | .ok request =>
      match process.build state request with
      | .error _ => []
      | .ok _ => [⟨request.frame, request.root, request.virt⟩]
  | _ => []

/-- A capability that resolves records the address, and the page there is its frame's. -/
def Recorded (state : State) (process : Process) (root virt : Nat) : Prop :=
  ∃ (handle : Handle) (slot : Slot) (kind : UserPage),
    process.table.Names handle slot ∧ slot.kind = some .frame ∧
    slot.mapped = virt ∧
    leafAt (process.spaces root) virt = some (slot.object ||| kind.flags state.nx)

/-- What holds between a process's slots and its page tables. -/
structure Kept (state : State) (process : Process) (made : List Made) : Prop where
  sound : process.table.Sound
  formed : process.table.Formed
  own : process.table.OwnSpaces state.root
  /-- What a slot records is there: a page of the frame it names. -/
  recorded : ∀ index slot, process.table.slotAt index = some slot → slot.mapped ≠ notMapped →
    slot.kind = some .frame ∧ IsPage slot.mapped ∧
      ∃ kind : UserPage, leafAt (process.spaces state.root) slot.mapped =
        some (slot.object ||| kind.flags state.nx)
  /-- No two slots record one page. -/
  single : ∀ index other slot also, process.table.slotAt index = some slot →
    process.table.slotAt other = some also → slot.mapped ≠ notMapped →
    slot.mapped = also.mapped → index = other
  /-- What a call created is in the process's own space; its capability records it while that
  resolves, and some slot while it is there. -/
  created : ∀ mapping ∈ made, mapping.root = state.root ∧ IsPage mapping.virt ∧
    (process.table.arena.Live (Table.nameOf mapping.through) ∨
      process.table.arena.Dead (Table.nameOf mapping.through)) ∧
    (∀ slot, process.table.Names mapping.through slot → slot.mapped = mapping.virt) ∧
    (Mapped (process.spaces state.root) mapping.virt →
      ∃ index slot, process.table.slotAt index = some slot ∧ slot.mapped = mapping.virt)

theorem IsPage.ne_notMapped (page : IsPage virt) : virt ≠ notMapped := by
  rintro rfl
  exact absurd page.1 (by decide)

variable {made : List Made}

section

variable (kept : Kept state process made)

include kept

variable {mapping : Made}

theorem Kept.occupied {index : Nat} (found : process.table.slotAt index = some slot)
    (mapped : slot.mapped ≠ notMapped) : slot.occupied = true := by
  rw [Slot.occupied, (kept.recorded index slot found mapped).1]
  rfl

/-- A page that is there is recorded. -/
theorem Kept.is_recorded (member : mapping ∈ made)
    (there : Mapped (process.spaces mapping.root) mapping.virt) :
    Recorded state process mapping.root mapping.virt := by
  obtain ⟨root, page, _, _, recorded⟩ := kept.created mapping member
  rw [root] at there ⊢
  obtain ⟨index, slot, found, mapped⟩ := recorded there
  obtain ⟨frame, _, kind, leaf⟩ := kept.recorded index slot found (mapped ▸ page.ne_notMapped)
  have occupied := kept.occupied found (mapped ▸ page.ne_notMapped)
  refine ⟨⟨index, slot.generation⟩, slot, kind, ⟨found, ?_, rfl, occupied⟩, frame, mapped, ?_⟩
  · exact Nat.ne_of_gt (kept.sound.slots index slot found).pos
  · rw [← mapped]
    exact leaf

/-! ## Deriving -/

/-- What is kept when the slots that record a page are carried over with it, but for slots
that are emptied and whose pages are taken out; one slot may record a page that none did. -/
theorem Kept.carry
    {issued : Option Handle}
    (noted : Nat)
    (moves : process.table.Moves issued after.table)
    (formed : after.table.Formed)
    (own : after.table.OwnSpaces state.root)
    (forth : ∀ index slot, process.table.slotAt index = some slot → slot.mapped ≠ notMapped →
      ∃ new, after.table.slotAt index = some new ∧
        (slot.Carries new ∨ new.occupied = false ∧ ¬Mapped (after.spaces state.root) slot.mapped))
    (back : ∀ index new, after.table.slotAt index = some new → new.mapped ≠ notMapped →
      (∃ slot, process.table.slotAt index = some slot ∧ slot.Carries new ∧
        leafAt (after.spaces state.root) slot.mapped =
          leafAt (process.spaces state.root) slot.mapped) ∨
      index = noted ∧
        (∀ other old, process.table.slotAt other = some old → old.mapped ≠ new.mapped) ∧
        new.kind = some .frame ∧ IsPage new.mapped ∧ ∃ kind : UserPage,
          leafAt (after.spaces state.root) new.mapped = some (new.object ||| kind.flags state.nx))
    (there : ∀ virt, IsPage virt → Mapped (after.spaces state.root) virt →
      Mapped (process.spaces state.root) virt ∨
        ∃ index new, after.table.slotAt index = some new ∧ new.mapped = virt) :
    Kept state after made := by
  refine ⟨moves.sound, formed, own, fun index new found mapped => ?_,
    fun index other new also found present mapped same => ?_, fun mapping member => ?_⟩
  · rcases back index new found mapped with ⟨slot, old, carries, leaf⟩ | ⟨_, _, records⟩
    · rw [carries.mapped] at mapped ⊢
      rw [leaf]
      obtain ⟨frame, page, kind, leaf⟩ := kept.recorded index slot old mapped
      rw [carries.kind, carries.object (by rw [frame]; decide)]
      exact ⟨frame, page, kind, leaf⟩
    · exact records
  · rcases back index new found mapped with ⟨slot, old, carries, _⟩ | ⟨here, fresh, _⟩ <;>
      rcases back other also present (same ▸ mapped) with
        ⟨second, older, carried, _⟩ | ⟨last, unrecorded, _⟩
    · rw [carries.mapped] at mapped same
      rw [carried.mapped] at same
      exact kept.single index other slot second old older mapped same
    · exact absurd (carries.mapped.symm.trans same) (unrecorded index slot old)
    · exact absurd (carried.mapped.symm.trans same.symm) (fresh other second older)
    · exact here.trans last.symm
  · obtain ⟨root, page, settled, records, recorded⟩ := kept.created mapping member
    refine ⟨root, page, settled.elim moves.live_or_dead fun dead => .inr (moves.dead dead),
      fun new names => ?_, fun isMapped => ?_⟩
    · -- A dead handle is not issued again, so the one that resolves now was live.
      rcases settled with ⟨⟨slot, found, occupied⟩, current⟩ | dead
      · have mapped := records slot
          ⟨found, names.issuable, (Table.generation_of_some found).symm.trans current, occupied⟩
        obtain ⟨other, present, carried⟩ := forth _ slot found (mapped ▸ page.ne_notMapped)
        obtain rfl := Option.mem_unique present names.found
        rcases carried with carries | ⟨empty, _⟩
        · exact carries.mapped.trans mapped
        · rw [names.occupied] at empty
          cases empty
      · refine absurd ?_ (moves.dead dead).not_live
        exact ⟨⟨new, names.found, names.occupied⟩,
          (Table.generation_of_some names.found).trans names.current⟩
    · rcases there _ page isMapped with before | now
      · obtain ⟨index, slot, found, mapped⟩ := recorded before
        obtain ⟨new, present, carries | ⟨_, gone⟩⟩ :=
          forth index slot found (mapped ▸ page.ne_notMapped)
        · exact ⟨index, new, present, carries.mapped.trans mapped⟩
        · exact absurd (mapped ▸ isMapped) gone
      · exact now

/-- Deriving keeps the records. -/
theorem Kept.derive (handle : Handle)
    (asked : Nat) : Kept state (process.derive state handle asked).2 made := by
  unfold Process.derive
  split_ifs
  · exact kept
  · exact kept
  · have evolves := kept.own.derive handle (UInt8.ofNat asked) direct
    refine kept.carry 0 (kept.sound.derive_moves handle _ direct)
      (kept.formed.derive kept.sound handle _ direct) (kept.own.evolves evolves)
      (fun index slot found mapped => ?_) (fun index new found mapped => .inl ?_)
      fun _ _ mapped => .inl mapped
    · obtain ⟨new, present, carries⟩ :=
        evolves.forth index slot found (kept.occupied found mapped)
      exact ⟨new, present, .inl carries⟩
    · rcases evolves.back index new found with ⟨slot, old, carries⟩ | ⟨unmapped, _⟩
      · exact ⟨slot, old, carries, rfl⟩
      · exact absurd unmapped mapped

/-! ## Mapping -/

/-- A mapping is asked for only on a capability that records none. -/
def Careful (process : Process) : Call → Prop
  | .mapFrame first _ =>
    ∀ slot, process.table.Names (lowHandle first) slot → slot.mapped = notMapped
  | _ => True

/-- Recording a new page of a frame in the capability that names it. -/
theorem Kept.record
    {kind : UserPage}
    {built : Space}
    (names : process.table.Names handle slot)
    (frame : slot.kind = some .frame)
    (unmapped : slot.mapped = notMapped)
    (aligned : virt % 4096 = 0)
    (mapped : mapUserLive (process.spaces state.root) virt slot.object kind state.nx = .ok built) :
    Kept state
      ⟨process.table.modify handle.index fun slot => { slot with mapped := virt },
        update process.spaces state.root built⟩
      (⟨handle, state.root, virt⟩ :: made) := by
  obtain ⟨low, absent, leaf, others⟩ := mapUserLive_ok mapped
  have page : IsPage virt := ⟨low, aligned⟩
  have untouched : ∀ other, IsPage other → other ≠ virt →
      leafAt built other = leafAt (process.spaces state.root) other :=
    fun other also different => others other (path_ne page also (Ne.symm different))
  have notes : process.table.Notes
      (process.table.modify handle.index fun slot => { slot with mapped := virt }) := by
    apply Table.Notes.modify
    exact ⟨fun _ => rfl, fun _ => rfl, fun _ => rfl, fun _ => rfl⟩
  have rewrites := Table.Rewrites.modify process.table handle.index
    fun slot => { slot with mapped := virt }
  have moves : process.table.Moves none _ := kept.sound.ages_notes notes
  -- Nobody records the new page yet: what is recorded is present, and it was not.
  have fresh : ∀ index other, process.table.slotAt index = some other →
      other.mapped ≠ virt := by
    intro index other found same
    obtain ⟨_, _, old, there⟩ := kept.recorded index other found (same ▸ page.ne_notMapped)
    rw [same] at there
    apply absent
    unfold Mapped
    rw [there]
    exact isPresent_flags ..
  have here := process.table.slotAt_modify_self names.found fun slot => { slot with mapped := virt }
  have own : (process.table.modify handle.index fun slot => { slot with mapped := virt }).OwnSpaces
      state.root := by
    intro index new found space
    obtain ⟨old, there, rfl⟩ := rewrites.before found
    split_ifs at space ⊢ <;> exact kept.own index old there space
  have carried : Kept state
      ⟨process.table.modify handle.index fun slot => { slot with mapped := virt },
        update process.spaces state.root built⟩ made := by
    refine kept.carry handle.index moves (kept.formed.notes notes) own
      (fun index other found recorded => ⟨_, rewrites.after found, .inl ?_⟩)
      (fun index new found recorded => ?_) fun other isPage there => ?_
    · rw [if_neg]
      · exact .refl other
      · rintro rfl
        obtain rfl := Option.mem_unique names.found found
        exact recorded unmapped
    · dsimp only
      rw [update_self]
      rcases process.table.slotAt_modify_cases found with ⟨old, rfl, there, rfl⟩ | ⟨-, there⟩
      · obtain rfl := Option.mem_unique names.found there
        exact .inr ⟨rfl, fresh, frame, page, kind, leaf⟩
      · have isPage := (kept.recorded index new there recorded).2.1
        exact .inl ⟨new, there, .refl new, untouched _ isPage (fresh index new there)⟩
    · by_cases same : other = virt
      · exact .inr ⟨handle.index, _, here, same.symm⟩
      · left
        dsimp only at there
        rw [update_self] at there
        unfold Mapped at there ⊢
        rwa [untouched _ isPage same] at there
  refine { carried with created := fun mapping member => ?_ }
  rcases mem_cons.1 member with rfl | member
  · refine ⟨rfl, page, .inl ⟨⟨_, here, names.occupied⟩, ?_⟩, fun new named => ?_, fun _ =>
      ⟨handle.index, _, here, rfl⟩⟩
    · exact (Table.generation_of_some here).trans names.current
    · obtain rfl := Option.mem_unique here named.found
      rfl
  · exact carried.created mapping member

/-- A careful mapping keeps the records. -/
theorem Kept.mapFrame {first second : UInt64}
    (careful : process.Careful (.mapFrame first second)) :
    Kept state
      (process.mapFrame state (lowHandle first) (highHandle first) second.toNat).2
      (process.created state (.mapFrame first second) ++ made) := by
  unfold Process.mapFrame Process.created
  dsimp only
  cases allowed : process.authorise state (lowHandle first) (highHandle first) second.toNat with
  | error error => exact kept
  | ok request =>
    dsimp only
    cases built : process.build state request with
    | error error => exact kept
    | ok space =>
      obtain ⟨handle, aligned, ⟨slot, names, frame, phys⟩, target, named, spaced, root⟩ :=
        authorise_ok allowed
      have own : request.root = state.root := root.trans (kept.own _ target named.found spaced)
      have unmapped := careful slot names
      unfold build at built
      rw [own, phys] at built
      rw [handle, noteMapping_of_unmapped names unmapped, own]
      exact kept.record names frame unmapped aligned built

/-! ## Revoking -/

theorem Kept.nodup_mappings (condemned : Condemned) : (process.table.mappings condemned).Nodup := by
  refine List.Nodup.filterMap ?_ nodup_range'
  intro index other page here there
  rw [Option.mem_def] at here there
  split_ifs at here there
  obtain ⟨slot, found, mapped⟩ := Option.bind_eq_some_iff.1 here
  obtain ⟨also, present, recorded⟩ := Option.bind_eq_some_iff.1 there
  unfold Slot.mapping at mapped recorded
  split_ifs at mapped recorded with unmapped
  exact kept.single index other slot also found present unmapped
    ((Option.some.inj mapped).trans (Option.some.inj recorded).symm)

/-- A revocation is refused with nothing changed, or unmaps exactly what condemned capabilities
record and sweeps them. -/
theorem Kept.revoke_cases (handle : Handle) :
    (∃ error, process.revoke state handle = some (.error error, process)) ∨
      ∃ condemned spaces, process.table.condemn handle = .ok condemned ∧
        process.revoke state handle = some (.ok (process.table.sweepCount condemned),
          ⟨process.table.sweep condemned, spaces⟩) ∧
        (∀ page ∈ process.table.mappings condemned, ¬Mapped (spaces state.root) page) ∧
        ∀ virt, IsPage virt → virt ∉ process.table.mappings condemned →
          leafAt (spaces state.root) virt = leafAt (process.spaces state.root) virt := by
  unfold Process.revoke
  cases condemns : process.table.condemn handle with
  | error error => exact .inl ⟨error, rfl⟩
  | ok condemned =>
    dsimp only
    obtain ⟨rfl, _⟩ := Table.condemn_ok condemns
    rw [drain_eq (Nat.lt_succ_of_le (process.table.length_mappings_le _))]
    by_cases running : ¬(state.frames = 0 ∨ state.root = 0)
    · have each : ∀ page ∈ process.table.mappings (process.table.descendants handle),
          IsPage page ∧ Mapped (process.spaces state.root) page := by
        intro page member
        obtain ⟨index, slot, _, found, mapped, rfl⟩ :=
          (process.table.mem_mappings (descendants_cursor ..) page).1 member
        obtain ⟨_, isPage, kind, leaf⟩ := kept.recorded index slot found mapped
        refine ⟨isPage, ?_⟩
        unfold Mapped
        rw [leaf]
        exact isPresent_flags ..
      obtain ⟨after, ends, table, gone, others⟩ :=
        withdrawAll_spec running each (kept.nodup_mappings _)
      rw [ends]
      refine .inr ⟨_, after.spaces, rfl, ?_, gone, others⟩
      dsimp only
      rw [table]
    · -- Without a running process the first withdrawal is refused.
      cases listed : process.table.mappings (process.table.descendants handle) with
      | nil =>
        refine .inr ⟨_, process.spaces, rfl, rfl, fun page member => ?_, fun _ _ _ => rfl⟩
        rw [listed] at member
        cases member
      | cons page rest =>
        refine .inl ⟨.badAddress, ?_⟩
        simp [withdrawAll, withdraw, if_pos (not_not.1 running)]

/-- Revoking keeps the records. -/
theorem Kept.revoke {outcome : Except CapError Nat}
    (revoked : process.revoke state handle = some (outcome, after)) : Kept state after made := by
  rcases kept.revoke_cases handle with
    ⟨error, refused⟩ | ⟨condemned, spaces, condemns, done, gone, others⟩
  · rw [refused] at revoked
    cases revoked
    exact kept
  rw [done] at revoked
  cases revoked
  have rewrites := (process.table.sweep_rewrites condemned).2
  have moves : process.table.Moves none _ := kept.sound.ages_sweep condemned
  have formed : (process.table.sweep condemned).Formed := by
    have swept := kept.formed.revoke kept.sound handle
    unfold Table.revoke at swept
    rwa [condemns] at swept
  have unread : condemned.cursor = 0 := by
    rw [(Table.condemn_ok condemns).1]
    exact descendants_cursor ..
  have listed := process.table.mem_mappings unread
  refine kept.carry 0 moves formed (fun index new found space => ?_)
    (fun index slot found mapped => ⟨_, rewrites.after found, ?_⟩)
    (fun index new found mapped => .inl ?_) fun virt isPage there => .inl ?_
  · obtain ⟨old, present, rfl⟩ := rewrites.before found
    split_ifs at space ⊢ with held
    · cases space
    · exact kept.own index old present space
  · split_ifs with held
    · exact .inr ⟨rfl, gone _ ((listed _).2 ⟨index, slot, held, found, mapped, rfl⟩)⟩
    · exact .inl (.refl slot)
  · obtain ⟨old, present, rfl⟩ := rewrites.before found
    split_ifs at mapped ⊢ with held
    · exact absurd rfl mapped
    · refine ⟨old, present, .refl old, others _ (kept.recorded index old present mapped).2.1 ?_⟩
      -- No other slot records this page, so none of the condemned ones does.
      intro member
      obtain ⟨other, also, isHeld, there, _, same⟩ := (listed _).1 member
      rw [kept.single index other old also present there mapped same.symm] at held
      exact held isHeld
  · by_cases member : virt ∈ process.table.mappings condemned
    · exact absurd there (gone _ member)
    · unfold Mapped at there ⊢
      rwa [← others _ isPage member]

/-- After a revocation no page created on a capability it withdrew is there. -/
theorem Kept.withdrawn {count : Nat}
    (revoked : process.revoke state handle = some (.ok count, after)) (member : mapping ∈ made)
    (below : process.table.forest.Below handle mapping.through) :
    ¬Mapped (after.spaces mapping.root) mapping.virt := by
  rcases kept.revoke_cases handle with
    ⟨error, refused⟩ | ⟨condemned, spaces, condemns, done, gone, _⟩
  · rw [refused] at revoked
    cases revoked
  rw [done] at revoked
  cases revoked
  obtain ⟨rfl, own, named⟩ := Table.condemn_ok condemns
  obtain ⟨root, isPage, _, records, _⟩ := kept.created mapping member
  obtain ⟨slot, names⟩ := Table.below_names below
  have mapped := records slot names
  rw [root]
  apply gone
  exact (process.table.mem_mappings (descendants_cursor ..) _).2 ⟨mapping.through.index, slot,
    Table.descendants_of_below named below, names.found, mapped ▸ isPage.ne_notMapped, mapped⟩

end

/-! ## Runs -/

/-- A process, and every page its mapping calls created. -/
structure Trace where
  process : Process
  made : List Made

/-- The trace after one more call; nothing stands for a machine that was stopped. -/
def Trace.next (state : State) (trace : Trace) (call : Call) : Option Trace :=
  (trace.process.answer state call).map fun result =>
    ⟨result.2, trace.process.created state call ++ trace.made⟩

/-- The trace after some calls. -/
def Trace.run (state : State) (trace : Trace) (calls : List Call) : Option Trace :=
  calls.foldlM (Trace.next state) trace

/-- Every call of a run is careful in the state it is made in. -/
def Trace.Careful (state : State) : Trace → List Call → Prop
  | _, [] => True
  | trace, call :: rest =>
    trace.process.Careful call ∧ ∀ after, trace.next state call = some after →
      Trace.Careful state after rest

/-- A process about to run: no mapping is recorded, and the address spaces it names are its own. -/
structure Fresh (state : State) (process : Process) : Prop where
  filled : ∃ operations, process.table = Table.empty.run operations
  unmapped : ∀ index slot, process.table.slotAt index = some slot → slot.mapped = notMapped
  own : process.table.OwnSpaces state.root

theorem Fresh.kept (fresh : Fresh state process) : Kept state process [] := by
  obtain ⟨operations, filled⟩ := fresh.filled
  obtain ⟨sound, formed⟩ := Table.run_formed operations
  rw [← filled] at sound formed
  refine ⟨sound, formed, fresh.own, fun index slot found mapped => ?_,
    fun index other slot also found there mapped => ?_, fun mapping member => ?_⟩
  iterate 2 exact absurd (fresh.unmapped index slot found) mapped
  cases member

/-- A careful call is answered, and keeps records and page tables together. -/
theorem Kept.next (kept : Kept state process made) {call : Call} (careful : process.Careful call) :
    ∃ after, Trace.next state ⟨process, made⟩ call = some after ∧
      Kept state after.process after.made := by
  cases call with
  | derive first second => exact ⟨_, rfl, kept.derive _ _⟩
  | mapFrame first second => exact ⟨_, rfl, kept.mapFrame careful⟩
  | revoke first =>
    have answered : ∃ result, process.revoke state (lowHandle first) = some result := by
      rcases kept.revoke_cases (lowHandle first) with ⟨_, refused⟩ | ⟨_, _, _, done, _⟩
      · exact ⟨_, refused⟩
      · exact ⟨_, done⟩
    obtain ⟨⟨outcome, after⟩, revoked⟩ := answered
    refine ⟨⟨after, made⟩, ?_, kept.revoke revoked⟩
    unfold Trace.next answer
    dsimp only
    rw [revoked]
    rfl

/-- The run lemma. -/
theorem Kept.run {trace : Trace} (kept : Kept state trace.process trace.made) {calls : List Call}
    (careful : trace.Careful state calls) :
    ∃ after, trace.run state calls = some after ∧ Kept state after.process after.made := by
  induction calls generalizing trace with
  | nil => exact ⟨trace, rfl, kept⟩
  | cons call rest ih =>
    obtain ⟨first, later⟩ := careful
    obtain ⟨middle, stepped, after⟩ := kept.next first
    obtain ⟨last, ran, ends⟩ := ih after (later middle stepped)
    refine ⟨last, ?_, ends⟩
    exact (congrArg (· >>= fun trace => rest.foldlM (Trace.next state) trace) stepped).trans ran

/-- In every run of a process in which mappings are asked for only on capabilities that
record none, every call is answered; at every point each present page that a mapping call
created is recorded by a capability that resolves and names its frame; and a revocation
leaves no page in place that was created on a capability it withdraws. -/
theorem careful_runs_keep_records
    (state : State)
    (process : Process)
    (calls : List Call)
    (fresh : Fresh state process)
    (careful : Trace.Careful state ⟨process, []⟩ calls) :
    ∃ trace, Trace.run state ⟨process, []⟩ calls = some trace ∧
      (∀ mapping ∈ trace.made, Mapped (trace.process.spaces mapping.root) mapping.virt →
        Recorded state trace.process mapping.root mapping.virt) ∧
      ∀ handle count after, trace.process.revoke state handle = some (.ok count, after) →
        ∀ mapping ∈ trace.made, trace.process.table.forest.Below handle mapping.through →
          ¬Mapped (after.spaces mapping.root) mapping.virt := by
  have start : Kept state (Trace.mk process []).process (Trace.mk process []).made := fresh.kept
  obtain ⟨trace, ran, kept⟩ := start.run careful
  exact ⟨trace, ran, fun mapping member there => kept.is_recorded member there,
    fun handle count after revoked mapping member below => kept.withdrawn revoked member below⟩

/-! ## A capability mapped twice -/

/-- Tables down to every page, with nothing mapped. -/
def blankSpace : Space := fun _ => .table fun _ => .table fun _ => .table fun _ => 0

/-- A core running a process whose top-level table is at 4096. -/
def sampleState : State := ⟨1, 4096, true⟩

/-- A process that holds its address space and one frame. -/
def sampleProcess : Process where
  table := Table.empty.run
    [.grant .addressSpace Rights.all 4096 0, .grant .frame Rights.all 8192 4096]
  spaces _ := blankSpace

/-- Derive a read-only copy of the frame, map it, and map it again elsewhere. -/
def mapTwice : List Call :=
  [.derive 0x10001 1, .mapFrame 0x0001000000010002 0x1001, .mapFrame 0x0001000000010002 0x2001]

theorem sampleProcess_fresh : Fresh sampleState sampleProcess := by
  have slots : ∀ slot ∈ sampleProcess.table.slots, slot.mapped = notMapped ∧
      (slot.kind = some .addressSpace → slot.object = 4096) := by decide +kernel
  refine ⟨⟨_, rfl⟩, fun index slot found => ?_, fun index slot found space => ?_⟩
  · exact (slots slot (mem_of_getElem? found)).1
  · exact (slots slot (mem_of_getElem? found)).2 space

/-- A run that maps a copy of the frame once and is followed by a revocation of the
original. -/
theorem careful_runs_keep_records_once :
    ∃ trace after, Trace.run sampleState ⟨sampleProcess, []⟩ (mapTwice.take 2) = some trace ∧
      trace.made.length = 1 ∧ trace.process.revoke sampleState ⟨1, 1⟩ = some (.ok 1, after) ∧
      ∀ mapping ∈ trace.made, (Mapped (trace.process.spaces mapping.root) mapping.virt →
        Recorded sampleState trace.process mapping.root mapping.virt) ∧
        (trace.process.table.forest.Below ⟨1, 1⟩ mapping.through →
          ¬Mapped (after.spaces mapping.root) mapping.virt) := by
  have careful : Trace.Careful sampleState ⟨sampleProcess, []⟩ (mapTwice.take 2) := by
    refine ⟨trivial, fun after stepped => ⟨fun slot names => ?_, fun _ _ => trivial⟩⟩
    have unmapped : ((Trace.next sampleState ⟨sampleProcess, []⟩ (.derive 0x10001 1)).all
        fun trace => trace.process.table.slots.all fun slot => slot.mapped == notMapped) =
        true := by decide +kernel
    rw [stepped] at unmapped
    exact beq_iff_eq.1 (List.all_eq_true.1 unmapped slot (mem_of_getElem? names.found))
  obtain ⟨trace, ran, recorded, withdrawn⟩ := careful_runs_keep_records sampleState sampleProcess
    (mapTwice.take 2) sampleProcess_fresh careful
  have facts : ((Trace.run sampleState ⟨sampleProcess, []⟩ (mapTwice.take 2)).all fun trace =>
      trace.made.length == 1 && (trace.process.revoke sampleState ⟨1, 1⟩).any fun result =>
        decide (result.1 = .ok 1)) = true := by decide +kernel
  rw [ran] at facts
  obtain ⟨made, revokes⟩ := Bool.and_eq_true_iff.1 facts
  obtain ⟨⟨answer, after⟩, revoked, isOk⟩ := (Option.any_eq_true ..).1 revokes
  cases of_decide_eq_true isOk
  exact ⟨trace, after, ran, beq_iff_eq.1 made, revoked, fun mapping member =>
    ⟨recorded mapping member, withdrawn _ _ after revoked mapping member⟩⟩

/-- The second mapping is refused after its page was made: nobody records the page, and a
revocation that withdraws the capability leaves it in place. -/
theorem mapping_twice_leaves_a_page :
    Fresh sampleState sampleProcess ∧
      ∃ trace, Trace.run sampleState ⟨sampleProcess, []⟩ mapTwice = some trace ∧
        ∃ mapping ∈ trace.made, Mapped (trace.process.spaces mapping.root) mapping.virt ∧
          ¬Recorded sampleState trace.process mapping.root mapping.virt ∧
          ∃ handle after, trace.process.revoke sampleState handle = some (.ok 1, after) ∧
            trace.process.table.forest.Below handle mapping.through ∧
            Mapped (after.spaces mapping.root) mapping.virt := by
  refine ⟨sampleProcess_fresh, ?_⟩
  have facts : ((Trace.run sampleState ⟨sampleProcess, []⟩ mapTwice).any fun trace =>
      decide (⟨⟨2, 1⟩, 4096, 0x2000⟩ ∈ trace.made) &&
      (leafAt (trace.process.spaces 4096) 0x2000).any isPresent &&
      trace.process.table.slots.all (fun slot => slot.mapped != 0x2000) &&
      decide (((trace.process.table.slotAt 2).map fun slot =>
        (slot.generation, slot.occupied, slot.parent)) = some (1, true, ⟨1, 1⟩)) &&
      (trace.process.revoke sampleState ⟨1, 1⟩).any fun result =>
        decide (result.1 = .ok 1) &&
          (leafAt (result.2.spaces 4096) 0x2000).any isPresent) = true := by decide +kernel
  obtain ⟨trace, ran, facts⟩ := (Option.any_eq_true ..).1 facts
  simp only [Bool.and_eq_true, decide_eq_true_eq] at facts
  obtain ⟨⟨⟨⟨member, mapped⟩, unrecorded⟩, child⟩, revoked⟩ := facts
  obtain ⟨⟨outcome, after⟩, answered, revoked⟩ := (Option.any_eq_true ..).1 revoked
  simp only [Bool.and_eq_true, decide_eq_true_eq] at revoked
  obtain ⟨rfl, still⟩ := revoked
  refine ⟨trace, ran, _, member, mapped, ?_, ⟨1, 1⟩, after, answered, ?_, still⟩
  · rintro ⟨handle, slot, _, names, _, same, _⟩
    have other := List.all_eq_true.1 unrecorded slot (mem_of_getElem? names.found)
    rw [same] at other
    exact absurd other (by decide)
  · obtain ⟨slot, found, same⟩ := Option.map_eq_some_iff.1 child
    simp only [Prod.mk.injEq] at same
    obtain ⟨generation, occupied, parent⟩ := same
    refine .single ((Table.child_iff ..).2 ⟨slot, ⟨found, by decide, generation, occupied⟩,
      parent, by decide⟩)

end Process

end FSystem.Kernel
