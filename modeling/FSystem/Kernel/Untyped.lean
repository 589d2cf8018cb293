import FSystem.Kernel.Handles
import FSystem.Library.Regions

/-!
# Untyped memory is spent once

A ledger beside the table: the untyped regions that were granted, the frames carved
out of them by derivations and the frames bought with them for slot storage.  The
untyped capabilities are accounts that hold what is left of their regions.
-/

namespace FSystem.Kernel

open Abi List

/-- What a capability spans. -/
def Slot.region (slot : Slot) : Region := ⟨slot.object, slot.extent⟩

namespace Table

/-! ## Accounts -/

variable (table : Table)

/-- What is left in the untyped capability a handle names. -/
def unspent (handle : Handle) : Option Region :=
  (table.slotAt handle.index).bind fun slot =>
    if slot.generation = handle.generation ∧ slot.kind = some .untyped then some slot.region
    else none

variable {before after : Table}

theorem unspent_eq_some_iff (handle : Handle) (region : Region) :
    table.unspent handle = some region ↔
      ∃ slot, table.slotAt handle.index = some slot ∧ slot.generation = handle.generation ∧
        slot.kind = some .untyped ∧ region = slot.region := by
  unfold unspent
  constructor
  · intro found
    obtain ⟨slot, present, here⟩ := Option.bind_eq_some_iff.1 found
    split_ifs at here with same
    exact ⟨slot, present, same.1, same.2, (Option.some.inj here).symm⟩
  · rintro ⟨slot, present, current, untyped, rfl⟩
    rw [present]
    exact if_pos ⟨current, untyped⟩

/-- The untyped capabilities and what is left in each, in the order of their slots. -/
def remainders : List (Handle × Region) :=
  (range table.capacity).filterMap fun index =>
    (table.slotAt index).bind fun slot =>
      if slot.kind = some .untyped then some (⟨index, slot.generation⟩, slot.region) else none

/-! ## What an operation hands out -/

/-- The frame a purchase of a page takes, and the capability that pays for it. -/
def purchase (backing : Backing) : List (Handle × Region) :=
  match (table.grow backing).1, table.account with
  | .ok (), some account =>
    (table.slotAt account).toList.map fun slot =>
      (⟨account, slot.generation⟩, ⟨slot.object, frameSize⟩)
  | _, _ => []

/-- The frame a derivation from an untyped capability carves. -/
def carving (handle : Handle) : List (Handle × Region) :=
  match (table.retype handle).1, table.slotAt handle.index with
  | .ok _, some slot =>
    if slot.kind = some .untyped then [(handle, ⟨slot.object, frameSize⟩)] else []
  | _, _ => []

/-- Whether a derivation is authorised. -/
def authorises (handle : Handle) (asked : UInt8) : Bool :=
  !Rights.unknown asked &&
    match table.invokeAny handle Rights.derive with
    | .error _ => false
    | .ok parent => Rights.narrows parent.rights asked

/-- The frames an operation buys for slot storage. -/
def purchases : Operation → List (Handle × Region)
  | .grow backing => table.purchase backing
  | .derive handle asked backing =>
    if table.authorises handle asked ∧ table.vacancy.isNone then table.purchase backing else []
  | _ => []

/-- The frames an operation carves for new capabilities. -/
def carvings : Operation → List (Handle × Region)
  | .derive handle asked backing =>
    if table.authorises handle asked ∧ (table.makeRoom backing).1.isOk then
      (table.makeRoom backing).2.carving handle
    else []
  | _ => []

/-- The untyped regions an operation grants. -/
def untypedGrants (operation : Operation) : List (Handle × Region) :=
  match operation, (table.apply operation).1 with
  | .grant kind _ object extent, some handle =>
    if kind = .untyped then [(handle, ⟨object, extent⟩)] else []
  | _, _ => []

/-- The ranges of the frame capabilities an operation grants. -/
def frameGrants (operation : Operation) : List Region :=
  match operation, (table.apply operation).1 with
  | .grant kind _ object extent, some _ => if kind = .frame then [⟨object, extent⟩] else []
  | _, _ => []

end Table

/-- Who was granted what, and what became of it. -/
structure Books where
  /-- The untyped regions granted, with the handles they were granted under. -/
  granted : List (Handle × Region)
  /-- The ranges of the frame capabilities granted. -/
  lent : List Region
  /-- The frames carved for capabilities, with the capabilities that paid. -/
  carved : List (Handle × Region)
  /-- The frames bought for slot storage, with the capabilities that paid. -/
  bought : List (Handle × Region)

namespace Books

/-- Nothing granted and nothing spent. -/
def blank : Books := ⟨[], [], [], []⟩

/-- Every frame that was handed out, with the capability that paid. -/
def spent (books : Books) : List (Handle × Region) := books.carved ++ books.bought

/-- What the books say after one more operation. -/
def enter (books : Books) (table : Table) (operation : Table.Operation) : Books where
  granted := table.untypedGrants operation ++ books.granted
  lent := table.frameGrants operation ++ books.lent
  carved := table.carvings operation ++ books.carved
  bought := table.purchases operation ++ books.bought

end Books

namespace Table

variable {table before after : Table} {books : Books} (handle : Handle)

/-! ## What keeps the books balanced -/

/-- Untyped capabilities and what was handed out share no memory, each piece lies in the region
that paid, and a frame capability spans a carved frame or a granted one. -/
structure Balanced (table : Table) (books : Books) : Prop where
  exclusive : Exclusive table.unspent (books.spent.map Prod.snd)
  held : ∀ handle region, table.unspent handle = some region →
    ∃ whole, (handle, whole) ∈ books.granted ∧ region.Within whole
  paid : ∀ payer piece, (payer, piece) ∈ books.spent →
    ∃ whole, (payer, whole) ∈ books.granted ∧ piece.Within whole
  frames : ∀ index slot, table.slotAt index = some slot → slot.kind = some .frame →
    slot.region ∈ books.carved.map Prod.snd ∨ slot.region ∈ books.lent

/-- Every untyped or frame capability was there before, spanning the same memory. -/
def Dwindles (before after : Table) : Prop :=
  ∀ index slot, after.slotAt index = some slot → slot.kind = some .untyped ∨ slot.kind = some .frame
    → ∃ old, before.slotAt index = some old ∧ old.kind = slot.kind ∧ old.generation =
    slot.generation ∧ old.region = slot.region

theorem Dwindles.refl (table : Table) : table.Dwindles table :=
  fun _ slot found _ => ⟨slot, found, rfl, rfl, rfl⟩

/-- What is left may only dwindle. -/
theorem Balanced.keep (balanced : before.Balanced books)
    (kept : ∀ handle region, after.unspent handle = some region →
      before.unspent handle = some region)
    (frames : ∀ index slot, after.slotAt index = some slot → slot.kind = some .frame →
      slot.region ∈ books.carved.map Prod.snd ∨ slot.region ∈ books.lent) :
    after.Balanced books :=
  { balanced with
    exclusive := balanced.exclusive.shrink fun holder region found =>
      ⟨region, kept holder region found, .refl region⟩
    held := fun handle region found => balanced.held handle region (kept handle region found)
    frames }

/-- Fewer accounts stay balanced. -/
theorem Balanced.dwindle (balanced : before.Balanced books) (dwindles : before.Dwindles after) :
    after.Balanced books := by
  refine balanced.keep (fun handle region found => ?_) fun index slot found frame => ?_
  · obtain ⟨slot, present, current, untyped, rfl⟩ := (unspent_eq_some_iff ..).1 found
    obtain ⟨old, there, kind, generation, region⟩ :=
      dwindles handle.index slot present (.inl untyped)
    exact (unspent_eq_some_iff ..).2
      ⟨old, there, generation.trans current, kind.trans untyped, region.symm⟩
  · obtain ⟨old, there, kind, _, region⟩ := dwindles index slot found (.inr frame)
    rw [← region]
    exact balanced.frames index old there (kind.trans frame)

theorem Remarks.dwindles (remarks : before.Remarks after) : before.Dwindles after := by
  obtain ⟨index, change, annotates, spans, rewrites⟩ := remarks
  intro other slot found _
  obtain ⟨old, there, rfl⟩ := rewrites.before found
  refine ⟨old, there, ?_⟩
  split_ifs
  · refine ⟨(annotates.kind old).symm, (annotates.generation old).symm, ?_⟩
    unfold Slot.region
    rw [(spans old).1, (spans old).2]
  · exact ⟨rfl, rfl, rfl⟩

theorem withPage_dwindles (room : before.grown < maxPages) :
    before.Dwindles (before.withPage room) := by
  intro index slot found kind
  rcases before.slotAt_withPage room found with there | ⟨_, rfl⟩
  · exact ⟨slot, there, rfl, rfl, rfl⟩
  · rcases kind with kind | kind <;> cases kind

/-- A sweep opens no account. -/
theorem sweep_dwindles (condemned : Condemned) : before.Dwindles (before.sweep condemned) := by
  intro index slot found kind
  obtain ⟨old, there, rfl⟩ := (before.sweep_rewrites condemned).2.before found
  by_cases held : condemned.holds index = true
  · rw [if_pos held] at kind
    rcases kind with kind | kind <;> cases kind
  · rw [if_neg held]
    exact ⟨old, there, rfl, rfl, rfl⟩

theorem Sound.clearAll_dwindles (sound : before.Sound) : before.Dwindles before.clearAll := by
  intro index slot found kind
  have occupied : slot.occupied = true := by
    unfold Slot.occupied
    rcases kind with kind | kind <;> rw [kind] <;> rfl
  exact absurd ⟨slot, found, occupied⟩ (sound.ages_clearAll.2 index)

/-! ## Handing out a frame -/

variable {slot : Slot} {index : Nat}

theorem charged_region
    (affords : (Watermark.carved slot.object slot.extent frameSize).isSome = true) :
    frameSize ≤ slot.extent ∧ slot.charged.region = slot.region.rest frameSize := by
  obtain ⟨result, carved⟩ := Option.isSome_iff_exists.1 affords
  obtain ⟨fits, rfl⟩ := carved_eq_some carved
  refine ⟨fits, ?_⟩
  unfold Slot.charged Slot.region
  rw [carved]
  rfl

theorem pays_affords (pays : slot.pays = true) :
    slot.kind = some .untyped ∧
      (Watermark.carved slot.object slot.extent frameSize).isSome = true := by
  simp only [Slot.pays, Watermark.carvable, Bool.and_eq_true, decide_eq_true_eq] at pays
  obtain ⟨⟨⟨_, untyped⟩, _⟩, fits, near⟩ := pays
  refine ⟨untyped, ?_⟩
  unfold Watermark.carved
  rw [if_neg (Nat.not_lt.2 fits), if_neg (Nat.not_lt.2 near)]
  rfl

/-- A slot that keeps its generation changes no other account. -/
theorem unspent_modify_of_ne
    {change : Slot → Slot}
    {handle : Handle}
    (found : before.slotAt index = some slot)
    (keeps : (change slot).generation = slot.generation)
    (different : handle ≠ ⟨index, slot.generation⟩) :
    (before.modify index change).unspent handle = before.unspent handle := by
  unfold unspent
  by_cases here : index = handle.index
  · subst here
    have other : slot.generation ≠ handle.generation := fun same =>
      different (Handle.ext rfl same.symm)
    rw [before.slotAt_modify_self found, found]
    simp [keeps, other]
  · rw [before.slotAt_modify_of_ne here]

/-- A charged capability has handed out its first frame; no other account changes. -/
theorem unspent_charged (found : before.slotAt index = some slot)
    (untyped : slot.kind = some .untyped)
    (affords : (Watermark.carved slot.object slot.extent frameSize).isSome = true) :
    before.unspent ⟨index, slot.generation⟩ = some slot.region ∧
      (before.modify index Slot.charged).unspent ⟨index, slot.generation⟩ =
        some (slot.region.rest frameSize) ∧
      ∀ handle, handle ≠ ⟨index, slot.generation⟩ →
        (before.modify index Slot.charged).unspent handle = before.unspent handle := by
  refine ⟨(unspent_eq_some_iff ..).2 ⟨slot, found, rfl, untyped, rfl⟩, ?_, ?_⟩
  · refine (unspent_eq_some_iff ..).2 ⟨slot.charged, before.slotAt_modify_self found _,
      slot.charged_generation, slot.charged_kind.trans untyped, ?_⟩
    exact (charged_region affords).2.symm
  exact fun handle => unspent_modify_of_ne found slot.charged_generation

variable {asked : UInt8}

/-- A derivation that is not authorised changes nothing. -/
theorem derive_unauthorised {handle : Handle} (refused : ¬table.authorises handle asked = true)
    (backing : Backing) : (table.derive handle asked backing).2 = table := by
  fun_cases derive table handle asked backing with
  | case1 | case2 | case3 => rfl
  | _ known parent invoked narrow =>
    exact absurd (by simpa [authorises, invoked, known] using narrow) refused

/-- A derivation that is authorised makes room, retypes and places. -/
theorem derive_authorised {handle : Handle} (allowed : table.authorises handle asked = true)
    (backing : Backing) :
    (table.derive handle asked backing).2 =
      match (table.makeRoom backing).1 with
      | .error _ => (table.makeRoom backing).2
      | .ok () =>
        match ((table.makeRoom backing).2.retype handle).1 with
        | .error _ => ((table.makeRoom backing).2.retype handle).2
        | .ok (kind, object, extent) =>
          (((table.makeRoom backing).2.retype handle).2.place kind asked object extent
            handle).2 := by
  fun_cases derive table handle asked backing with
  | case1 unknown => simp [authorises, unknown] at allowed
  | case2 known error invoked => simp [authorises, invoked] at allowed
  | case3 known parent invoked wide => simp [authorises, invoked, wide] at allowed
  | case4 _ _ _ _ _ _ made => rw [made]
  | case5 _ _ _ _ _ made _ _ typed | case6 _ _ _ _ _ made _ _ _ _ typed => rw [made, typed]

variable (balanced : before.Balanced books)
include balanced

/-- Charging an untyped capability for a frame keeps the books balanced if the frame is
entered with the capability that paid. -/
theorem Balanced.charge
    {entered : Books}
    (found : before.slotAt index = some slot)
    (untyped : slot.kind = some .untyped)
    (affords : (Watermark.carved slot.object slot.extent frameSize).isSome = true)
    (granted : entered.granted = books.granted)
    (lent : entered.lent = books.lent)
    (carved : ∀ entry ∈ books.carved, entry ∈ entered.carved)
    (spent : entered.spent.Perm
      ((⟨index, slot.generation⟩, slot.region.front frameSize) :: books.spent)) :
    (before.modify index Slot.charged).Balanced entered := by
  obtain ⟨fits, _⟩ := charged_region affords
  obtain ⟨holds, left, others⟩ := unspent_charged found untyped affords
  obtain ⟨whole, member, inside⟩ := balanced.held _ _ holds
  have spends := balanced.exclusive.spend holds fits left others
  refine ⟨?_, fun handle region there => ?_, fun payer piece there => ?_,
    fun other held there frame => ?_⟩
  · exact ⟨spends.holders, fun holder region there piece member =>
        spends.unspent holder region there piece ((spent.map Prod.snd).mem_iff.1 member),
      ((spent.map Prod.snd).pairwise_iff Region.Apart.symm).2 spends.once⟩
  · rw [granted]
    by_cases own : handle = ⟨index, slot.generation⟩
    · subst own
      rw [left] at there
      obtain rfl := Option.some.inj there
      exact ⟨whole, member, (Region.rest_within fits).trans inside⟩
    · rw [others handle own] at there
      exact balanced.held handle region there
  · rw [granted]
    rcases List.mem_cons.1 (spent.mem_iff.1 there) with same | there
    · obtain ⟨rfl, rfl⟩ := Prod.mk.inj same
      exact ⟨whole, member, (Region.front_within fits).trans inside⟩
    · exact balanced.paid payer piece there
  · rw [lent]
    rcases before.slotAt_modify_cases there with ⟨old, rfl, present, rfl⟩ | ⟨-, present⟩
    · obtain rfl := Option.mem_unique found present
      rw [slot.charged_kind, untyped] at frame
      cases frame
    · refine (balanced.frames other _ present frame).imp_left fun member => ?_
      obtain ⟨entry, listed, same⟩ := List.mem_map.1 member
      exact List.mem_map.2 ⟨entry, carved entry listed, same⟩

/-! ## The operations -/

/-- A purchase is entered. -/
theorem Balanced.grow (backing : Backing) :
    (before.grow backing).2.Balanced
      { books with bought := before.purchase backing ++ books.bought } := by
  rcases before.grow_cases backing with refused | ⟨room, account, slot, paying, found, pays, grown⟩
  · simp only [purchase, refused, nil_append]
    exact balanced
  · simp only [purchase, grown, paying, found, Option.toList_some, map_cons, map_nil]
    obtain ⟨untyped, affords⟩ := pays_affords pays
    exact (balanced.dwindle (withPage_dwindles room)).charge
      (before.slotAt_withPage_of_some room found) untyped affords rfl rfl
      (fun _ member => member) perm_middle

theorem Balanced.makeRoom (backing : Backing) :
    (before.makeRoom backing).2.Balanced
      { books with
        bought := (if before.vacancy.isNone then before.purchase backing else []) ++
          books.bought } := by
  unfold Table.makeRoom
  by_cases full : before.vacancy.isNone = true
  · simp only [full, if_true]
    exact balanced.grow backing
  · simp only [full]
    exact balanced

/-- Retyping copies what is no untyped capability, or carves a frame and enters it; a
frame it produces spans what the books list. -/
theorem Balanced.retype :
    (before.retype handle).2.Balanced
        { books with carved := before.carving handle ++ books.carved } ∧
      ∀ kind object extent, (before.retype handle).1 = .ok (kind, object, extent) →
        kind ≠ .untyped ∧ (kind = .frame →
          ⟨object, extent⟩ ∈ (before.carving handle ++ books.carved).map Prod.snd ∨
            (⟨object, extent⟩ : Region) ∈ books.lent) := by
  rcases before.retype_cases handle with
    ⟨error, refused⟩ | ⟨slot, names, ⟨kind, present, typed, copied⟩ | ⟨untyped, affords, carved⟩⟩
  · simp only [carving, refused, nil_append]
    exact ⟨balanced, fun _ _ _ impossible => by cases impossible⟩
  · have other : slot.kind ≠ some .untyped := by
      rw [present]
      exact fun same => typed (Option.some.inj same)
    simp only [carving, copied, names.found, if_neg other, nil_append]
    refine ⟨balanced, fun _ _ _ same => ?_⟩
    cases same
    refine ⟨typed, fun frame => ?_⟩
    exact balanced.frames handle.index slot names.found (by rw [present, frame])
  · have own : handle = ⟨handle.index, slot.generation⟩ := Handle.ext rfl names.current.symm
    simp only [carving, carved, names.found, if_pos untyped]
    refine ⟨balanced.charge names.found untyped affords rfl rfl
      (fun _ member => mem_append_right _ member) ?_, fun _ _ _ same => ?_⟩
    · rw [← own]
      exact .refl _
    · cases same
      exact ⟨by decide, fun _ => .inl (by simp)⟩

/-- Placing anything but an untyped capability keeps the books balanced, if a frame spans
what the books list. -/
theorem Balanced.place
    {kind : CapType}
    {object extent : Nat}
    (typed : kind ≠ .untyped)
    (listed : kind = .frame → ⟨object, extent⟩ ∈ books.carved.map Prod.snd ∨
      (⟨object, extent⟩ : Region) ∈ books.lent)
    (rights : UInt8)
    (parent : Handle) :
    (before.place kind rights object extent parent).2.Balanced books := by
  rcases before.place_cases kind rights object extent parent with
    ⟨_, refused⟩ | ⟨index, slot, -, -, -, -, placed⟩
  · rw [refused]
    exact balanced
  rw [placed]
  refine balanced.keep (fun handle region there => ?_) fun other new present frame => ?_
  · obtain ⟨new, present, current, untyped, rfl⟩ := (unspent_eq_some_iff ..).1 there
    rcases before.slotAt_modify_cases present with ⟨old, -, -, rfl⟩ | ⟨-, held⟩
    · exact absurd (Option.some.inj untyped) typed
    · exact (unspent_eq_some_iff ..).2 ⟨new, held, current, untyped, rfl⟩
  · rcases before.slotAt_modify_cases present with ⟨old, -, -, rfl⟩ | ⟨-, held⟩
    · exact listed (Option.some.inj frame)
    · exact balanced.frames other new held frame

/-- A derivation is entered. -/
theorem Balanced.derive (asked : UInt8) (backing : Backing) :
    (before.derive handle asked backing).2.Balanced
      { books with
        carved := before.carvings (.derive handle asked backing) ++ books.carved
        bought := before.purchases (.derive handle asked backing) ++ books.bought } := by
  by_cases allowed : before.authorises handle asked = true
  swap
  · rw [derive_unauthorised allowed]
    simp only [carvings, purchases, allowed]
    exact balanced
  rw [derive_authorised allowed]
  have roomy := balanced.makeRoom backing
  obtain ⟨retyped, produced⟩ := roomy.retype handle
  simp only [carvings, purchases, allowed, true_and]
  cases made : (before.makeRoom backing).1 with
  | error error => exact roomy
  | ok done =>
    cases typed : ((before.makeRoom backing).2.retype handle).1 with
    | error error => exact retyped
    | ok result =>
      obtain ⟨kind, object, extent⟩ := result
      obtain ⟨other, listed⟩ := produced kind object extent typed
      exact retyped.place other listed asked handle

/-- Granting an untyped region that is apart from all granted before. -/
theorem Balanced.grantUntyped (found : before.slotAt index = some slot) {rights : UInt8}
    {object extent : Nat} (apart : ∀ entry ∈ books.granted, Region.Apart ⟨object, extent⟩ entry.2) :
    (before.modify index (Slot.filled before.postsNotices .untyped rights object extent
        .null)).Balanced
      { books with
        granted := (⟨index, slot.generation⟩, ⟨object, extent⟩) :: books.granted } := by
  let fill := Slot.filled before.postsNotices .untyped rights object extent .null
  have granted := (unspent_eq_some_iff _ ⟨index, slot.generation⟩ ⟨object, extent⟩).2
    ⟨_, before.slotAt_modify_self found fill, rfl, rfl, rfl⟩
  have others : ∀ handle, handle ≠ ⟨index, slot.generation⟩ →
      (before.modify index fill).unspent handle = before.unspent handle :=
    fun handle => unspent_modify_of_ne found rfl
  refine ⟨balanced.exclusive.grant (fun holder other held => ?_) (fun piece member => ?_)
      granted others, fun handle region there => ?_, fun payer piece there => ?_,
    fun other new present frame => ?_⟩
  · obtain ⟨whole, member, inside⟩ := balanced.held holder other held
    exact (apart _ member).mono (.refl _) inside
  · obtain ⟨⟨payer, _⟩, listed, rfl⟩ := List.mem_map.1 member
    obtain ⟨whole, member, inside⟩ := balanced.paid payer _ listed
    exact (apart _ member).mono (.refl _) inside
  · by_cases own : handle = ⟨index, slot.generation⟩
    · subst own
      rw [granted] at there
      obtain rfl := Option.some.inj there
      exact ⟨_, mem_cons_self, .refl _⟩
    · rw [others handle own] at there
      obtain ⟨whole, member, inside⟩ := balanced.held handle region there
      exact ⟨whole, mem_cons_of_mem _ member, inside⟩
  · obtain ⟨whole, member, inside⟩ := balanced.paid payer piece there
    exact ⟨whole, mem_cons_of_mem _ member, inside⟩
  · rcases before.slotAt_modify_cases present with ⟨old, -, -, rfl⟩ | ⟨-, held⟩
    · cases frame
    · exact balanced.frames other new held frame

/-- A grant is entered. -/
theorem Balanced.grant (kind : CapType) (rights : UInt8) (object extent : Nat)
    (apart : ((books.enter before (.grant kind rights object extent)).granted.map
      Prod.snd).Pairwise Region.Apart) :
    (before.grant kind rights object extent).2.Balanced
      (books.enter before (.grant kind rights object extent)) := by
  have issued : (before.apply (.grant kind rights object extent)).1 =
      (before.place kind rights object extent .null).1.toOption := rfl
  unfold Books.enter at apart ⊢
  unfold untypedGrants at apart ⊢
  unfold frameGrants
  unfold Table.grant
  rw [issued] at apart ⊢
  rcases before.place_cases kind rights object extent .null with
    ⟨_, refused⟩ | ⟨index, slot, found, -, -, -, placed⟩
  · rw [refused]
    exact balanced
  by_cases untyped : kind = .untyped
  · subst untyped
    rw [placed] at apart ⊢
    refine balanced.grantUntyped found fun entry member => ?_
    exact (List.pairwise_cons.1 apart).1 entry.2 (mem_map_of_mem member)
  · -- Anything else is placed with the books listing what a frame spans.
    have listing : before.Balanced
        { books with lent := (if kind = .frame then [⟨object, extent⟩] else []) ++ books.lent } :=
      { balanced with frames := fun other held there frame => (balanced.frames other held there
        frame).imp_right fun member => mem_append_right _ member }
    have listed : (before.place kind rights object extent .null).2.Balanced _ :=
      listing.place untyped (fun frame => .inr (by simp [frame])) rights .null
    rw [placed] at listed ⊢
    simp only [Except.toOption, if_neg untyped, nil_append]
    exact listed

/-- Whether an operation gives memory back to an account. -/
def Operation.isRefund : Operation → Bool
  | .refund .. => true
  | _ => false

/-- Every operation but a refund keeps the books balanced, as long as the untyped regions
granted are apart. -/
theorem Balanced.apply (sound : before.Sound) {operation : Operation}
    (spends : operation.isRefund = false)
    (apart : ((books.enter before operation).granted.map Prod.snd).Pairwise Region.Apart) :
    (before.apply operation).2.Balanced (books.enter before operation) := by
  cases operation with
  | grant kind rights object extent => exact balanced.grant kind rights object extent apart
  | derive handle asked backing => exact balanced.derive handle asked backing
  | grow backing => exact balanced.grow backing
  | revoke handle =>
    exact balanced.dwindle (before.revoke_induct handle (.refl before) sweep_dwindles).1
  | relinquish handle =>
    exact balanced.dwindle (before.revoke_induct handle (.refl before) sweep_dwindles).2
  | refund => cases spends
  | noteMapping handle virt =>
    exact balanced.dwindle (before.noteMapping_remarks handle virt).dwindles
  | owesNotices => exact balanced.dwindle before.owesNotices_remarks.dwindles
  | notePeerGone handle => exact balanced.dwindle (before.notePeerGone_remarks handle).dwindles
  | nextSlotNotice => exact balanced.dwindle before.nextSlotNotice_remarks.dwindles
  | clearAll => exact balanced.dwindle sound.clearAll_dwindles

end Table

/-! ## Runs -/

/-- A table and the books kept beside it. -/
structure Ledger where
  table : Table
  books : Books

namespace Ledger

open Table (Operation)

/-- An empty table and blank books. -/
def start : Ledger := ⟨.empty, .blank⟩

/-- The ledger after one more operation. -/
def next (ledger : Ledger) (operation : Operation) : Ledger :=
  ⟨(ledger.table.apply operation).2, ledger.books.enter ledger.table operation⟩

/-- The ledger after some more operations. -/
def run (ledger : Ledger) (operations : List Operation) : Ledger := operations.foldl next ledger

theorem granted_suffix (ledger : Ledger) (operations : List Operation) :
    ledger.books.granted <:+ (ledger.run operations).books.granted := by
  induction operations generalizing ledger with
  | nil => exact suffix_rfl
  | cons operation rest ih => exact (suffix_append _ _).trans (ih (ledger.next operation))

/-- The run lemma. -/
theorem run_balanced
    {ledger : Ledger}
    (sound : ledger.table.Sound)
    (balanced : ledger.table.Balanced ledger.books)
    {operations : List Operation}
    (spends : ∀ operation ∈ operations, operation.isRefund = false)
    (apart : ((ledger.run operations).books.granted.map Prod.snd).Pairwise Region.Apart) :
    (ledger.run operations).table.Balanced (ledger.run operations).books := by
  induction operations generalizing ledger with
  | nil => exact balanced
  | cons operation rest ih =>
    have first := ((granted_suffix (ledger.next operation) rest).map Prod.snd).sublist
    refine ih (sound.apply_moves operation).sound ?_
      (fun other member => spends other (mem_cons_of_mem _ member)) apart
    exact balanced.apply sound (spends operation mem_cons_self) (apart.sublist first)

/-- Blank books are balanced. -/
theorem start_balanced : start.table.Balanced start.books := by
  have nothing : ∀ index slot, Table.empty.slotAt index = some slot → slot.kind = none := by
    intro index slot found
    rw [eq_of_mem_replicate (mem_of_getElem? found)]
    rfl
  have unspent : ∀ handle, Table.empty.unspent handle = none := by
    intro handle
    apply Option.eq_none_iff_forall_ne_some.2
    intro region found
    obtain ⟨slot, present, _, untyped, _⟩ := (Table.unspent_eq_some_iff ..).1 found
    rw [nothing _ slot present] at untyped
    cases untyped
  refine ⟨.empty unspent, fun handle region found => ?_, nofun, fun index slot found frame => ?_⟩
  · cases (unspent handle).symm.trans found
  · rw [nothing index slot found] at frame
    cases frame

variable {table : Table}

theorem mem_remainders {handle : Handle} {region : Region}
    (member : (handle, region) ∈ table.remainders) : table.unspent handle = some region := by
  obtain ⟨index, _, found⟩ := List.mem_filterMap.1 member
  obtain ⟨slot, present, here⟩ := Option.bind_eq_some_iff.1 found
  split_ifs at here with untyped
  obtain ⟨rfl, rfl⟩ := Prod.mk.inj (Option.some.inj here)
  exact (Table.unspent_eq_some_iff ..).2 ⟨slot, present, rfl, untyped, rfl⟩

/-- In balanced books the frames handed out and the remainders are apart. -/
theorem pieces_apart {books : Books} (balanced : table.Balanced books) :
    ((books.carved ++ books.bought ++ table.remainders).map Prod.snd).Pairwise Region.Apart := by
  rw [map_append, pairwise_append]
  refine ⟨balanced.exclusive.once, ?_, fun piece spent rest left => ?_⟩
  · unfold Table.remainders
    rw [pairwise_map, pairwise_filterMap]
    refine List.nodup_range.pairwise_of_forall_ne fun first _ second _ different => ?_
    rintro ⟨handle, region⟩ found ⟨other, rest⟩ there
    obtain ⟨slot, present, here⟩ := Option.bind_eq_some_iff.1 found
    obtain ⟨last, also, next⟩ := Option.bind_eq_some_iff.1 there
    split_ifs at here next with untyped typed
    obtain ⟨rfl, rfl⟩ := Prod.mk.inj (Option.some.inj here)
    obtain ⟨rfl, rfl⟩ := Prod.mk.inj (Option.some.inj next)
    refine balanced.exclusive.holders ⟨first, slot.generation⟩ ⟨second, last.generation⟩ _ _
      (fun same => different (congrArg Handle.index same)) ?_ ?_
    · exact (Table.unspent_eq_some_iff ..).2 ⟨slot, present, rfl, untyped, rfl⟩
    · exact (Table.unspent_eq_some_iff ..).2 ⟨last, also, rfl, typed, rfl⟩
  · obtain ⟨⟨handle, _⟩, member, rfl⟩ := List.mem_map.1 left
    exact (balanced.exclusive.unspent handle _ (mem_remainders member) piece spent).symm

/-- In every run without a refund whose granted untyped regions are pairwise apart: the
frames carved, the frames bought and the remainders are pairwise apart, each lies in the
region granted to the capability that paid for it, and a frame capability that shares
memory with a bought frame spans exactly what a granted frame capability was given, which
overlapped a granted untyped region from the start. -/
theorem untyped_spent_once
    (operations : List Operation)
    (spends : ∀ operation ∈ operations, operation.isRefund = false)
    (apart : ((start.run operations).books.granted.map Prod.snd).Pairwise Region.Apart) :
    (((start.run operations).books.carved ++ (start.run operations).books.bought ++
        (start.run operations).table.remainders).map Prod.snd).Pairwise Region.Apart ∧
      (∀ payer piece, (payer, piece) ∈ (start.run operations).books.carved ++
          (start.run operations).books.bought ++ (start.run operations).table.remainders →
        ∃ whole, (payer, whole) ∈ (start.run operations).books.granted ∧ piece.Within whole) ∧
      ∀ index slot, (start.run operations).table.slotAt index = some slot →
        slot.kind = some .frame →
        ∀ payer page, (payer, page) ∈ (start.run operations).books.bought →
          slot.region.Apart page ∨
            slot.region ∈ (start.run operations).books.lent ∧
              ∃ whole, (payer, whole) ∈ (start.run operations).books.granted ∧
                ¬slot.region.Apart whole := by
  have balanced := run_balanced Table.empty_sound start_balanced spends apart
  have pieces := pieces_apart balanced
  refine ⟨pieces, fun payer piece member => ?_, fun index slot found frame payer page bought => ?_⟩
  · rcases List.mem_append.1 member with spent | left
    · exact balanced.paid payer piece spent
    · exact balanced.held payer piece (mem_remainders left)
  rcases balanced.frames index slot found frame with carved | lent
  · -- A carved frame and a bought one are two entries of the books.
    rw [map_append, map_append, pairwise_append, pairwise_append] at pieces
    exact .inl (pieces.1.2.2 _ carved page (List.mem_map.2 ⟨_, bought, rfl⟩))
  · obtain ⟨whole, granted, inside⟩ :=
      balanced.paid payer page (mem_append_right _ bought)
    by_cases separate : slot.region.Apart whole
    · exact .inl (separate.mono (.refl _) inside)
    · exact .inr ⟨lent, whole, granted, separate⟩

/-- Grants of two untyped regions, and derivations until the table is full and buys a page of
one. -/
def sample : List Operation :=
  [.grant .untyped Rights.all 0 (40 * 4096), .grant .untyped Rights.all (64 * 4096) (8 * 4096)] ++
    replicate 31 (.derive ⟨0, 1⟩ Rights.read fun _ => some 0)

/-- The page was bought and the frames carved from one region, and what is left of both is
apart from them. -/
theorem untyped_spent_once_sample :
    (start.run sample).books.bought = [(⟨0, 1⟩, ⟨30 * 4096, 4096⟩)] ∧
      (start.run sample).books.carved.head? = some (⟨0, 1⟩, ⟨31 * 4096, 4096⟩) ∧
      (((start.run sample).books.carved ++ (start.run sample).books.bought ++
        (start.run sample).table.remainders).map Prod.snd).Pairwise Region.Apart := by
  have granted : (start.run sample).books.granted =
      [(⟨1, 1⟩, ⟨64 * 4096, 8 * 4096⟩), (⟨0, 1⟩, ⟨0, 40 * 4096⟩)] := by decide +kernel
  have none : sample.all (fun operation => !operation.isRefund) = true := by decide +kernel
  refine ⟨by decide +kernel, by decide +kernel, (untyped_spent_once sample ?_ ?_).1⟩
  · intro operation member
    simpa using List.all_eq_true.1 none operation member
  · rw [granted]
    refine List.pairwise_pair.2 (Set.disjoint_left.2 fun address high low => ?_)
    have above : 64 * 4096 ≤ address := high.1
    have below : address < 0 + 40 * 4096 := low.2
    omega

/-- Grants of an untyped region and its first frame, and derivations until the table buys a page. -/
def overlapping : List Operation :=
  [.grant .untyped Rights.all 4096 8192, .grant .frame Rights.all 4096 4096] ++
    replicate 31 (.derive ⟨1, 1⟩ Rights.read fun _ => some 0)

/-- The granted frame names the frame the table's new slots are kept in. -/
theorem granted_frame_holds_slots :
    (∀ operation ∈ overlapping, operation.isRefund = false) ∧
      ((start.run overlapping).books.granted.map Prod.snd).Pairwise Region.Apart ∧
      ∃ index slot payer page, (start.run overlapping).table.slotAt index = some slot ∧
        slot.kind = some .frame ∧ (payer, page) ∈ (start.run overlapping).books.bought ∧
        slot.region = page ∧ ¬slot.region.Apart page := by
  have granted : (start.run overlapping).books.granted = [(⟨0, 1⟩, ⟨4096, 8192⟩)] := by
    decide +kernel
  have bought : (start.run overlapping).books.bought = [(⟨0, 1⟩, ⟨4096, 4096⟩)] := by decide +kernel
  have frame : (start.run overlapping).table.slotAt 1 =
      some ⟨some .frame, .quiet, Rights.all, 1, .null, 4096, 4096, notMapped⟩ := by
    decide +kernel
  refine ⟨?_, ?_, 1, _, ⟨0, 1⟩, ⟨4096, 4096⟩, frame, rfl, ?_, rfl, fun apart => ?_⟩
  · have none : overlapping.all (fun operation => !operation.isRefund) = true := by decide +kernel
    intro operation member
    simpa using List.all_eq_true.1 none operation member
  · rw [granted]
    exact pairwise_singleton ..
  · rw [bought]
    exact mem_cons_self
  · have first : (4096 : Nat) ∈ Region.bytes ⟨4096, 4096⟩ := ⟨Nat.le_refl _, by decide⟩
    exact Set.disjoint_left.1 apart first first

end Ledger

end FSystem.Kernel
