import FSystem.Kernel.FrameAllocator
import FSystem.Library.Coverage
import FSystem.Library.Linked

/-!
# What the free lists hold

The links of every list make a finite list of blocks, aligned to their size, and every
frame the allocator owns is covered once: by a block on a list, or by what is elsewhere.
The words that change are always in frames that are not on a list.
-/

namespace FSystem.Kernel.Mem

open Function Nat

@[simp] theorem frameSize_mul_div (number : Nat) : frameSize * number / frameSize = number :=
  Nat.mul_div_cancel_left _ (by decide)

namespace Order

variable (order : Order)

theorem bytes_eq : order.bytes = frameSize * order.frames := rfl

theorem frames_pos : 0 < order.frames := Nat.two_pow_pos _

theorem bytes_pos : 0 < order.bytes :=
  Nat.mul_pos (by decide) order.frames_pos

theorem frameSize_dvd_bytes : frameSize ∣ order.bytes := Nat.dvd_mul_right _ _

theorem add_bytes (number : Nat) :
    frameSize * number + order.bytes = frameSize * (number + order.frames) :=
  (Nat.mul_add _ _ _).symm

theorem aligns_iff (addr : Nat) : order.aligns addr = true ↔ order.bytes ∣ addr := by
  rw [aligns, beq_iff_eq, Nat.dvd_iff_mod_eq_zero]

variable {order} {other : Order}

theorem up_eq_some (above : order.up = some other) :
    other.get = order.get + 1 ∧ other.frames = 2 * order.frames ∧
      other.bytes = 2 * order.bytes := by
  unfold up at above
  split at above
  · cases above
    refine ⟨rfl, ?_, ?_⟩
    · simp only [frames, pow_succ]
      exact mul_comm _ _
    · simp only [bytes, pow_succ]
      ac_rfl
  · cases above

theorem down_eq_some (below : order.down = some other) :
    order.get = other.get + 1 ∧ order.frames = 2 * other.frames ∧
      order.bytes = 2 * other.bytes := by
  unfold down at below
  split at below
  · cases below
  rename_i positive
  cases below
  have less : order.get = order.get - 1 + 1 := by omega
  have doubles : 2 ^ order.get = 2 * 2 ^ (order.get - 1) := by
    rw [less, pow_succ, Nat.add_sub_cancel, mul_comm]
  refine ⟨less, doubles, ?_⟩
  simp only [bytes, doubles]
  ac_rfl

theorem down_eq_none (none : order.down = none) : order.get = 0 := by
  unfold down at none
  split at none
  · assumption
  · cases none

/-- The lower half of a pair is aligned to the pair. -/
theorem dvd_of_isLower (aligned : order.bytes ∣ addr) (lower : order.isLower addr = true) :
    2 * order.bytes ∣ addr := by
  have power : order.bytes = 2 ^ (12 + order.get) := by
    rw [bytes, Nat.pow_add]
    rfl
  rw [isLower, beq_iff_eq, power, Nat.and_two_pow] at lower
  have even : addr.testBit (12 + order.get) = false := by
    cases bit : addr.testBit (12 + order.get) with
    | false => rfl
    | true =>
      rw [bit] at lower
      have positive := Nat.two_pow_pos (12 + order.get)
      simp only [Bool.toNat_true] at lower
      omega
  obtain ⟨multiple, rfl⟩ := aligned
  rw [power, Nat.testBit_two_pow_mul] at even
  simp only [ge_iff_le, le_refl, decide_true, Nat.sub_self, Bool.true_and,
    Nat.testBit_zero, decide_eq_false_iff_not] at even
  rw [mul_comm 2]
  exact Nat.mul_dvd_mul_left _ (by omega)

end Order

/-- A list: a core, whether its blocks are clean, and their order. -/
abbrev Key := Cpu × Bool × Order

/-- The head of a list. -/
def headOf (shards : Cpu → Shard) (key : Key) : Nat :=
  ((shards key.1).lists key.2.1).head key.2.2

/-- How often a block covers a frame. -/
def blockCover (order : Order) (block frame : Nat) : Nat :=
  cover (block / frameSize) (block / frameSize + order.frames) frame

/-- How often some blocks cover a frame. -/
def blocksCover (order : Order) (blocks : List Nat) (frame : Nat) : Nat :=
  (blocks.map fun block => blockCover order block frame).sum

/-- How often the blocks on the lists cover a frame. -/
def listed (lists : Key → List Nat) (frame : Nat) : Nat :=
  tally (fun key block => blockCover key.2.2 block frame) lists

/-- A number of frames, for one kind of blocks of one core. -/
def charge (cpu : Cpu) (clean : Bool) (frames : Nat) (other : Cpu) (kind : Bool) : Nat :=
  if cpu = other ∧ clean = kind then frames else 0

theorem charge_add (cpu : Cpu) (clean : Bool) (left right : Nat) :
    charge cpu clean (left + right) = charge cpu clean left + charge cpu clean right := by
  funext other kind
  simp only [charge, Pi.add_apply]
  split
  · rfl
  · rfl

/-- How many frames the blocks of one kind on a core's lists are. -/
def weight (lists : Key → List Nat) (cpu : Cpu) (clean : Bool) : Nat :=
  tally (fun key _ => charge key.1 key.2.1 key.2.2.frames cpu clean) lists

/-- A block is zero but for its first word. -/
def Clean (memory : Memory) (order : Order) (block : Nat) : Prop :=
  ∀ word, wordAt block < word → word < wordAt (block + order.bytes) → memory word = 0

/-- A block that may be on a list of an order. -/
structure Fitting (order : Order) (block : Nat) : Prop where
  nonzero : block ≠ 0
  aligned : order.bytes ∣ block
  inside : block + order.bytes ≤ wordLimit

/-- The blocks on all cores' lists and what is loose cover every frame as often as it is owned,
at most once.  A credit is counted and not on a list. -/
structure Stocked (window : Window) (memory : Memory) (shards : Cpu → Shard)
    (lists : Key → List Nat) (owned loose : Nat → Nat) (credit : Cpu → Bool → Nat) :
    Prop where
  linked : ∀ key, Linked (window.readLink memory) (headOf shards key) (lists key)
  fitting : ∀ key, ∀ block ∈ lists key, Fitting key.2.2 block
  covered : ∀ frame, listed lists frame + loose frame = owned frame
  once : ∀ frame, owned frame ≤ 1
  clean : ∀ key, key.2.1 = true → ∀ block ∈ lists key, Clean memory key.2.2 block
  counted : ∀ cpu clean, weight lists cpu clean + credit cpu clean = (shards cpu).frames clean

/-- The memory and the shard of a core are stocked, beside the other cores. -/
def Held (window : Window) (shards : Cpu → Shard) (cpu : Cpu) (owned loose : Nat → Nat)
    (credit : Cpu → Bool → Nat) (core : Memory × Shard) : Prop :=
  ∃ lists, Stocked window core.1 (update shards cpu core.2) lists owned loose credit

section Shards

variable (shard : Shard) (clean kind : Bool)

@[simp] theorem lists_setLists (lists : Lists) :
    (shard.setLists clean lists).lists kind = if clean = kind then lists else shard.lists kind := by
  cases clean <;> cases kind <;> rfl

@[simp] theorem frames_setLists (lists : Lists) :
    (shard.setLists clean lists).frames kind = shard.frames kind := by
  cases clean <;> cases kind <;> rfl

@[simp] theorem lists_setFrames (count : Nat) :
    (shard.setFrames clean count).lists kind = shard.lists kind := by
  cases clean <;> cases kind <;> rfl

@[simp] theorem frames_setFrames (count : Nat) :
    (shard.setFrames clean count).frames kind =
      if clean = kind then count else shard.frames kind := by
  cases clean <;> cases kind <;> rfl

/-- Setting a head sets the one head. -/
theorem headOf_setHead (shards : Cpu → Shard) (cpu : Cpu) (order : Order) (block : Nat) :
    headOf (update shards cpu
        (shard.setLists clean ((shard.lists clean).setHead order block))) =
      update (headOf (update shards cpu shard)) (cpu, clean, order) block := by
  funext ⟨other, kind, size⟩
  unfold headOf
  by_cases sameCpu : other = cpu
  · subst sameCpu
    by_cases sameKind : clean = kind
    · subst sameKind
      by_cases sameOrder : size = order
      · subst sameOrder
        simp [Lists.setHead]
      · have distinct : (other, clean, size) ≠ (other, clean, order) := by
          simpa using sameOrder
        simp [Lists.setHead, update_of_ne distinct, update_of_ne sameOrder]
    · have distinct : (other, kind, size) ≠ (other, clean, order) := by
        simp [Ne.symm sameKind]
      simp [sameKind, update_of_ne distinct]
  · have distinct : (other, kind, size) ≠ (cpu, clean, order) := by
      simp [sameCpu]
    simp [update_of_ne distinct, update_of_ne sameCpu]

/-- What the lists of a core do not depend on. -/
theorem headOf_update_congr (shards : Cpu → Shard) (cpu : Cpu) {shard other : Shard}
    (same : ∀ kind, other.lists kind = shard.lists kind) :
    headOf (update shards cpu other) = headOf (update shards cpu shard) := by
  funext key
  unfold headOf
  by_cases here : key.1 = cpu
  · simp [here, same]
  · simp [update_of_ne here]

end Shards

section Words

variable {order : Order} {block word : Nat}

section

variable (aligned : frameSize ∣ block)

include aligned

theorem wordAt_add (order : Order) :
    wordAt block = 512 * (block / frameSize) ∧
      wordAt (block + order.bytes) = 512 * (block / frameSize + order.frames) := by
  obtain ⟨-, rfl⟩ := aligned
  rw [order.bytes_eq, frameSize_mul_div]
  unfold wordAt frameSize
  omega

/-- A word of a block is in a frame the block covers. -/
theorem blockCover_word (first : wordAt block ≤ word) (last : word < wordAt (block + order.bytes)) :
    blockCover order block (word / 512) = 1 := by
  obtain ⟨starts, ends⟩ := wordAt_add aligned order
  apply cover_of_mem
  · omega
  · omega

omit aligned in
theorem Fitting.frameSize_dvd (fitting : Fitting order block) : frameSize ∣ block :=
  Nat.dvd_trans order.frameSize_dvd_bytes fitting.aligned

theorem wordAt_lt (order : Order) : wordAt block < wordAt (block + order.bytes) := by
  obtain ⟨starts, ends⟩ := wordAt_add aligned order
  have positive := order.frames_pos
  omega

/-- The link of a block is in its first frame. -/
theorem blockCover_link (order : Order) : blockCover order block (wordAt block / 512) = 1 :=
  blockCover_word aligned (le_refl _) (wordAt_lt aligned order)

omit aligned in
/-- A block covers as many frames as its order says. -/
theorem Fitting.sum_blockCover (fitting : Fitting order block) :
    ∑ frame ∈ Finset.range (wordLimit / frameSize), blockCover order block frame =
      order.frames := by
  obtain ⟨number, rfl⟩ := fitting.frameSize_dvd
  have inside := fitting.inside
  rw [order.add_bytes] at inside
  have top : frameSize * number / frameSize + order.frames ≤ wordLimit / frameSize := by
    rw [frameSize_mul_div, Nat.le_div_iff_mul_le (by decide), mul_comm]
    exact inside
  unfold blockCover
  rw [sum_cover top, Nat.add_sub_cancel_left]

/-- Different blocks have different link words. -/
theorem wordAt_injective {other : Nat} (alignedToo : frameSize ∣ other)
    (same : wordAt block = wordAt other) : block = other := by
  obtain ⟨number, rfl⟩ := aligned
  obtain ⟨second, rfl⟩ := alignedToo
  unfold wordAt frameSize at same
  unfold frameSize
  omega

end

end Words

section Links

variable (window : Window) (memory : Memory) {block other : Nat}

/-- A link is read as it was written. -/
@[simp] theorem readLink_writeLink (next : Nat) :
    window.readLink (window.writeLink memory block next) block = next := by
  simp [Window.readLink, Window.writeLink]

theorem writeLink_of_ne {word : Nat} (distinct : word ≠ wordAt block) (next : Nat) :
    window.writeLink memory block next word = memory word :=
  update_of_ne distinct _ _

end Links

section Updates

variable (lists : Key → List Nat) (key : Key) (blocks : List Nat)

theorem listed_update (frame : Nat) :
    listed (update lists key blocks) frame + blocksCover key.2.2 (lists key) frame =
      listed lists frame + blocksCover key.2.2 blocks frame :=
  tally_update _ lists key blocks

theorem weight_update (cpu : Cpu) (clean : Bool) :
    weight (update lists key blocks) cpu clean +
        charge key.1 key.2.1 ((lists key).length * key.2.2.frames) cpu clean =
      weight lists cpu clean + charge key.1 key.2.1 (blocks.length * key.2.2.frames) cpu clean := by
  have each : ∀ values : List Nat,
      (values.map fun _ => charge key.1 key.2.1 key.2.2.frames cpu clean).sum =
        charge key.1 key.2.1 (values.length * key.2.2.frames) cpu clean := by
    unfold charge
    by_cases same : key.1 = cpu ∧ key.2.1 = clean
    · simp [same]
    · simp [same]
  rw [← each, ← each]
  exact tally_update _ lists key blocks

end Updates

namespace Stocked

variable {window : Window} {memory after : Memory} {shards : Cpu → Shard} {shard : Shard}
  {cpu : Cpu} {clean : Bool} {order : Order} {lists : Key → List Nat}
  {owned loose : Nat → Nat} {credit : Cpu → Bool → Nat} {block : Nat}

/-- No frame is loose twice. -/
theorem loose_le_one (stocked : Stocked window memory shards lists owned loose credit)
    (frame : Nat) : loose frame ≤ 1 := by
  have whole := stocked.covered frame
  have most := stocked.once frame
  omega

/-- What a block on a list covers is not loose. -/
theorem loose_eq_zero
    (stocked : Stocked window memory shards lists owned loose credit)
    {key : Key}
    (member : block ∈ lists key)
    {frame : Nat}
    (covers : blockCover key.2.2 block frame = 1) :
    loose frame = 0 := by
  have counts : blockCover key.2.2 block frame ≤ listed lists frame :=
    @le_tally Key Nat _ (fun key block => blockCover key.2.2 block frame) lists key block member
  have whole := stocked.covered frame
  have most := stocked.once frame
  omega

/-- Changes in frames that are loose leave the lists as they are. -/
theorem remember (stocked : Stocked window memory shards lists owned loose credit)
    (same : ∀ word, loose (word / 512) = 0 → after word = memory word) :
    Stocked window after shards lists owned loose credit := { stocked with
  linked := by
    intro key
    apply (stocked.linked key).congr
    intro node member
    have fitting := stocked.fitting key node member
    unfold Window.readLink
    rw [same _ (stocked.loose_eq_zero member (blockCover_link fitting.frameSize_dvd key.2.2))]
  clean := by
    intro key isClean block member word first last
    have fitting := stocked.fitting key block member
    rw [same word (stocked.loose_eq_zero member
      (blockCover_word fitting.frameSize_dvd (Nat.le_of_lt first) last))]
    exact stocked.clean key isClean block member word first last }

/-- A list is replaced by another one whose links are in place. -/
theorem replace
    (stocked : Stocked window memory (update shards cpu shard) lists owned loose credit)
    {head : Nat}
    {blocks : List Nat}
    {looser : Nat → Nat}
    {due : Cpu → Bool → Nat}
    (linked : Linked (window.readLink memory) head blocks)
    (fitting : ∀ block ∈ blocks, Fitting order block)
    (isClean : clean = true → ∀ block ∈ blocks, Clean memory order block)
    (covers : ∀ frame, blocksCover order blocks frame + looser frame =
      blocksCover order (lists (cpu, clean, order)) frame + loose frame)
    (counts : ∀ other kind,
      charge cpu clean (blocks.length * order.frames) other kind + due other kind =
        charge cpu clean ((lists (cpu, clean, order)).length * order.frames) other kind +
          credit other kind) :
    Stocked window memory (update shards cpu
        (shard.setLists clean ((shard.lists clean).setHead order head)))
      (update lists (cpu, clean, order) blocks) owned looser due where
  linked := by
    intro key
    rw [headOf_setHead]
    by_cases same : key = (cpu, clean, order)
    · subst same
      rw [update_self, update_self]
      exact linked
    · rw [update_of_ne same, update_of_ne same]
      exact stocked.linked key
  fitting := by
    intro key
    by_cases same : key = (cpu, clean, order)
    · subst same
      rw [update_self]
      exact fitting
    · rw [update_of_ne same]
      exact stocked.fitting key
  covered := by
    intro frame
    have updated := listed_update lists (cpu, clean, order) blocks frame
    have whole := stocked.covered frame
    have moved := covers frame
    dsimp only at updated
    omega
  once := stocked.once
  clean := by
    intro key cleanKey
    by_cases same : key = (cpu, clean, order)
    · subst same
      rw [update_self]
      exact isClean cleanKey
    · rw [update_of_ne same]
      exact stocked.clean key cleanKey
  counted := by
    intro other kind
    have updated := weight_update lists (cpu, clean, order) blocks other kind
    have whole := stocked.counted other kind
    have moved := counts other kind
    have kept : (update shards cpu (shard.setLists clean
        ((shard.lists clean).setHead order head)) other).frames kind =
          (update shards cpu shard other).frames kind := by
      by_cases same : other = cpu
      · subst same
        simp
      · simp [update_of_ne same]
    dsimp only at updated
    omega

/-- What is on the lists and a block that is not are no more frames than there are. -/
theorem weight_add_frames_le
    (stocked : Stocked window memory shards lists owned (loose + blockCover order block) credit)
    (fitting : Fitting order block) (cpu : Cpu) (clean : Bool) :
    weight lists cpu clean + order.frames ≤ wordLimit / frameSize := by
  have most : ∑ frame ∈ Finset.range (wordLimit / frameSize),
      (listed lists frame + blockCover order block frame) ≤ wordLimit / frameSize := by
    calc ∑ frame ∈ Finset.range (wordLimit / frameSize),
          (listed lists frame + blockCover order block frame)
        ≤ ∑ _frame ∈ Finset.range (wordLimit / frameSize), 1 := by
          apply Finset.sum_le_sum
          intro frame _
          have whole := stocked.covered frame
          have once := stocked.once frame
          rw [Pi.add_apply] at whole
          omega
      _ = wordLimit / frameSize := by simp
  have shelves : weight lists cpu clean ≤
      ∑ frame ∈ Finset.range (wordLimit / frameSize), listed lists frame := by
    unfold listed weight
    rw [sum_tally]
    apply tally_le_tally
    intro key base member
    rw [(stocked.fitting key base member).sum_blockCover]
    unfold charge
    split
    · exact le_refl _
    · exact Nat.zero_le _
  rw [Finset.sum_add_distrib, fitting.sum_blockCover] at most
  omega

theorem headOf_self (shards : Cpu → Shard) (shard : Shard) :
    headOf (update shards cpu shard) (cpu, clean, order) = (shard.lists clean).head order := by
  simp [headOf]

end Stocked

namespace Held

variable {window : Window} {memory after : Memory} {shards : Cpu → Shard} {shard : Shard}
  {cpu : Cpu} {clean : Bool} {order : Order} {owned loose : Nat → Nat}
  {credit : Cpu → Bool → Nat} {block : Nat}

section

variable (held : Held window shards cpu owned loose credit (memory, shard))

include held

theorem remember (same : ∀ word, loose (word / 512) = 0 → after word = memory word) :
    Held window shards cpu owned loose credit (after, shard) :=
  held.imp fun _ stocked => stocked.remember same

theorem loose_le_one (frame : Nat) : loose frame ≤ 1 :=
  held.elim fun _ stocked => stocked.loose_le_one frame

theorem credit_le (clean : Bool) : credit cpu clean ≤ shard.frames clean := by
  obtain ⟨lists, stocked⟩ := held
  have counted := stocked.counted cpu clean
  simp only [update_self] at counted
  omega

/-- The count of one kind of blocks of a core is set, and with it the credit. -/
theorem setFrames {count : Nat} {due : Cpu → Bool → Nat}
    (here : count + credit cpu clean = shard.frames clean + due cpu clean)
    (elsewhere : ∀ other kind, ¬(cpu = other ∧ clean = kind) → due other kind = credit other kind) :
    Held window shards cpu owned loose due (memory, shard.setFrames clean count) := by
  obtain ⟨lists, stocked⟩ := held
  refine ⟨lists, { stocked with linked := ?_, counted := fun other kind => ?_ }⟩
  · rw [headOf_update_congr shards cpu (lists_setFrames shard clean · count)]
    exact stocked.linked
  have whole := stocked.counted other kind
  by_cases sameCpu : other = cpu
  · subst sameCpu
    by_cases sameKind : clean = kind
    · subst sameKind
      simp only [update_self, frames_setFrames, if_true] at whole ⊢
      omega
    · rw [elsewhere other kind fun both => sameKind both.2, whole]
      simp [sameKind]
  · rw [elsewhere other kind fun both => sameCpu both.1.symm, whole]
    simp [update_of_ne sameCpu]

/-- Only the lists and the counts of a core matter. -/
theorem of_shard {other : Shard} (sameLists : ∀ kind, other.lists kind = shard.lists kind)
    (sameFrames : ∀ kind, other.frames kind = shard.frames kind) :
    Held window shards cpu owned loose credit (memory, other) := by
  obtain ⟨lists, stocked⟩ := held
  refine ⟨lists, { stocked with linked := ?_, counted := fun core kind => ?_ }⟩
  · rw [headOf_update_congr shards cpu sameLists]
    exact stocked.linked
  rw [stocked.counted core kind]
  by_cases here : core = cpu
  · subst here
    simp [sameFrames]
  · simp [update_of_ne here]

/-- The head of a list is taken off it. -/
theorem listPop {popped : Lists}
    (taken : Mem.listPop window memory (shard.lists clean) order = some (block, popped)) :
    Fitting order block ∧ (clean = true → Clean memory order block) ∧
      Held window shards cpu owned (loose + blockCover order block)
        (credit + charge cpu clean order.frames) (memory, shard.setLists clean popped) := by
  obtain ⟨lists, stocked⟩ := held
  have linked := stocked.linked (cpu, clean, order)
  unfold Mem.listPop at taken
  by_cases empty : (shard.lists clean).head order = 0
  · rw [if_pos empty] at taken
    cases taken
  rw [if_neg empty] at taken
  cases taken
  rw [Stocked.headOf_self] at linked
  obtain ⟨rest, isList, tail⟩ := linked.eq_cons empty
  have fitting := stocked.fitting (cpu, clean, order)
  have isClean := stocked.clean (cpu, clean, order)
  rw [isList] at fitting isClean
  refine ⟨fitting _ List.mem_cons_self, fun cleanKind => isClean cleanKind _ List.mem_cons_self, _,
    stocked.replace tail (fun other later => fitting other (List.mem_cons_of_mem _ later))
    (fun cleanKind other later => isClean cleanKind other (List.mem_cons_of_mem _ later)) ?_ ?_⟩
  · intro frame
    rw [isList]
    simp only [blocksCover, List.map_cons, List.sum_cons, Pi.add_apply]
    omega
  · intro other kind
    rw [isList]
    simp only [List.length_cons, Pi.add_apply, charge, add_mul, one_mul]
    split
    · omega
    · omega

end

/-- A loose block is put on a list. -/
theorem shelve (held : Held window shards cpu owned (loose + blockCover order block)
      (credit + charge cpu clean order.frames) (memory, shard))
    (fitting : Fitting order block) (isClean : clean = true → Clean memory order block) :
    Held window shards cpu owned loose credit
      (Mem.shelve window memory shard order clean block) := by
  obtain ⟨lists, stocked⟩ := held
  have written : Stocked window
      (window.writeLink memory block ((shard.lists clean).head order))
      (update shards cpu shard) lists owned
      (loose + blockCover order block) (credit + charge cpu clean order.frames) := by
    apply stocked.remember
    intro word untouched
    apply writeLink_of_ne
    rintro rfl
    rw [Pi.add_apply, blockCover_link fitting.frameSize_dvd order] at untouched
    omega
  refine ⟨update lists (cpu, clean, order) (block :: lists (cpu, clean, order)),
    written.replace ?_ ?_ ?_ ?_ ?_⟩
  · refine .cons fitting.nonzero ?_
    have tail := written.linked (cpu, clean, order)
    rw [Stocked.headOf_self] at tail
    rw [readLink_writeLink]
    exact tail
  · intro other member
    rcases List.mem_cons.1 member with rfl | later
    · exact fitting
    · exact stocked.fitting (cpu, clean, order) other later
  · intro cleanKind other member
    rcases List.mem_cons.1 member with rfl | later
    · intro word first last
      rw [writeLink_of_ne window memory (Nat.ne_of_gt first)]
      exact isClean cleanKind word first last
    · exact written.clean (cpu, clean, order) cleanKind other later
  · intro frame
    simp only [blocksCover, List.map_cons, List.sum_cons, Pi.add_apply]
    omega
  · intro other kind
    simp only [List.length_cons, Pi.add_apply, charge, add_mul, one_mul]
    split
    · omega
    · omega

section

variable (held : Held window shards cpu owned (loose + blockCover order block) 0 (memory, shard))
  (fitting : Fitting order block) (clean : Bool)

include held fitting

/-- The count of a shard has room for a loose block. -/
theorem room : shard.frames clean + order.frames ≤ wordLimit - 1 := by
  obtain ⟨lists, stocked⟩ := held
  have bound := stocked.weight_add_frames_le fitting cpu clean
  have counted := stocked.counted cpu clean
  simp only [update_self, Pi.zero_apply, add_zero] at counted
  have small : wordLimit / frameSize ≤ wordLimit - 1 := by decide
  omega

/-- A loose block is given to a shard, which counts its frames. -/
theorem give (isClean : clean = true → Clean memory order block) :
    Held window shards cpu owned loose 0 (Mem.give window memory shard order clean block) ∧
      ∀ kind, (Mem.give window memory shard order clean block).2.frames kind =
        shard.frames kind + (if clean = kind then order.frames else 0) := by
  have room := held.room fitting clean
  -- the count goes up first, which makes the block a credit
  have raised : Held window shards cpu owned (loose + blockCover order block)
      (0 + charge cpu clean order.frames)
      (memory, shard.setFrames clean (shard.frames clean + order.frames)) := by
    apply held.setFrames
    · simp [charge]
    · intro other kind apart
      simp [charge, apart]
  have commutes : (Mem.give window memory shard order clean block) =
      Mem.shelve window memory (shard.setFrames clean (shard.frames clean + order.frames))
        order clean block := by
    unfold Mem.give Mem.shelve
    dsimp only
    rw [lists_setFrames, frames_setLists, saturatingAdd, Nat.min_eq_left room]
    cases clean
    · rfl
    · rfl
  rw [commutes]
  refine ⟨raised.shelve fitting isClean, fun kind => ?_⟩
  unfold Mem.shelve
  rw [frames_setLists, frames_setFrames]
  split
  · next same => rw [same]
  · rfl

end

end Held

end FSystem.Kernel.Mem
