import FSystem.Kernel.FrameRegions
import Mathlib.Algebra.BigOperators.Fin
import Mathlib.Order.CompletePartialOrder

/-!
# The frame allocator hands out no frame twice

A machine is an allocator, the memory it keeps its lists in, and the frames its callers
hold.  In every state that calls lead to, the free blocks and the held frames share no
memory and add up to what was accepted, and clean blocks are zero.
-/

namespace FSystem.Kernel.Mem

open FrameAllocator

/-- The numbers of the frames of a block. -/
def Frame.numbers (self : Frame) : Finset Nat :=
  Finset.Ico (self.base / frameSize) (self.base / frameSize + self.order.frames)

/-- The allocator, its memory, the frames held and the regions added. -/
structure Machine where
  allocator : FrameAllocator
  memory : Memory
  held : Finset Nat
  regions : List (Nat × Nat)

/-- A call on the allocator, or what the owner of a frame does. -/
inductive Call
  | addRegion (cpu : Cpu) (base len : Nat) (reserved : List Reserved)
  | alloc (cpu : Cpu) (order : Order)
  | allocZeroed (cpu : Cpu) (order : Order)
  | free (cpu : Cpu) (frame : Frame)
  | coalesce (cpu : Cpu) (budget : Nat)
  | scrub (cpu : Cpu) (budget : Nat)
  | rebind (limit : Nat)
  | write (word value : Nat)

namespace Machine

/-- A machine whose allocator has nothing in it. -/
def boot (cookie : Nat) (memory : Memory) : Machine := ⟨.new cookie, memory, ∅, []⟩

/-- The frames of an answer are held from now on. -/
def hold (held : Finset Nat) : Option Frame → Finset Nat
  | none => held
  | some frame => held ∪ frame.numbers

/-- One call; `none` if it does not return. -/
def step (self : Machine) : Call → Option Machine
  | .addRegion cpu base len reserved =>
    let added := self.allocator.addRegion self.memory cpu base len reserved
    some { self with
      allocator := added.1, memory := added.2, regions := (base, len) :: self.regions }
  | .alloc cpu order =>
    (self.allocator.alloc self.memory cpu order).map fun taken =>
      { self with
        allocator := taken.2.1, memory := taken.2.2, held := hold self.held taken.1 }
  | .allocZeroed cpu order =>
    (self.allocator.allocZeroed self.memory cpu order).map fun taken =>
      { self with
        allocator := taken.2.1, memory := taken.2.2, held := hold self.held taken.1 }
  | .free cpu frame =>
    let freed := self.allocator.free self.memory cpu frame
    some { self with
      allocator := freed.1, memory := freed.2, held := self.held \ frame.numbers }
  | .coalesce cpu budget =>
    (self.allocator.coalesce self.memory cpu budget).map fun merged =>
      { self with allocator := merged.2.1, memory := merged.2.2 }
  | .scrub cpu budget =>
    (self.allocator.scrub self.memory cpu budget).map fun zeroed =>
      { self with allocator := zeroed.2.1, memory := zeroed.2.2 }
  | .rebind limit => some { self with allocator := self.allocator.rebind limit }
  | .write word value => some { self with memory := Function.update self.memory word value }

/-- Regions share no memory, a block given back is aligned and held, and a frame is written by
its holder. -/
def Follows (self : Machine) : Call → Prop
  | .addRegion _ base len _ => base < wordLimit ∧ len < wordLimit ∧
      ∀ region ∈ self.regions,
        Disjoint (Set.Ico base (base + len)) (Set.Ico region.1 (region.1 + region.2))
  | .free _ frame => frame.order.bytes ∣ frame.base ∧ frame.numbers ⊆ self.held
  | .write word _ => word / 512 ∈ self.held
  | _ => True

/-- A state that calls meeting a condition lead to. -/
inductive Reached (condition : Machine → Call → Prop) : Machine → Prop
  | boot (cookie : Nat) (memory : Memory) : Reached condition (boot cookie memory)
  | step {before after : Machine} {call : Call} (reached : Reached condition before)
      (allowed : condition before call) (answers : before.step call = some after) :
      Reached condition after

/-- The free blocks and the runs of the frontier, as ranges of addresses. -/
noncomputable def freeRanges (lists : Key → List Nat) (runs : List Run) : List (Nat × Nat) :=
  (Finset.univ.toList.flatMap fun key => (lists key).map fun block =>
    (block, block + key.2.2.bytes)) ++ runs.map fun run => (run.next, run.stop)

/-- The free lists of a machine are these, and they are as they should be. -/
structure Sound (machine : Machine) (lists : Key → List Nat) : Prop where
  linked : ∀ key, Linked (machine.allocator.map.readLink machine.memory)
    (headOf machine.allocator.shards key) (lists key)
  aligned : ∀ key, ∀ block ∈ lists key, key.2.2.bytes ∣ block
  framed : ∀ run ∈ machine.allocator.frontier.runs, frameSize ∣ run.next ∧ frameSize ∣ run.stop
  disjoint : (freeRanges lists machine.allocator.frontier.runs).Pairwise fun range other =>
    Disjoint (Set.Ico range.1 range.2) (Set.Ico other.1 other.2)
  apart : ∀ range ∈ freeRanges lists machine.allocator.frontier.runs,
    ∀ number ∈ machine.held, Disjoint (Set.Ico range.1 range.2)
      (Set.Ico (number * frameSize) (number * frameSize + frameSize))
  counted : machine.allocator.freeCount + machine.held.card = machine.allocator.total
  clean : ∀ cpu order, ∀ block ∈ lists (cpu, true, order), Clean machine.memory order block

/-- Every call returns, and what is allocated is aligned, held by nobody and, if asked for, zero. -/
structure Answering (machine : Machine) : Prop where
  alloc : ∀ cpu order, ∃ answer after memory,
    machine.allocator.alloc machine.memory cpu order = some (answer, after, memory) ∧
    ∀ frame, answer = some frame → frame.order = order ∧ order.bytes ∣ frame.base ∧
      Disjoint frame.numbers machine.held
  allocZeroed : ∀ cpu order, ∃ answer after memory,
    machine.allocator.allocZeroed machine.memory cpu order = some (answer, after, memory) ∧
    ∀ frame, answer = some frame → frame.order = order ∧ order.bytes ∣ frame.base ∧
      Disjoint frame.numbers machine.held ∧ Zeroed memory order frame.base
  coalesce : ∀ cpu budget, (machine.allocator.coalesce machine.memory cpu budget).isSome
  scrub : ∀ cpu budget, (machine.allocator.scrub machine.memory cpu budget).isSome

/-- How often a frame is held. -/
def heldCover (held : Finset Nat) (number : Nat) : Nat := if number ∈ held then 1 else 0

/-- These frames are accounted for, and are of a region. -/
structure Owns (machine : Machine) (owned : Nat → Nat) : Prop extends
    machine.allocator.Accounted machine.memory owned (heldCover machine.held) where
  placed : ∀ number, owned number ≠ 0 → ∃ region ∈ machine.regions,
    region.1 ≤ number * frameSize ∧ number * frameSize + frameSize ≤ region.1 + region.2
  nonzero : 0 ∉ machine.held

/-- What holds in every state. -/
def Invariant (machine : Machine) : Prop := ∃ owned, machine.Owns owned

section Holding

variable {held : Finset Nat} {frame : Frame}

theorem heldCover_union (apart : Disjoint held frame.numbers) :
    heldCover (held ∪ frame.numbers) = heldCover held + blockCover frame.order frame.base := by
  funext number
  have only : number ∈ held → number ∉ frame.numbers :=
    fun member => Finset.disjoint_left.1 apart member
  simp only [heldCover, Frame.numbers, blockCover, cover, Pi.add_apply, Finset.mem_union,
    Finset.mem_Ico] at only ⊢
  by_cases inHeld : number ∈ held
  · rw [if_pos (Or.inl inHeld), if_pos inHeld, if_neg (only inHeld)]
  · simp [inHeld]

theorem heldCover_sdiff (all : frame.numbers ⊆ held) :
    heldCover held = heldCover (held \ frame.numbers) + blockCover frame.order frame.base := by
  rw [← heldCover_union Finset.sdiff_disjoint, Finset.sdiff_union_of_subset all]

end Holding

variable {allocator : FrameAllocator} {held : Finset Nat}

section Steps

variable {machine : Machine} {owned : Nat → Nat} {memory : Memory} {order : Order}
  {frame : Frame} {after : FrameAllocator}

/-- A block that is outside beside what is held is not held. -/
theorem disjoint_of_kept
    (kept : allocator.Keeps memory owned (heldCover held + blockCover frame.order frame.base)) :
    Disjoint held frame.numbers := by
  obtain ⟨lists, stocked⟩ := kept.stocked
  refine Finset.disjoint_left.2 fun number inHeld inBlock => ?_
  have most := stocked.loose_le_one number
  have covers : blockCover frame.order frame.base number = 1 := by
    obtain ⟨low, high⟩ := Finset.mem_Ico.1 inBlock
    exact cover_of_mem low high
  simp only [Pi.add_apply, heldCover, if_pos inHeld] at most
  omega

/-- A fitting block is past the first frame. -/
theorem numbers_nonzero (fitting : Fitting frame.order frame.base) : 0 ∉ frame.numbers := by
  intro inBlock
  have low := (Finset.mem_Ico.1 inBlock).1
  have aligned := fitting.frameSize_dvd
  have nonzero := fitting.nonzero
  unfold frameSize at *
  omega

/-- What keeps the frames keeps the invariant. -/
theorem Owns.keep (owns : machine.Owns owned) (kept : after.Keeps memory owned (heldCover held))
    (sameTotal : after.total = machine.allocator.total) (nonzero : 0 ∉ held) :
    Invariant { machine with allocator := after, memory := memory, held := held } :=
  ⟨owned, ⟨kept, sameTotal.trans owns.total, owns.inside⟩, owns.placed, nonzero⟩

/-- What was asked for and is answered is held from then on. -/
theorem Owns.hold (owns : machine.Owns owned) {answer : Option Frame}
    (sameTotal : after.total = machine.allocator.total)
    (answered : after.Answered memory owned (heldCover machine.held) order answer) :
    Invariant { machine with
      allocator := after, memory := memory, held := Machine.hold machine.held answer } := by
  cases answer with
  | none => exact owns.keep answered sameTotal owns.nonzero
  | some frame =>
    obtain ⟨rfl, fitting, kept⟩ := answered
    rw [← heldCover_union (disjoint_of_kept kept)] at kept
    refine owns.keep kept sameTotal fun member => ?_
    exact (Finset.mem_union.1 member).elim owns.nonzero (numbers_nonzero fitting)

/-- A region does not begin in the last page of the address space, where its first whole frame
is past the largest address. -/
def Clear : Call → Prop
  | .addRegion _ base _ _ => base + frameSize ≤ wordLimit
  | _ => True

/-- What is held is memory. -/
theorem Owns.lt_of_held (owns : machine.Owns owned) :
    ∀ number ∈ machine.held, number < frameLimit := by
  intro number member
  by_contra far
  obtain ⟨lists, stocked⟩ := owns.kept.stocked
  have whole := stocked.covered number
  rw [owns.inside number (Nat.le_of_not_lt far)] at whole
  simp only [Pi.add_apply, heldCover, if_pos member] at whole
  omega

/-- A held block that is aligned may be on a list. -/
theorem Owns.fitting (owns : machine.Owns owned) (aligned : frame.order.bytes ∣ frame.base)
    (all : frame.numbers ⊆ machine.held) : Fitting frame.order frame.base := by
  have positive := frame.order.frames_pos
  have within : ∀ number ∈ frame.numbers, number ≠ 0 ∧ number < frameLimit := by
    intro number member
    refine ⟨?_, owns.lt_of_held number (all member)⟩
    rintro rfl
    exact owns.nonzero (all member)
  have first := within (frame.base / frameSize)
    (Finset.mem_Ico.2 ⟨Nat.le_refl _, Nat.lt_add_of_pos_right positive⟩)
  have last := within (frame.base / frameSize + frame.order.frames - 1)
    (Finset.mem_Ico.2 ⟨Nat.le_sub_one_of_lt (Nat.lt_add_of_pos_right positive),
      Nat.sub_one_lt (Nat.ne_of_gt (Nat.add_pos_right _ positive))⟩)
  have framed : frameSize ∣ frame.base := Nat.dvd_trans frame.order.frameSize_dvd_bytes aligned
  have bytes := frame.order.bytes_eq
  refine ⟨?_, aligned, ?_⟩
  · rintro isZero
    rw [isZero] at first
    exact first.1 (Nat.zero_div _)
  · unfold frameLimit frameSize wordLimit at *
    omega

/-- A call that callers may make returns, and the frames are accounted for after it. -/
theorem Invariant.step {call : Call} (invariant : machine.Invariant)
    (follows : machine.Follows call) (clear : Clear call) :
    ∃ after, machine.step call = some after ∧ after.Invariant := by
  obtain ⟨owned, owns⟩ := invariant
  cases call with
  | addRegion cpu base len reserved =>
    obtain ⟨-, -, apart⟩ := follows
    have fresh : ∀ number, base ≤ number * frameSize →
        number * frameSize + frameSize ≤ base + len → owned number = 0 := by
      intro number low high
      by_contra isOwned
      obtain ⟨region, member, begins, ends⟩ := owns.placed number isOwned
      have positive : 0 < frameSize := by decide
      exact Set.disjoint_left.1 (apart region member)
        (Set.mem_Ico.2 ⟨low, by omega⟩) (Set.mem_Ico.2 ⟨begins, by omega⟩)
    obtain ⟨owned', added, changed⟩ := addRegion_accounted owns.toAccounted cpu reserved clear fresh
    refine ⟨_, rfl, owned', added, ?_, owns.nonzero⟩
    intro number isOwned
    by_cases same : owned' number = owned number
    · rw [same] at isOwned
      obtain ⟨region, member, inside⟩ := owns.placed number isOwned
      exact ⟨region, List.mem_cons_of_mem _ member, inside⟩
    · exact ⟨(base, len), List.mem_cons_self, changed number same⟩
  | alloc cpu order =>
    obtain ⟨answer, after, next, takes, sameTotal, answered⟩ :=
      alloc_answered owns.kept cpu order
    refine ⟨_, ?_, owns.hold sameTotal answered⟩
    rw [Machine.step, takes]
    rfl
  | allocZeroed cpu order =>
    obtain ⟨answer, after, next, takes, sameTotal, answered, -⟩ :=
      allocZeroed_answered owns.kept cpu order
    refine ⟨_, ?_, owns.hold sameTotal answered⟩
    rw [Machine.step, takes]
    rfl
  | free cpu frame =>
    obtain ⟨aligned, all⟩ := follows
    have kept := owns.kept
    rw [heldCover_sdiff all] at kept
    refine ⟨_, rfl, owns.keep (free_keeps kept (owns.fitting aligned all) cpu) rfl ?_⟩
    exact fun member => owns.nonzero (Finset.mem_sdiff.1 member).1
  | coalesce cpu budget =>
    obtain ⟨count, after, next, runs, sameTotal, kept⟩ := coalesce_keeps owns.kept cpu budget
    refine ⟨_, ?_, owns.keep kept sameTotal owns.nonzero⟩
    rw [Machine.step, runs]
    rfl
  | scrub cpu budget =>
    obtain ⟨count, after, next, runs, sameTotal, kept⟩ := scrub_keeps owns.kept cpu budget
    refine ⟨_, ?_, owns.keep kept sameTotal owns.nonzero⟩
    rw [Machine.step, runs]
    rfl
  | rebind limit =>
    obtain ⟨⟨lists, stocked⟩, valid⟩ := owns.kept
    have kept : (machine.allocator.rebind limit).Keeps machine.memory owned (heldCover machine.held)
      := ⟨⟨lists, { stocked with }⟩, valid⟩
    exact ⟨_, rfl, owns.keep kept rfl owns.nonzero⟩
  | write word value =>
    have inHeld : word / 512 ∈ machine.held := follows
    have kept : machine.allocator.Keeps (Function.update machine.memory word value) owned
        (heldCover machine.held) := by
      apply owns.kept.remember
      intro other outside
      apply Function.update_of_ne
      rintro rfl
      simp only [heldCover, if_pos inHeld] at outside
      exact absurd outside (by decide)
    exact ⟨_, rfl, owns.keep kept rfl owns.nonzero⟩

end Steps

section Soundness

variable {machine : Machine} {owned outside : Nat → Nat} {memory : Memory}

/-- An addition of some shards' answers that stays below the largest word. -/
theorem foldl_saturatingAdd (pick : Cpu → Nat) (cpus : List Cpu) {start : Nat}
    (small : start + (cpus.map pick).sum ≤ wordLimit - 1) :
    cpus.foldl (fun total cpu => saturatingAdd total (pick cpu)) start =
      start + (cpus.map pick).sum := by
  induction cpus generalizing start with
  | nil => rfl
  | cons cpu rest ih =>
    rw [List.map_cons, List.sum_cons] at small ⊢
    have here : saturatingAdd start (pick cpu) = start + pick cpu := Nat.min_eq_left (by omega)
    rw [List.foldl_cons, here, ih (by omega)]
    omega

variable {lists : Key → List Nat}

/-- The frames on the lists are those the shards count. -/
theorem sum_listed {loose : Nat → Nat}
    (stocked : Stocked allocator.map memory allocator.shards lists owned loose 0) :
    ∑ number ∈ Finset.range frameLimit, listed lists number =
      ((List.finRange 8).map fun cpu =>
        (allocator.shards cpu).cleanFrames + (allocator.shards cpu).dirtyFrames).sum := by
  have shards : ∀ cpu, (allocator.shards cpu).cleanFrames + (allocator.shards cpu).dirtyFrames =
      ∑ kind, weight lists cpu kind := by
    intro cpu
    have clean := stocked.counted cpu true
    have dirty := stocked.counted cpu false
    rw [Fintype.sum_bool]
    simp only [Pi.zero_apply, Nat.add_zero, Shard.frames, if_true, Bool.false_eq_true,
      if_false] at clean dirty
    rw [clean, dirty]
  have kinds : ((List.finRange 8).map fun cpu =>
      (allocator.shards cpu).cleanFrames + (allocator.shards cpu).dirtyFrames).sum =
        ∑ pair : Cpu × Bool, weight lists pair.1 pair.2 := by
    rw [Fintype.sum_prod_type, ← List.sum_ofFn, List.ofFn_eq_map]
    simp [shards]
  rw [kinds]
  unfold listed weight
  rw [sum_tally, sum_tally]
  refine Finset.sum_congr rfl fun key _ => congrArg List.sum (List.map_congr_left ?_)
  intro block member
  have one : ∀ pair : Cpu × Bool, charge key.1 key.2.1 key.2.2.frames pair.1 pair.2 =
      if pair = (key.1, key.2.1) then key.2.2.frames else 0 := by
    intro pair
    refine if_congr ?_ rfl rfl
    rw [Prod.ext_iff]
    exact and_congr eq_comm eq_comm
  dsimp only
  rw [frameLimit, (stocked.fitting key block member).sum_blockCover]
  simp [one, Finset.sum_ite_eq']

theorem sum_heldCover (inside : ∀ number ∈ held, number < frameLimit) :
    ∑ number ∈ Finset.range frameLimit, heldCover held number = held.card := by
  unfold heldCover
  rw [← Finset.card_filter]
  congr 1
  ext number
  rw [Finset.mem_filter, Finset.mem_range]
  exact ⟨fun both => both.2, fun member => ⟨inside number member, member⟩⟩

/-- What is free and what is held is everything. -/
theorem Owns.freeCount_add_card (owns : machine.Owns owned) :
    machine.allocator.freeCount + machine.held.card = machine.allocator.total := by
  have within := owns.lt_of_held
  obtain ⟨⟨⟨lists, stocked⟩, valid⟩, total, inside⟩ := owns.toAccounted
  have parts : machine.allocator.total = ((List.finRange 8).map fun cpu =>
      (machine.allocator.shards cpu).cleanFrames + (machine.allocator.shards cpu).dirtyFrames).sum +
      (machine.allocator.frontier.frames + machine.held.card) := by
    rw [total, ← sum_listed stocked, ← valid.sum_runsCover, ← sum_heldCover within,
      ← Finset.sum_add_distrib, ← Finset.sum_add_distrib]
    exact Finset.sum_congr rfl fun number _ => (stocked.covered number).symm
  have most : machine.allocator.total ≤ frameLimit := by
    rw [total]
    exact sum_le_frameLimit stocked.once
  have small : frameLimit ≤ wordLimit - 1 := by decide
  unfold freeCount sum
  rw [foldl_saturatingAdd (fun cpu => (machine.allocator.shards cpu).cleanFrames +
    (machine.allocator.shards cpu).dirtyFrames) _ (by omega), saturatingAdd, Nat.min_eq_left]
  · omega
  · omega

/-- How often a range of addresses covers a frame. -/
def rangeCover (number : Nat) (range : Nat × Nat) : Nat :=
  cover (range.1 / frameSize) (range.2 / frameSize) number

variable {runs : List Run}

/-- The free ranges cover what the lists and the frontier do. -/
theorem sum_rangeCover (fitting : ∀ key, ∀ block ∈ lists key, Fitting key.2.2 block)
    (number : Nat) :
    ((freeRanges lists runs).map (rangeCover number)).sum =
      listed lists number + runsCover runs number := by
  unfold freeRanges listed tally
  rw [List.map_append, List.sum_append, List.map_flatMap, List.flatMap_def, List.sum_flatten,
    List.map_map, Finset.sum_map_toList]
  refine congrArg₂ (· + ·) ?_ ?_
  · refine Finset.sum_congr rfl fun key _ => ?_
    rw [Function.comp_apply, List.map_map]
    refine congrArg List.sum (List.map_congr_left fun block member => ?_)
    unfold blockCover
    dsimp only
    rw [← add_bytes_div (fitting key block member).frameSize_dvd]
    rfl
  · rw [List.map_map]
    rfl

/-- Ranges of whole frames that share no frame share no address. -/
theorem disjoint_of_rangeCover {range other : Nat × Nat} (aligned : frameSize ∣ range.2)
    (alignedToo : frameSize ∣ other.2)
    (apart : ∀ number, rangeCover number range + rangeCover number other ≤ 1) :
    Disjoint (Set.Ico range.1 range.2) (Set.Ico other.1 other.2) := by
  refine Set.disjoint_left.2 fun addr inRange inOther => ?_
  have covers : ∀ {bounds : Nat × Nat}, frameSize ∣ bounds.2 → addr ∈ Set.Ico bounds.1 bounds.2 →
      rangeCover (addr / frameSize) bounds = 1 := by
    intro bounds ends inside
    refine cover_of_mem (Nat.div_le_div_right inside.1) ?_
    exact (Nat.div_lt_iff_lt_mul (by decide)).2 (by rw [Nat.div_mul_cancel ends]; exact inside.2)
  have most := apart (addr / frameSize)
  rw [covers aligned inRange, covers alignedToo inOther] at most
  exact absurd most (by decide)

theorem freeRanges_aligned (fitting : ∀ key, ∀ block ∈ lists key, Fitting key.2.2 block)
    (whole : ∀ run ∈ runs, Whole run.next run.stop) {range : Nat × Nat}
    (member : range ∈ freeRanges lists runs) : frameSize ∣ range.2 := by
  rcases List.mem_append.1 member with onList | onFrontier
  · obtain ⟨key, -, isBlock⟩ := List.mem_flatMap.1 onList
    obtain ⟨block, held, rfl⟩ := List.mem_map.1 isBlock
    exact Nat.dvd_add (fitting key block held).frameSize_dvd key.2.2.frameSize_dvd_bytes
  · obtain ⟨run, held, rfl⟩ := List.mem_map.1 onFrontier
    exact (whole run held).stopAligned

/-- What is accounted for is sound. -/
theorem Invariant.sound (invariant : machine.Invariant) : ∃ lists, machine.Sound lists := by
  obtain ⟨owned, owns⟩ := invariant
  have counted := owns.freeCount_add_card
  obtain ⟨⟨lists, stocked⟩, valid⟩ := owns.kept
  have covered : ∀ number, ((freeRanges lists machine.allocator.frontier.runs).map
      (rangeCover number)).sum + heldCover machine.held number ≤ 1 := by
    intro number
    have whole := stocked.covered number
    have most := stocked.once number
    rw [sum_rangeCover stocked.fitting]
    simp only [Pi.add_apply] at whole
    omega
  refine ⟨lists, stocked.linked, fun key block member => (stocked.fitting key block member).aligned,
    fun run member => ⟨(valid.whole run member).startAligned,
      (valid.whole run member).stopAligned⟩, ?_, ?_, counted,
    fun cpu order => stocked.clean (cpu, true, order) rfl⟩
  · have pairwise := pairwise_of_sum_le_one fun number =>
      Nat.le_trans (Nat.le_add_right _ _) (covered number)
    refine pairwise.imp_of_mem fun first second apart => ?_
    exact disjoint_of_rangeCover (freeRanges_aligned stocked.fitting valid.whole first)
      (freeRanges_aligned stocked.fitting valid.whole second) apart
  · intro range member number inHeld
    have heldAligned : frameSize ∣ ((number * frameSize, number * frameSize + frameSize) : Nat ×
      Nat).2 := Nat.dvd_add (Nat.dvd_mul_left _ _) (Nat.dvd_refl _)
    refine disjoint_of_rangeCover (freeRanges_aligned stocked.fitting valid.whole member)
      heldAligned fun frame => ?_
    have counts : rangeCover frame range ≤ ((freeRanges lists
      machine.allocator.frontier.runs).map (rangeCover frame)).sum := le_sum_map member
    have most := covered frame
    have one : rangeCover frame (number * frameSize, number * frameSize + frameSize) ≤
        heldCover machine.held frame := by
      by_cases covered : 0 < rangeCover frame (number * frameSize, number * frameSize + frameSize)
      · obtain ⟨low, high⟩ := cover_pos_iff.1 covered
        have same : frame = number := by
          unfold frameSize at low high
          omega
        have isHeld : heldCover machine.held frame = 1 := by rw [same, heldCover, if_pos inHeld]
        rw [isHeld, rangeCover, cover_of_mem low high]
      · omega
    omega

/-- Every call from a state that is accounted for answers as it should. -/
theorem Invariant.answering (invariant : machine.Invariant) : machine.Answering := by
  obtain ⟨owned, owns⟩ := invariant
  have told : ∀ {after : FrameAllocator} {next : Memory} {order : Order} {answer : Option Frame},
      after.Answered next owned (heldCover machine.held) order answer →
      ∀ frame, answer = some frame → frame.order = order ∧ order.bytes ∣ frame.base ∧
        Disjoint frame.numbers machine.held := by
    rintro after next order - answered frame rfl
    obtain ⟨rfl, fitting, kept⟩ := answered
    exact ⟨rfl, fitting.aligned, (disjoint_of_kept kept).symm⟩
  refine ⟨fun cpu order => ?_, fun cpu order => ?_, fun cpu budget => ?_, fun cpu budget => ?_⟩
  · obtain ⟨answer, after, next, takes, -, answered⟩ := alloc_answered owns.kept cpu order
    exact ⟨answer, after, next, takes, told answered⟩
  · obtain ⟨answer, after, next, takes, -, answered, zeroed⟩ :=
      allocZeroed_answered owns.kept cpu order
    refine ⟨answer, after, next, takes, fun frame same => ?_⟩
    obtain ⟨sameOrder, aligned, apart⟩ := told answered frame same
    exact ⟨sameOrder, aligned, apart, zeroed frame same⟩
  · obtain ⟨count, after, next, runs, -⟩ := coalesce_keeps owns.kept cpu budget
    rw [runs]
    rfl
  · obtain ⟨count, after, next, runs, -⟩ := scrub_keeps owns.kept cpu budget
    rw [runs]
    rfl

end Soundness

/-- Before any call nothing is owned. -/
theorem boot_invariant (cookie : Nat) (memory : Memory) : (boot cookie memory).Invariant := by
  have empty : Stocked (new cookie).map memory (new cookie).shards
      (fun _ => []) 0 (runsCover [] + heldCover ∅) 0 := by
    refine ⟨fun key => ?_, fun _ _ member => absurd member List.not_mem_nil, fun number => ?_,
      fun _ => Nat.zero_le _, fun _ _ _ member => absurd member List.not_mem_nil,
      fun cpu clean => ?_⟩
    · have head : headOf (new cookie).shards key = 0 := by
        unfold headOf
        cases key.2.1
        · rfl
        · rfl
      rw [head]
      exact .nil
    · simp [listed, tally, runsCover, heldCover]
    · cases clean with
      | false | true => simp [weight, tally, new, Shard.frames, Shard.empty]
  refine ⟨0, ⟨⟨⟨_, empty⟩, ?_, rfl⟩, ?_, fun _ _ => rfl⟩, fun _ changed => absurd rfl changed,
    Finset.notMem_empty 0⟩
  · exact fun _ member => absurd member List.not_mem_nil
  · simp [boot, new]

/-- In every state that calls lead to, by callers who keep to what they promise and with no
region that begins in the last page of the address space: the free blocks are aligned, share
no memory with each other or with what is held, and add up with it to the total; clean
blocks are zero but for their links; and every call returns, an allocation with memory that
nobody holds, and zero throughout if that was asked for. -/
theorem frames_handed_out_once
    {machine : Machine}
    (reached : Reached (fun before call => before.Follows call ∧ Clear call) machine) :
    (∃ lists, machine.Sound lists) ∧ machine.Answering := by
  have invariant : machine.Invariant := by
    induction reached with
    | boot cookie memory => exact boot_invariant cookie memory
    | step reached allowed answers ih =>
      obtain ⟨after, runs, done⟩ := ih.step allowed.1 allowed.2
      rw [answers] at runs
      cases runs
      exact done
  exact ⟨invariant.sound, invariant.answering⟩

/-- Two frames are added, and one of them is taken. -/
def taken : Option Machine :=
  ((boot 7 fun _ => 0).step (.addRegion 0 (2 ^ 20) 8192 [])).bind
    fun machine => machine.step (.alloc 0 .frame)

theorem frames_handed_out_once_taken :
    ∃ machine, taken = some machine ∧ machine.held = {256} ∧
      (∃ lists, machine.Sound lists) ∧ machine.Answering := by
  have holds : taken.map Machine.held = some {256} := by decide +kernel
  obtain ⟨machine, runs, held⟩ := Option.map_eq_some_iff.1 holds
  obtain ⟨added, adds, takes⟩ := Option.bind_eq_some_iff.1 runs
  have mayAdd : (boot 7 fun _ => 0).Follows (.addRegion 0 (2 ^ 20) 8192 []) :=
    ⟨by decide, by decide, fun _ member => absurd member List.not_mem_nil⟩
  have clear : 2 ^ 20 + frameSize ≤ wordLimit := by decide
  have mayTake : added.Follows (.alloc 0 .frame) := trivial
  exact ⟨machine, runs, held, frames_handed_out_once
    (.step (.step (.boot 7 fun _ => 0) ⟨mayAdd, clear⟩ adds) ⟨mayTake, trivial⟩ takes)⟩

/-- One frame is added, and then the byte before the last one of the address space. -/
def wrapped : Option Machine :=
  ((boot 7 fun _ => 0).step (.addRegion 0 (2 ^ 20) 4096 [])).bind
    fun machine => machine.step (.addRegion 0 (2 ^ 64 - 2) 1 [])

/-- The first whole frame of a region in the last page wraps to address zero, and memory
that another region has already brought is accepted again. -/
theorem last_page_region_overlaps :
    ∃ machine, Reached Follows machine ∧ ¬∃ lists, machine.Sound lists := by
  have runs : wrapped.map (fun machine => machine.allocator.frontier.runs) =
      some [⟨2 ^ 20, 2 ^ 20 + 4096⟩, ⟨2 ^ 20, 2 ^ 30⟩] := by decide +kernel
  have first : ((boot 7 fun _ => 0).step (.addRegion 0 (2 ^ 20) 4096 [])).map Machine.regions =
      some [(2 ^ 20, 4096)] := by decide +kernel
  obtain ⟨machine, steps, overlapping⟩ := Option.map_eq_some_iff.1 runs
  obtain ⟨added, adds, wraps⟩ := Option.bind_eq_some_iff.1 steps
  obtain ⟨same, addsSame, regions⟩ := Option.map_eq_some_iff.1 first
  rw [adds] at addsSame
  cases addsSame
  refine ⟨machine, .step (.step (.boot 7 fun _ => 0) ?_ adds) ?_ wraps, ?_⟩
  · exact ⟨by decide, by decide, fun _ member => absurd member List.not_mem_nil⟩
  · refine ⟨by decide, by decide, fun region member => ?_⟩
    rw [regions, List.mem_singleton] at member
    rw [member, Set.disjoint_left]
    intro addr high low
    have above := high.1
    have below := low.2
    omega
  · rintro ⟨lists, sound⟩
    have pairwise := sound.disjoint
    rw [overlapping] at pairwise
    have apart := (List.pairwise_append.1 pairwise).2.1
    have disjoint := (List.pairwise_cons.1 apart).1 (2 ^ 20, 2 ^ 30) (by decide)
    exact Set.disjoint_left.1 disjoint (Set.mem_Ico.2 ⟨Nat.le_refl _, by decide⟩)
      (Set.mem_Ico.2 ⟨Nat.le_refl _, by decide⟩)

end Machine

end FSystem.Kernel.Mem
