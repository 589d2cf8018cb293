import FSystem.Kernel.FrameCoalesce

/-!
# What each call on the frame allocator does

Every call keeps each frame on a list, on the frontier or outside, and says which frames it
moves from one to another.
-/

namespace FSystem.Kernel.Mem

open Function

variable {block : Nat} {order : Order}

section Kept

variable {window : Window} {memory after : Memory} {shards : Cpu → Shard} {cpu : Cpu}
  {frontier : Frontier} {owned outside : Nat → Nat} {shard other : Shard}

/-- Changes in frames that are outside do not matter. -/
theorem Kept.remember (kept : Kept window memory shards frontier owned outside)
    (same : ∀ word, outside (word / 512) = 0 → after word = memory word) :
    Kept window after shards frontier owned outside := by
  obtain ⟨⟨lists, stocked⟩, valid⟩ := kept
  refine ⟨⟨lists, stocked.remember ?_⟩, valid⟩
  intro word untouched
  apply same
  rw [Pi.add_apply] at untouched
  omega

/-- Changes in a block that is outside do not matter. -/
theorem Kept.rewrite
    (kept : Kept window memory shards frontier owned (outside + blockCover order block))
    (same : ∀ {word}, blockCover order block (word / 512) = 0 → after word = memory word) :
    Kept window after shards frontier owned (outside + blockCover order block) := by
  refine kept.remember fun word untouched => same ?_
  rw [Pi.add_apply] at untouched
  omega

/-- A block that was outside is given to a core. -/
theorem Kept.give
    (kept : Kept window memory (update shards cpu shard) frontier owned
      (outside + blockCover order block)) (fitting : Fitting order block) (clean : Bool)
    (isClean : clean = true → Clean memory order block) :
    Kept window (give window memory shard order clean block).1
        (update shards cpu (give window memory shard order clean block).2)
        frontier owned outside ∧
      ∀ kind, (Mem.give window memory shard order clean block).2.frames kind =
        shard.frames kind + (if clean = kind then order.frames else 0) := by
  obtain ⟨held, valid⟩ := kept
  rw [← add_assoc] at held
  obtain ⟨given, frames⟩ := Held.give held fitting clean isClean
  exact ⟨⟨given, valid⟩, frames⟩

/-- The buddies of a core are merged. -/
theorem Kept.coalesceShard
    (kept : Kept window memory (update shards cpu shard) frontier owned outside)
    (budget : Nat) :
    ∃ next merged count,
      Mem.coalesceShard window memory shard budget = some (next, merged, count) ∧
      Kept window next (update shards cpu merged) frontier owned outside := by
  obtain ⟨next, merged, count, runs, done⟩ := coalesceFrom_merges kept.stocked
  exact ⟨next, merged, count, runs, done, kept.valid⟩

end Kept

section Zeroes

variable {memory : Memory} {order : Order} {block : Nat}

/-- Every word of a block is zero. -/
def Zeroed (memory : Memory) (order : Order) (block : Nat) : Prop :=
  ∀ word, wordAt block ≤ word → word < wordAt (block + order.bytes) → memory word = 0

theorem Zeroed.clean (zeroed : Zeroed memory order block) : Clean memory order block :=
  fun word first last => zeroed word (Nat.le_of_lt first) last

theorem zeroed_zero : Zeroed (Window.zero memory block order) order block := by
  intro word first last
  rw [Window.zero, if_pos ⟨first, last⟩]

theorem Clean.clearLink (clean : Clean memory order block) :
    Zeroed (Window.clearLink memory block) order block := by
  intro word first last
  unfold Window.clearLink
  rcases Nat.eq_or_lt_of_le first with same | behind
  · rw [← same, update_self]
  · rw [update_of_ne (Nat.ne_of_gt behind)]
    exact clean word behind last

variable {word : Nat}

theorem zero_of_outside (aligned : frameSize ∣ block)
    (outside : blockCover order block (word / 512) = 0) :
    Window.zero memory block order word = memory word := by
  apply if_neg
  rintro ⟨first, last⟩
  rw [blockCover_word aligned first last] at outside
  exact absurd outside (by decide)

theorem clearLink_of_outside (aligned : frameSize ∣ block) (order : Order)
    (outside : blockCover order block (word / 512) = 0) :
    Window.clearLink memory block word = memory word := by
  apply update_of_ne
  rintro rfl
  rw [blockCover_link aligned order] at outside
  exact absurd outside (by decide)

end Zeroes

section Steal

variable {window : Window} {memory next : Memory} {shards robbed : Cpu → Shard} {me : Cpu}
  {frontier : Frontier} {owned outside : Nat → Nat} {order here : Order}

/-- Taking a whole block off a list is taking one of its own order. -/
theorem popAt_self {shard : Shard} {clean : Bool} {lists : Lists}
    (popped : listPop window memory (shard.lists clean) here = some (block, lists)) :
    popAt window memory shard here clean here =
      some (block, memory, (shard.setLists clean lists).setFrames clean
        ((shard.setLists clean lists).frames clean - here.frames)) := by
  have whole : ∀ steps shard, splitFrom window clean block here steps here memory shard =
      (memory, shard) := by
    intro steps shard
    cases steps with
    | zero => rfl
    | succ steps => rw [splitFrom, if_neg (Nat.lt_irrefl _)]
  unfold popAt
  rw [popped]
  dsimp only
  rw [splitDown, whole]

/-- A block goes from one core's lists to another's. -/
theorem stealAt_kept (kept : Kept window memory shards frontier owned outside)
    {others : List (Cpu × Bool)} (foreign : ∀ other ∈ others, other.1 ≠ me)
    (stolen : stealAt window memory shards me here others = some (next, robbed)) :
    Kept window next robbed frontier owned outside := by
  induction others with
  | nil => cases stolen
  | cons other rest ih =>
    obtain ⟨cpu, clean⟩ := other
    have notMe : cpu ≠ me := foreign _ List.mem_cons_self
    unfold stealAt at stolen
    split at stolen
    · exact ih (fun other later => foreign other (List.mem_cons_of_mem _ later)) stolen
    next block lists popped =>
      cases stolen
      obtain ⟨held, valid⟩ := kept
      rw [← update_eq_self cpu shards] at held
      obtain ⟨fitting, isClean, -, off⟩ := popAt_held (Nat.le_refl _) held (popAt_self popped)
      rw [add_assoc, Held, ← update_eq_self me (update shards cpu _),
        update_of_ne notMe.symm] at off
      exact (Kept.give ⟨off, valid⟩ fitting clean isClean).1

/-- Stealing keeps the frames. -/
theorem steal_kept (kept : Kept window memory shards frontier owned outside)
    (stolen : steal window memory shards me order = some (next, robbed)) :
    Kept window next robbed frontier owned outside := by
  obtain ⟨here, -, answers⟩ := Order.upward_some stolen
  refine stealAt_kept kept ?_ answers
  intro other member
  simp only [victims, List.mem_flatMap, List.mem_filter, decide_eq_true_eq] at member
  obtain ⟨cpu, ⟨-, notMe⟩, isCpu⟩ := member
  simp only [List.mem_cons, List.not_mem_nil, or_false] at isCpu
  rcases isCpu with rfl | rfl
  · exact notMe
  · exact notMe

end Steal

namespace FrameAllocator

/-- Every frame an allocator owns is on a list, on the frontier or outside, once. -/
abbrev Keeps (self : FrameAllocator) (memory : Memory) (owned outside : Nat → Nat) : Prop :=
  Kept self.map memory self.shards self.frontier owned outside

section Taking

variable {self : FrameAllocator} {memory : Memory} {owned outside : Nat → Nat}

/-- What one core reaches is kept. -/
theorem Keeps.reach (kept : self.Keeps memory owned outside) (cpu : Cpu) :
    (self.reach memory cpu).Kept self.map self.shards cpu owned outside := by
  unfold Reach.Kept FrameAllocator.reach
  rw [update_eq_self]
  exact kept

theorem record_kept
    {window : Window}
    {shards : Cpu → Shard}
    {cpu : Cpu}
    {reach : Reach}
    (kept : reach.Kept window shards cpu owned outside)
    (source : Source)
    (stolen : Bool) :
    ({ reach with shard := record reach.shard source stolen } : Reach).Kept window shards cpu
      owned outside := by
  refine ⟨Held.of_shard kept.stocked ?_ ?_, kept.valid⟩
  all_goals
    intro kind
    cases stolen with
    | true => rfl
    | false => cases source <;> rfl

/-- What an allocation leaves: the block it answers outside, or everything kept. -/
def Allotted (self : FrameAllocator) (memory : Memory) (owned outside : Nat → Nat)
    (order : Order) : Option (Nat × Bool) → Prop
  | none => self.Keeps memory owned outside
  | some (block, clean) =>
    Fitting order block ∧ (clean = true → Clean memory order block) ∧
      self.Keeps memory owned (outside + blockCover order block)

/-- The allocation path returns, with a block of the order or without. -/
theorem take_allotted (kept : self.Keeps memory owned outside) (cpu : Cpu) (order : Order)
    (preferClean : Bool) :
    ∃ result after next, self.take memory cpu order preferClean = some (result, after, next) ∧
      after.total = self.total ∧ after.Allotted next owned outside order result := by
  have first := attempt_passed (kept.reach cpu) order preferClean
  unfold take
  rcases firstAnswer : attempt self.map (self.reach memory cpu) order preferClean with
    ⟨_ | ⟨block, source, clean⟩, reach⟩
  · rw [firstAnswer] at first
    dsimp only
    obtain ⟨merged, shard, count, merges, mergedKept⟩ := Kept.coalesceShard first (wordLimit - 1)
    rw [merges]
    dsimp only
    have again : (⟨merged, reach.frontier, shard⟩ : Reach).Kept self.map self.shards cpu owned
      outside := mergedKept
    have second := attempt_passed again order preferClean
    rcases secondAnswer : attempt self.map ⟨merged, reach.frontier, shard⟩ order preferClean with
      ⟨_ | ⟨block, source, clean⟩, tried⟩
    · rw [secondAnswer] at second
      dsimp only
      cases stolen : steal self.map tried.memory (self.reached cpu tried).shards cpu order with
      | none => exact ⟨none, _, _, rfl, rfl, second⟩
      | some result =>
        obtain ⟨next, shards⟩ := result
        dsimp only
        have robbed : ({ self.reached cpu tried with shards := shards } :
            FrameAllocator).Keeps next owned outside := steal_kept second stolen
        generalize thirdAnswer : attempt self.map
            (({ self.reached cpu tried with shards := shards } : FrameAllocator).reach next cpu)
            order preferClean = answer
        have third : Passed self.map shards cpu owned outside order answer :=
          thirdAnswer ▸ attempt_passed (Keeps.reach robbed cpu) order preferClean
        rcases answer with ⟨_ | ⟨block, source, clean⟩, last⟩
        · exact ⟨none, _, _, rfl, rfl, third⟩
        · exact ⟨some (block, clean), _, _, rfl, rfl, third.fitting, third.isClean,
            record_kept third.kept source true⟩
    · rw [secondAnswer] at second
      exact ⟨some (block, clean), _, _, rfl, rfl, second.fitting, second.isClean,
        record_kept second.kept source false⟩
  · rw [firstAnswer] at first
    exact ⟨some (block, clean), _, _, rfl, rfl, first.fitting, first.isClean,
      record_kept first.kept source false⟩

/-- What a caller is told: a block of the order asked for, outside now, or none. -/
def Answered (self : FrameAllocator) (memory : Memory) (owned outside : Nat → Nat)
    (order : Order) : Option Frame → Prop
  | none => self.Keeps memory owned outside
  | some frame => frame.order = order ∧ Fitting order frame.base ∧
      self.Keeps memory owned (outside + blockCover order frame.base)

/-- An allocation is answered. -/
theorem alloc_answered (kept : self.Keeps memory owned outside) (cpu : Cpu) (order : Order) :
    ∃ result after next, self.alloc memory cpu order = some (result, after, next) ∧
      after.total = self.total ∧ after.Answered next owned outside order result := by
  obtain ⟨result, after, next, takes, sameTotal, allotted⟩ := take_allotted kept cpu order false
  refine ⟨result.map fun block => ⟨block.1, order⟩, after, next, ?_, sameTotal, ?_⟩
  · rw [alloc, takes]
    rfl
  · cases result with
    | none => exact allotted
    | some found => exact ⟨rfl, allotted.1, allotted.2.2⟩

/-- A zeroed block is one, throughout. -/
theorem allocZeroed_answered (kept : self.Keeps memory owned outside) (cpu : Cpu) (order : Order) :
    ∃ result after next, self.allocZeroed memory cpu order = some (result, after, next) ∧
      after.total = self.total ∧ after.Answered next owned outside order result ∧
      ∀ frame, result = some frame → Zeroed next order frame.base := by
  obtain ⟨result, after, next, takes, sameTotal, allotted⟩ := take_allotted kept cpu order true
  unfold allocZeroed
  rw [takes]
  cases result with
  | none => exact ⟨none, after, next, rfl, sameTotal, allotted, nofun⟩
  | some found =>
    obtain ⟨block, clean⟩ := found
    obtain ⟨fitting, isClean, blockKept⟩ := allotted
    have aligned := fitting.frameSize_dvd
    refine ⟨some ⟨block, order⟩, after, _, rfl, sameTotal, ⟨rfl, fitting, ?_⟩, ?_⟩
    · cases clean with
      | true => exact blockKept.rewrite (clearLink_of_outside aligned order)
      | false => exact blockKept.rewrite (zero_of_outside aligned)
    · rintro frame same
      cases same
      cases clean with
      | true => exact (isClean rfl).clearLink
      | false => exact zeroed_zero

/-- A block that is outside comes back. -/
theorem free_keeps {frame : Frame}
    (kept : self.Keeps memory owned (outside + blockCover frame.order frame.base))
    (fitting : Fitting frame.order frame.base) (cpu : Cpu) :
    (self.free memory cpu frame).1.Keeps (self.free memory cpu frame).2 owned outside := by
  unfold Keeps at kept
  rw [← update_eq_self cpu self.shards] at kept
  exact (kept.give fitting false nofun).1

/-- Coalescing keeps the frames. -/
theorem coalesce_keeps (kept : self.Keeps memory owned outside) (cpu : Cpu) (budget : Nat) :
    ∃ merged after next, self.coalesce memory cpu budget = some (merged, after, next) ∧
      after.total = self.total ∧ after.Keeps next owned outside := by
  unfold Keeps at kept
  rw [← update_eq_self cpu self.shards] at kept
  obtain ⟨next, shard, count, runs, done⟩ := kept.coalesceShard budget
  refine ⟨count, { self with shards := update self.shards cpu shard }, next, ?_, rfl, done⟩
  rw [coalesce, runs]

end Taking

section Scrub

variable {window : Window} {shards : Cpu → Shard} {cpu : Cpu} {owned outside : Nat → Nat}

/-- What is left to zero. -/
def unscrubbed (reach : Reach) : Nat := 2 * reach.frontier.frames + reach.shard.frames false

/-- A dirty block is zeroed and put on the clean lists. -/
theorem scrub_block {reach after : Reach} (kept : reach.Kept window shards cpu owned outside)
    (popped : reach.pop window order false = some (block, after)) :
    let given := give window (Window.zero after.memory block order) after.shard order true block
    let next : Reach := { after with memory := given.1, shard := given.2 }
    next.Kept window shards cpu owned outside ∧ unscrubbed next < unscrubbed reach := by
  obtain ⟨⟨fitting, -, took⟩, sameFrontier, counts⟩ := Reach.pop_took kept popped
  have zeroed := took.rewrite (zero_of_outside fitting.frameSize_dvd)
  obtain ⟨done, frames⟩ := zeroed.give fitting true fun _ => zeroed_zero.clean
  refine ⟨done, ?_⟩
  have dirty := frames false
  have before := counts false
  have positive := order.frames_pos
  rw [if_neg (by decide)] at dirty
  rw [if_pos rfl] at before
  unfold unscrubbed
  rw [dirty, sameFrontier]
  omega

/-- Scrubbing ends, and keeps everything. -/
theorem scrubFrom_kept
    {steps : Nat}
    {reach : Reach}
    (kept : reach.Kept window shards cpu owned outside)
    (budget done : Nat)
    (enough : unscrubbed reach < steps) :
    ∃ total after, scrubFrom window budget steps reach done = some (total, after) ∧
      after.Kept window shards cpu owned outside := by
  fun_induction scrubFrom window budget steps reach done with
  | case1 => cases enough
  | case2 reach done more steps want block left popped =>
    rename_i ih
    obtain ⟨_, answers⟩ := Order.downward_some popped
    rw [Option.map_eq_some_iff] at answers
    obtain ⟨⟨found, left⟩, pops, same⟩ := answers
    cases same
    obtain ⟨next, less⟩ := scrub_block kept pops
    exact ih next (less.trans_le (Nat.le_of_lt_succ enough))
  | case3 reach done more steps popped next result ih =>
    have refilled := @refill_kept window shards cpu owned outside reach Order.frame kept
    rw [result] at refilled
    have less : unscrubbed next < unscrubbed reach := refilled.2 rfl
    exact ih refilled.1 (by omega)
  | case4 reach done more steps popped next result =>
    have refilled := @refill_kept window shards cpu owned outside reach Order.frame kept
    rw [result] at refilled
    exact ⟨done, next, rfl, refilled.1⟩
  | case5 _ reach done => exact ⟨done, reach, rfl, kept⟩

/-- Scrubbing keeps the frames. -/
theorem scrub_keeps
    {self : FrameAllocator}
    {memory : Memory}
    (kept : self.Keeps memory owned outside)
    (cpu : Cpu)
    (budget : Nat) :
    ∃ done after next, self.scrub memory cpu budget = some (done, after, next) ∧
      after.total = self.total ∧ after.Keeps next owned outside := by
  have enough : unscrubbed (self.reach memory cpu) <
      2 * self.frontier.frames + (self.shards cpu).dirtyFrames + 1 := Nat.lt_succ_self _
  obtain ⟨total, reach, runs, done⟩ := scrubFrom_kept (kept.reach cpu) budget 0 enough
  refine ⟨total, self.reached cpu reach, reach.memory, ?_, rfl, done⟩
  rw [scrub, runs]

end Scrub

end FrameAllocator

end FSystem.Kernel.Mem
