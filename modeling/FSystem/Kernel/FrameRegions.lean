import FSystem.Kernel.FrameSteps

/-!
# Accepting a region of memory

A region's whole frames that are usable are added to what the allocator owns, run by run.
No frame outside the region is.
-/

namespace FSystem.Kernel.Mem

open Nat

/-- One past the largest number a frame can have. -/
def frameLimit : Nat := wordLimit / frameSize

variable {stop : Nat}

theorem div_le_frameLimit (inside : stop ≤ wordLimit) : stop / frameSize ≤ frameLimit :=
  Nat.div_le_div_right inside

section Gain

variable {window : Window} {memory : Memory} {shards : Cpu → Shard} {lists : Key → List Nat}
  {owned loose gained : Nat → Nat} {credit : Cpu → Bool → Nat}

/-- Frames that were not owned are, and are loose. -/
theorem Stocked.gain (stocked : Stocked window memory shards lists owned loose credit)
    (once : ∀ frame, owned frame + gained frame ≤ 1) :
    Stocked window memory shards lists (owned + gained) (loose + gained) credit := { stocked with
  covered := by
    intro frame
    rw [Pi.add_apply, Pi.add_apply, ← Nat.add_assoc, stocked.covered frame]
  once := once }

/-- The frontier's frames are those its runs cover. -/
theorem Frontier.Valid.sum_runsCover {frontier : Frontier} (valid : frontier.Valid) :
    ∑ frame ∈ Finset.range frameLimit, runsCover frontier.runs frame = frontier.frames := by
  rw [valid.counted]
  unfold runsCover
  rw [sum_sum_map]
  refine congrArg List.sum (List.map_congr_left fun run member => ?_)
  obtain ⟨-, ⟨first, isFirst⟩, ⟨last, isLast⟩, -, inside⟩ := valid.whole run member
  unfold runCover runFrames
  rw [sum_cover (div_le_frameLimit inside), isFirst, isLast, ← Nat.mul_sub, frameSize_mul_div,
    frameSize_mul_div, frameSize_mul_div]

end Gain

namespace FrameAllocator

/-- An allocator that keeps every frame, and counts them right. -/
structure Accounted (allocator : FrameAllocator) (memory : Memory)
    (owned outside : Nat → Nat) : Prop where
  kept : allocator.Keeps memory owned outside
  total : allocator.total = ∑ frame ∈ Finset.range frameLimit, owned frame
  inside : ∀ frame, frameLimit ≤ frame → owned frame = 0

variable {start : Nat}

section Accept

variable {self : FrameAllocator} {memory : Memory} {owned outside : Nat → Nat}

/-- There are no more frames than fit in an address. -/
theorem sum_le_frameLimit (once : ∀ frame, owned frame ≤ 1) :
    ∑ frame ∈ Finset.range frameLimit, owned frame ≤ frameLimit := by
  calc ∑ frame ∈ Finset.range frameLimit, owned frame
      ≤ ∑ _frame ∈ Finset.range frameLimit, 1 := Finset.sum_le_sum fun frame _ => once frame
    _ = frameLimit := by simp

theorem sum_gain (owned : Nat → Nat) (whole : Whole start stop) :
    ∑ frame ∈ Finset.range frameLimit,
        (owned + cover (start / frameSize) (stop / frameSize)) frame =
      ∑ frame ∈ Finset.range frameLimit, owned frame + (stop - start) / frameSize := by
  obtain ⟨-, ⟨-, rfl⟩, ⟨last, rfl⟩, -, inside⟩ := whole
  simp only [Pi.add_apply]
  rw [Finset.sum_add_distrib, sum_cover (div_le_frameLimit inside), ← Nat.mul_sub,
    frameSize_mul_div, frameSize_mul_div, frameSize_mul_div]

/-- A run that was not owned is accepted. -/
theorem accept_accounted (accounted : self.Accounted memory owned outside) (cpu : Cpu)
    (whole : Whole start stop)
    (fresh : ∀ frame, start / frameSize ≤ frame → frame < stop / frameSize → owned frame = 0) :
    (self.accept memory cpu start stop).1.Accounted (self.accept memory cpu start stop).2
      (owned + cover (start / frameSize) (stop / frameSize)) outside := by
  obtain ⟨⟨⟨lists, stocked⟩, valid⟩, total, inside⟩ := accounted
  have once : ∀ frame, owned frame + cover (start / frameSize) (stop / frameSize) frame ≤ 1 := by
    intro frame
    by_cases covered : 0 < cover (start / frameSize) (stop / frameSize) frame
    · obtain ⟨low, high⟩ := cover_pos_iff.1 covered
      rw [fresh frame low high, cover_of_mem low high]
    · have most := stocked.once frame
      omega
  have gained := stocked.gain once
  have sums := sum_gain owned whole
  have most := sum_le_frameLimit gained.once
  have small : frameLimit ≤ wordLimit - 1 := by decide
  have counts : saturatingAdd self.total ((stop - start) / frameSize) =
      ∑ frame ∈ Finset.range frameLimit,
        (owned + cover (start / frameSize) (stop / frameSize)) frame := by
    rw [sums, saturatingAdd, total]
    omega
  have beyond : ∀ frame, frameLimit ≤ frame →
      (owned + cover (start / frameSize) (stop / frameSize)) frame = 0 := by
    intro frame far
    have high := div_le_frameLimit whole.inside
    have outsideRun : ¬0 < cover (start / frameSize) (stop / frameSize) frame := by
      rw [cover_pos_iff]
      omega
    rw [Pi.add_apply, inside frame far]
    omega
  unfold accept
  cases accepts : self.frontier.accept start stop with
  | some frontier =>
    refine ⟨?_, counts, beyond⟩
    unfold Frontier.accept at accepts
    split at accepts
    · cases accepts
    cases accepts
    refine ⟨⟨lists, ?_⟩, ?_, ?_⟩
    · have covers : runsCover (self.frontier.runs ++ [⟨start, stop⟩]) + outside =
          runsCover self.frontier.runs + outside +
            cover (start / frameSize) (stop / frameSize) := by
        funext frame
        simp only [runsCover, runCover, Pi.add_apply, List.map_append, List.map_cons,
          List.map_nil, List.sum_append, List.sum_cons, List.sum_nil]
        omega
      rw [covers]
      exact gained
    · intro run member
      rcases List.mem_append.1 member with old | new
      · exact valid.whole run old
      · rw [List.mem_singleton.1 new]
        exact whole
    · have runs : self.frontier.frames ≤ ∑ frame ∈ Finset.range frameLimit, owned frame := by
        rw [← valid.sum_runsCover]
        apply Finset.sum_le_sum
        intro frame _
        have covered := stocked.covered frame
        rw [Pi.add_apply] at covered
        omega
      have room : self.frontier.frames + (stop - start) / frameSize ≤ wordLimit - 1 := by omega
      dsimp only
      rw [saturatingAdd, min_eq_left room, valid.counted, List.map_append, List.sum_append]
      rfl
  | none =>
    refine ⟨⟨?_, valid⟩, counts, beyond⟩
    rw [← Function.update_eq_self cpu self.shards] at gained
    exact (carve_held whole ⟨lists, gained⟩).2

end Accept

/-- Where the walk over a region is: what it accepted is behind the open run. -/
structure Walking (first last reach : Nat) (owned : Nat → Nat) (frame run : Nat) : Prop where
  aligned : frameSize ∣ frame
  begun : first ≤ frame
  opened : run ≠ 0 → first ≤ run ∧ frameSize ∣ run ∧ run ≤ frame ∧ frame ≤ last ∧ frame ≤ reach
  fresh : ∀ number, (if run = 0 then frame else run) / frameSize ≤ number →
    number < last / frameSize → owned number = 0

/-- Only frames of a range were gained. -/
def Gained (first last : Nat) (owned after : Nat → Nat) : Prop :=
  ∀ number, after number ≠ owned number → first / frameSize ≤ number ∧ number < last / frameSize

section Region

variable {self : FrameAllocator} {memory : Memory} {owned outside : Nat → Nat}
  {first last reach : Nat} {cpu : Cpu}

theorem Gained.refl : Gained first last owned owned := fun _ changed => absurd rfl changed

theorem Gained.trans {middle after : Nat → Nat} (begins : Gained first last owned middle)
    (ends : Gained first last middle after) : Gained first last owned after := by
  intro number changed
  by_cases later : after number = middle number
  · apply begins
    rw [← later]
    exact changed
  · exact ends number later

theorem gained_cover (begins : first ≤ start) (ends : stop ≤ last) :
    Gained first last owned (owned + cover (start / frameSize) (stop / frameSize)) := by
  intro number changed
  have covered : 0 < cover (start / frameSize) (stop / frameSize) number := by
    rw [Pi.add_apply] at changed
    omega
  obtain ⟨low, high⟩ := cover_pos_iff.1 covered
  exact ⟨le_trans (Nat.div_le_div_right begins) low,
    lt_of_lt_of_le high (Nat.div_le_div_right ends)⟩

theorem firstFrame_spec {base : Nat} (low : base + frameSize ≤ wordLimit) :
    frameSize ∣ firstFrame base ∧ base ≤ firstFrame base := by
  unfold firstFrame
  split
  · next aligned => exact ⟨Nat.dvd_of_mod_eq_zero aligned, le_refl _⟩
  · rw [Nat.mod_eq_of_lt]
    · unfold frameSize
      omega
    · unfold frameSize wordLimit at *
      omega

theorem framesEnd_spec (base len : Nat) :
    frameSize ∣ framesEnd base len ∧ framesEnd base len ≤ base + len ∧
      framesEnd base len ≤ wordLimit := by
  refine ⟨dvd_mul_left _ _, ?_, ?_⟩
  · exact le_trans (div_mul_le_self _ _) (Nat.min_le_left _ _)
  · exact le_trans (div_mul_le_self _ _) (le_trans (min_le_right _ _) (Nat.sub_le _ _))

variable {frame run : Nat}

/-- The walk takes frames into the open run. -/
theorem Walking.extend
    {top : Nat}
    (walking : Walking first last reach owned frame run)
    (aligned : frameSize ∣ top)
    (ahead : frame ≤ top)
    (below : top ≤ last)
    (reachable : top ≤ reach) :
    Walking first last reach owned top (if run = 0 then frame else run) where
  aligned := aligned
  begun := le_trans walking.begun ahead
  opened := by
    intro _
    by_cases isOpen : run = 0
    · rw [if_pos isOpen]
      exact ⟨walking.begun, walking.aligned, ahead, below, reachable⟩
    · rw [if_neg isOpen]
      obtain ⟨begins, runAligned, ordered, -, -⟩ := walking.opened isOpen
      exact ⟨begins, runAligned, le_trans ordered ahead, below, reachable⟩
  fresh := by
    intro number low high
    refine walking.fresh number (le_trans (Nat.div_le_div_right ?_) low) high
    by_cases isOpen : run = 0
    · rw [if_pos isOpen]
      split
      · exact ahead
      · exact le_refl _
    · rw [if_neg isOpen, if_neg isOpen]

variable (accounted : self.Accounted memory owned outside)
include accounted

theorem Accounted.unreachable (count : Nat) :
    ({ self with unreachable := count } : FrameAllocator).Accounted memory owned outside :=
  { accounted with }

/-- The open run of a walk is accepted, and the walk goes on behind it. -/
theorem Walking.close
    {next : Nat}
    (walking : Walking first last reach owned frame run)
    (cpu : Cpu)
    (lastFits : last ≤ wordLimit)
    (isOpen : run ≠ 0)
    (aligned : frameSize ∣ next)
    (ahead : frame ≤ next) :
    (self.accept memory cpu run frame).1.Accounted (self.accept memory cpu run frame).2
        (owned + cover (run / frameSize) (frame / frameSize)) outside ∧
      Gained first last owned (owned + cover (run / frameSize) (frame / frameSize)) ∧
      Walking first last reach (owned + cover (run / frameSize) (frame / frameSize)) next 0 := by
  obtain ⟨begins, runAligned, ordered, ends, -⟩ := walking.opened isOpen
  have whole : Whole run frame :=
    ⟨isOpen, runAligned, walking.aligned, ordered, le_trans ends lastFits⟩
  have fresh := walking.fresh
  rw [if_neg isOpen] at fresh
  have sooner : frame / frameSize ≤ last / frameSize := Nat.div_le_div_right ends
  have accepted := accept_accounted accounted cpu whole
    fun number low high => fresh number low (lt_of_lt_of_le high sooner)
  refine ⟨accepted, gained_cover begins ends, aligned, le_trans walking.begun ahead,
    fun no => absurd rfl no, ?_⟩
  intro number low high
  have behind : frame / frameSize ≤ number := le_trans (Nat.div_le_div_right ahead) low
  have started : run / frameSize ≤ number := le_trans (Nat.div_le_div_right ordered) behind
  have uncovered : ¬0 < cover (run / frameSize) (frame / frameSize) number := by
    rw [cover_pos_iff]
    omega
  rw [Pi.add_apply, fresh number started high]
  omega

/-- The walk over a region's frames below a bound. -/
theorem scan_accounted
    {reserved : List Reserved}
    {bound steps : Nat}
    (walking : Walking first last reach owned frame run)
    (bounded : bound ≤ last)
    (lastAligned : frameSize ∣ last)
    (lastFits : last ≤ wordLimit) :
    ∃ after next owned' frame' run',
      scan cpu reserved bound reach steps self memory frame run = ((after, next), frame', run') ∧
      after.Accounted next owned' outside ∧ Gained first last owned owned' ∧
      Walking first last reach owned' frame' run' := by
  induction steps generalizing self memory owned frame run with
  | zero => exact ⟨self, memory, owned, frame, run, rfl, accounted, Gained.refl, walking⟩
  | succ steps ih =>
    rw [scan]
    by_cases below : frame < bound
    · rw [if_pos below]
      have aligned := walking.aligned
      have stops : frame + frameSize ≤ last := by
        unfold frameSize at *
        omega
      have counted : (if usable reserved frame = true ∧ reach < frame + frameSize then
          { self with unreachable := self.unreachable + 1 } else self).Accounted memory owned
          outside := by
        split
        · exact accounted.unreachable _
        · exact accounted
      by_cases taken : usable reserved frame = true ∧ frame + frameSize ≤ reach
      · rw [if_pos taken]
        exact ih counted
          (walking.extend (Nat.dvd_add aligned (dvd_refl _)) (le_add_right _ _) stops taken.2)
      · rw [if_neg taken]
        by_cases isOpen : run = 0
        · rw [if_neg (not_not.2 isOpen)]
          refine ih counted ⟨Nat.dvd_add aligned (dvd_refl _),
            le_trans walking.begun (le_add_right _ _), fun no => absurd rfl no, ?_⟩
          intro number low high
          refine walking.fresh number (le_trans (Nat.div_le_div_right ?_) low) high
          rw [if_pos isOpen, if_pos rfl]
          exact le_add_right _ _
        · rw [if_pos isOpen]
          obtain ⟨accepted, gained, onward⟩ := walking.close counted cpu lastFits isOpen
            (Nat.dvd_add aligned (dvd_refl _)) (le_add_right _ _)
          obtain ⟨after, next, owned', frame', run', runs, done, more, ends⟩ := ih accepted onward
          exact ⟨after, next, owned', frame', run', runs, done, gained.trans more, ends⟩
    · rw [if_neg below]
      exact ⟨self, memory, owned, frame, run, rfl, accounted, Gained.refl, walking⟩

/-- The end of the walk: the frames above the bound are taken at once. -/
theorem finishRegion_accounted (walking : Walking first last reach owned frame run)
    (lastAligned : frameSize ∣ last) (reachAligned : frameSize ∣ reach)
    (lastFits : last ≤ wordLimit) :
    ∃ after next owned', self.finishRegion memory cpu last reach frame run = (after, next) ∧
      after.Accounted next owned' outside ∧ Gained first last owned owned' := by
  unfold finishRegion
  dsimp only
  have extended : Walking first last reach owned
      (if frame < min last reach then min last reach else frame)
      (if frame < min last reach then if run = 0 then frame else run else run) := by
    by_cases more : frame < min last reach
    · rw [if_pos more, if_pos more]
      refine walking.extend ?_ (Nat.le_of_lt more) (Nat.min_le_left _ _) (min_le_right _ _)
      rcases Nat.le_total last reach with less | less
      · rw [min_eq_left less]
        exact lastAligned
      · rw [Nat.min_eq_right less]
        exact reachAligned
    · rw [if_neg more, if_neg more]
      exact walking
  generalize (if frame < min last reach then min last reach else frame) = top at extended ⊢
  generalize (if frame < min last reach then if run = 0 then frame else run else run) = open_
    at extended ⊢
  have closed : ∃ after next owned',
      (if open_ ≠ 0 then self.accept memory cpu open_ top else (self, memory)) = (after, next) ∧
      after.Accounted next owned' outside ∧ Gained first last owned owned' := by
    by_cases isOpen : open_ = 0
    · rw [if_neg (not_not.2 isOpen)]
      exact ⟨self, memory, owned, rfl, accounted, Gained.refl⟩
    · rw [if_pos isOpen]
      obtain ⟨accepted, gained, -⟩ := extended.close accounted cpu lastFits isOpen extended.aligned
        (le_refl _)
      exact ⟨_, _, _, rfl, accepted, gained⟩
  obtain ⟨after, next, owned', accepts, done, gained⟩ := closed
  rw [accepts]
  split
  · exact ⟨_, _, owned', rfl, done.unreachable _, gained⟩
  · exact ⟨_, _, owned', rfl, done, gained⟩

/-- A region whose frames are not owned yet is added.  Nothing outside it is gained, as
long as it does not begin in the last page of the address space. -/
theorem addRegion_accounted
    {base len : Nat}
    (cpu : Cpu)
    (reserved : List Reserved)
    (low : base + frameSize ≤ wordLimit)
    (fresh : ∀ number, base ≤ number * frameSize → number * frameSize + frameSize ≤ base + len →
      owned number = 0) :
    ∃ owned', (self.addRegion memory cpu base len reserved).1.Accounted
        (self.addRegion memory cpu base len reserved).2 owned' outside ∧
      ∀ number, owned' number ≠ owned number →
        base ≤ number * frameSize ∧ number * frameSize + frameSize ≤ base + len := by
  obtain ⟨firstAligned, firstBehind⟩ := firstFrame_spec low
  obtain ⟨lastAligned, lastInside, lastFits⟩ := framesEnd_spec base len
  have whole : ∀ number, firstFrame base / frameSize ≤ number →
      number < framesEnd base len / frameSize →
      base ≤ number * frameSize ∧ number * frameSize + frameSize ≤ base + len := by
    unfold frameSize at *
    omega
  have walking : Walking (firstFrame base) (framesEnd base len)
      (self.map.limit / frameSize * frameSize) owned (firstFrame base) 0 := by
    refine ⟨firstAligned, le_refl _, fun no => absurd rfl no, ?_⟩
    intro number begins ends
    obtain ⟨lower, upper⟩ := whole number begins ends
    exact fresh number lower upper
  unfold addRegion
  dsimp only
  obtain ⟨scanned, next, owned', frame, run, scans, accounted', gained, walked⟩ :=
    scan_accounted accounted walking (min_le_right (threshold reserved) _) lastAligned lastFits
  rw [scans]
  obtain ⟨after, memory', owned'', finishes, done, more⟩ :=
    finishRegion_accounted accounted' walked lastAligned (dvd_mul_left _ _) lastFits
  rw [finishes]
  refine ⟨owned'', done, fun number changed => ?_⟩
  obtain ⟨begins, ends⟩ := gained.trans more number changed
  exact whole number begins ends

end Region

end FrameAllocator

end FSystem.Kernel.Mem
