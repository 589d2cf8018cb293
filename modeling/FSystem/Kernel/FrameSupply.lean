import FSystem.Kernel.FrameMoves

/-!
# The frontier, and one core's pass at an allocation

Taking a block off the frontier moves its frames, and those the alignment steps over, to
the lists.  A pass that finds a block makes it loose, and one that finds none leaves every
frame where it was or on the lists.
-/

namespace FSystem.Kernel.Mem

open Frontier

variable {index : Nat} {run : Run}

section Runs

variable (measure : Run → Nat)

variable {runs : List Run} {index : Nat} {old : Run}

theorem sum_map_set (present : runs[index]? = some old) (new : Run) :
    ((runs.set index new).map measure).sum + measure old =
      (runs.map measure).sum + measure new := by
  induction runs generalizing index with
  | nil => cases present
  | cons run rest ih =>
    cases index with
    | zero =>
      cases present
      simp only [List.set_cons_zero, List.map_cons, List.sum_cons]
      omega
    | succ index =>
      have tail := ih present
      simp only [List.set_cons_succ, List.map_cons, List.sum_cons]
      omega

theorem sum_map_dropLast {last : Run} (isLast : runs.getLast? = some last) :
    (runs.dropLast.map measure).sum + measure last = (runs.map measure).sum := by
  obtain ⟨-, rfl⟩ := List.getLast?_eq_some_iff.1 isLast
  simp

/-- A spent run is taken out, whatever takes its place. -/
theorem sum_map_drop (present : runs[index]? = some old) :
    ((drop runs index).map measure).sum + measure old = (runs.map measure).sum := by
  unfold drop
  cases isLast : runs.getLast? with
  | none =>
    rw [List.getLast?_eq_none_iff] at isLast
    subst isLast
    cases present
  | some last =>
    have staysLast : (runs.set index last).getLast? = some last := by
      rw [List.getLast?_eq_getElem?] at isLast ⊢
      rw [List.length_set, List.getElem?_set]
      split
      · next same =>
          have inside := (List.getElem?_eq_some_iff.1 present).1
          rw [if_pos inside]
      · exact isLast
    have replaced := sum_map_set measure present last
    have dropped := sum_map_dropLast measure staysLast
    dsimp only
    omega

theorem mem_of_mem_drop (member : run ∈ drop runs index) : run ∈ runs := by
  unfold drop at member
  cases isLast : runs.getLast? with
  | none =>
    rw [isLast] at member
    exact member
  | some last =>
    rw [isLast] at member
    rcases List.mem_or_eq_of_mem_set (List.mem_of_mem_dropLast member) with old | rfl
    · exact old
    · exact List.mem_of_getLast? isLast

/-- A measure that gives a spent run nothing does not see it dropped. -/
theorem sum_map_advance (present : runs[index]? = some run) (next : Nat)
    (nothing : run.stop ≤ next → measure ⟨next, run.stop⟩ = 0) :
    ((advance runs index run next).map measure).sum + measure run =
      (runs.map measure).sum + measure ⟨next, run.stop⟩ := by
  have set : (runs.set index ⟨next, run.stop⟩)[index]? = some ⟨next, run.stop⟩ :=
    List.getElem?_set_self (List.getElem?_eq_some_iff.1 present).1
  have replaced := sum_map_set measure present ⟨next, run.stop⟩
  unfold advance
  dsimp only
  split
  · next spent =>
      have dropped := sum_map_drop measure set
      omega
  · exact replaced

theorem mem_advance {next : Nat} {other : Run} (member : other ∈ advance runs index run next) :
    other ∈ runs ∨ other = ⟨next, run.stop⟩ := by
  unfold advance at member
  split at member
  · exact List.mem_or_eq_of_mem_set (mem_of_mem_drop member)
  · exact List.mem_or_eq_of_mem_set member

end Runs

/-- How often a run covers a frame. -/
def runCover (frame : Nat) (run : Run) : Nat :=
  cover (run.next / frameSize) (run.stop / frameSize) frame

/-- How often the runs cover a frame. -/
def runsCover (runs : List Run) (frame : Nat) : Nat := (runs.map (runCover frame)).sum

/-- How many frames a run is. -/
def runFrames (run : Run) : Nat := (run.stop - run.next) / frameSize

/-- The runs of a frontier are of whole frames, and counted. -/
structure Frontier.Valid (frontier : Frontier) : Prop where
  whole : ∀ run ∈ frontier.runs, Whole run.next run.stop
  counted : frontier.frames = (frontier.runs.map runFrames).sum

section Take

variable {order : Order} {start size : Nat}

theorem le_nextMultiple (positive : 0 < size) : start ≤ nextMultiple start size := by
  unfold nextMultiple
  have division := Nat.div_add_mod (start + (size - 1)) size
  have small := Nat.mod_lt (start + (size - 1)) positive
  rw [Nat.mul_comm] at division
  omega

theorem dvd_nextMultiple : size ∣ nextMultiple start size := Nat.dvd_mul_left _ _

/-- What taking a block off a frontier does. -/
structure Taken (before after : Frontier) (order : Order) (block gapStart gapStop : Nat) :
    Prop where
  gap : gapStop = block
  whole : Whole gapStart block
  fitting : Fitting order block
  valid : after.Valid
  covers : runsCover before.runs =
    runsCover after.runs + cover (gapStart / frameSize) (block / frameSize) + blockCover order block
  counts : before.frames = after.frames + (block - gapStart) / frameSize + order.frames

/-- A run that is long enough serves an order. -/
theorem taken_of_run
    {before : Frontier}
    (valid : before.Valid)
    {block : Nat}
    (present : before.runs[index]? = some run)
    (aligned : order.bytes ∣ block)
    (ahead : run.next ≤ block)
    (fits : block + order.bytes ≤ run.stop) :
    Taken before
      ⟨advance before.runs index run (block + order.bytes),
        before.frames - (block + order.bytes - run.next) / frameSize⟩
      order block run.next block := by
  have member := List.mem_of_getElem? present
  obtain ⟨nonzero, ⟨first, isFirst⟩, ⟨last, isLast⟩, -, inside⟩ := valid.whole run member
  have fitting : Fitting order block := ⟨by omega, aligned, by omega⟩
  obtain ⟨middle, rfl⟩ := fitting.frameSize_dvd
  have next := order.add_bytes middle
  have low : first ≤ middle := by
    rw [isFirst] at ahead
    exact Nat.le_of_mul_le_mul_left ahead (by decide)
  have high : middle + order.frames ≤ last := by
    rw [next, isLast] at fits
    exact Nat.le_of_mul_le_mul_left fits (by decide)
  have frames : runFrames run = last - first := by
    rw [runFrames, isFirst, isLast, ← Nat.mul_sub, frameSize_mul_div]
  have counted : runFrames run ≤ before.frames := by
    rw [valid.counted]
    exact le_sum_map member
  have left : runFrames ⟨frameSize * middle + order.bytes, run.stop⟩ =
      last - (middle + order.frames) := by
    rw [runFrames, next, isLast, ← Nat.mul_sub, frameSize_mul_div]
  have gone : (frameSize * middle + order.bytes - run.next) / frameSize =
      middle + order.frames - first := by
    rw [next, isFirst, ← Nat.mul_sub, frameSize_mul_div]
  refine ⟨rfl, ⟨nonzero, ⟨first, isFirst⟩, Nat.dvd_mul_right _ _, ahead, by omega⟩, fitting,
    ⟨?_, ?_⟩, ?_, ?_⟩
  · intro other held
    rcases mem_advance held with old | rfl
    · exact valid.whole other old
    · refine ⟨?_, ?_, ⟨last, isLast⟩, fits, inside⟩
      · exact Nat.ne_of_gt (Nat.lt_of_lt_of_le order.bytes_pos (Nat.le_add_left _ _))
      · exact Nat.dvd_add (Nat.dvd_mul_right _ _) order.frameSize_dvd_bytes
  · have sums := sum_map_advance runFrames present (frameSize * middle + order.bytes)
      (fun spent => by rw [runFrames, Nat.sub_eq_zero_of_le spent, Nat.zero_div])
    rw [frames, left, ← valid.counted] at sums
    dsimp only
    omega
  · funext frame
    have sums := sum_map_advance (runCover frame) present (frameSize * middle + order.bytes)
      (fun spent => by
        rw [runCover, cover_eq_zero (Nat.div_le_div_right spent)]
        rfl)
    have front := cover_split low (Nat.le_add_right middle order.frames) frame
    have back := cover_split (Nat.le_trans low (Nat.le_add_right middle order.frames)) high frame
    have whole : runCover frame run = cover first last frame := by
      rw [runCover, isFirst, isLast, frameSize_mul_div, frameSize_mul_div]
    have rest : runCover frame ⟨frameSize * middle + order.bytes, run.stop⟩ =
        cover (middle + order.frames) last frame := by
      rw [runCover, next, isLast, frameSize_mul_div, frameSize_mul_div]
    simp only [Pi.add_apply, runsCover, blockCover, isFirst, frameSize_mul_div]
    omega
  · rw [gone, isFirst, ← Nat.mul_sub, frameSize_mul_div]
    dsimp only
    omega

/-- What a frontier that serves an order does. -/
theorem takeFrom_taken {before after : Frontier} (valid : before.Valid)
    {block gapStart gapStop : Nat}
    (taken : before.takeFrom order index = some ((block, gapStart, gapStop), after)) :
    Taken before after order block gapStart gapStop := by
  induction index with
  | zero => cases taken
  | succ index ih =>
    rw [takeFrom] at taken
    cases present : before.runs[index]? with
    | none =>
      rw [present] at taken
      exact ih taken
    | some run =>
      rw [present] at taken
      dsimp only at taken
      split at taken
      · exact ih taken
      · next fits =>
          cases taken
          exact taken_of_run valid present dvd_nextMultiple (le_nextMultiple order.bytes_pos)
            (by omega)

end Take

/-- Every frame the allocator owns is on a list, on the frontier or outside, once. -/
structure Kept (window : Window) (memory : Memory) (shards : Cpu → Shard)
    (frontier : Frontier) (owned outside : Nat → Nat) : Prop where
  stocked : ∃ lists, Stocked window memory shards lists owned (runsCover frontier.runs + outside) 0
  valid : frontier.Valid

/-- What one core reaches is kept, along with what the other cores have. -/
abbrev Reach.Kept (window : Window) (shards : Cpu → Shard) (cpu : Cpu) (reach : Reach)
    (owned outside : Nat → Nat) : Prop :=
  Mem.Kept window reach.memory (Function.update shards cpu reach.shard) reach.frontier owned outside

section Pass

variable {window : Window} {shards : Cpu → Shard} {cpu : Cpu} {owned outside : Nat → Nat}
  {reach after : Reach} {order : Order} {block : Nat}

/-- A block that a core took: it is outside now. -/
structure Took (window : Window) (shards : Cpu → Shard) (cpu : Cpu) (owned outside : Nat → Nat)
    (after : Reach) (order : Order) (block : Nat) (clean : Bool) : Prop where
  fitting : Fitting order block
  isClean : clean = true → Clean after.memory order block
  kept : after.Kept window shards cpu owned (outside + blockCover order block)

/-- A block is taken off the lists. -/
theorem Reach.pop_took {clean : Bool} (kept : reach.Kept window shards cpu owned outside)
    (taken : reach.pop window order clean = some (block, after)) :
    Took window shards cpu owned outside after order block clean ∧
      after.frontier = reach.frontier ∧
      ∀ kind, after.shard.frames kind + (if clean = kind then order.frames else 0) =
        reach.shard.frames kind := by
  obtain ⟨held, valid⟩ := kept
  unfold Reach.pop at taken
  rw [Option.map_eq_some_iff] at taken
  obtain ⟨⟨found, memory, shard⟩, popped, same⟩ := taken
  cases same
  obtain ⟨here, above, popped⟩ := Order.upward_some popped
  obtain ⟨fitting, isClean, frames, off⟩ := popAt_held above held popped
  rw [add_assoc] at off
  exact ⟨⟨fitting, isClean, ⟨off, valid⟩⟩, rfl, frames⟩

/-- A refill moves frames from the frontier to the lists, at least one if it says so. -/
theorem refill_kept (kept : reach.Kept window shards cpu owned outside) :
    (refill window reach order).2.Kept window shards cpu owned outside ∧
      ((refill window reach order).1 = true →
        2 * (refill window reach order).2.frontier.frames +
            (refill window reach order).2.shard.frames false <
          2 * reach.frontier.frames + reach.shard.frames false) := by
  obtain ⟨held, valid⟩ := kept
  unfold refill
  dsimp only
  cases found : Order.downward
      (fun want => (reach.frontier.take want).map fun found => (want, found)) order Order.max
      (if Order.default.get < order.get then order else Order.default) with
  | none => exact ⟨⟨held, valid⟩, nofun⟩
  | some result =>
    obtain ⟨want, ⟨block, gapStart, gapStop⟩, frontier⟩ := result
    obtain ⟨tried, answers⟩ := Order.downward_some found
    rw [Option.map_eq_some_iff] at answers
    obtain ⟨result, takes, same⟩ := answers
    cases same
    obtain ⟨rfl, whole, fitting, validAfter, covers, counts⟩ := takeFrom_taken valid takes
    have loosened : Held window shards cpu owned (runsCover frontier.runs + outside +
        blockCover want gapStop + cover (gapStart / frameSize) (gapStop / frameSize)) 0
        (reach.memory, reach.shard) := by
      rw [covers] at held
      have same : runsCover frontier.runs + outside + blockCover want gapStop +
          cover (gapStart / frameSize) (gapStop / frameSize) =
            runsCover frontier.runs + cover (gapStart / frameSize) (gapStop / frameSize) +
              blockCover want gapStop + outside := by
        funext frame
        simp only [Pi.add_apply]
        omega
      rw [same]
      exact held
    obtain ⟨carvedFrames, carved⟩ := carve_held whole loosened
    dsimp only
    generalize carve window reach.memory reach.shard gapStart gapStop = core
      at carvedFrames carved ⊢
    obtain ⟨given, givenFrames⟩ := carved.give fitting false nofun
    have added := givenFrames false
    have gap := carvedFrames false
    have positive := want.frames_pos
    refine ⟨⟨given, validAfter⟩, fun _ => ?_⟩
    rw [if_pos rfl] at added gap
    generalize (gapStop - gapStart) / frameSize = stepped at gap counts
    omega

/-- What a pass leaves: the block it found outside, or everything kept. -/
def Passed (window : Window) (shards : Cpu → Shard) (cpu : Cpu) (owned outside : Nat → Nat)
    (order : Order) (result : Option (Nat × Source × Bool) × Reach) : Prop :=
  match result with
  | (some (block, _, clean), after) => Took window shards cpu owned outside after order block clean
  | (none, after) => after.Kept window shards cpu owned outside

section

variable (kept : reach.Kept window shards cpu owned outside)

include kept

theorem attemptClean_passed (preferClean : Bool) :
    Passed window shards cpu owned outside order (attemptClean window reach order preferClean) := by
  unfold attemptClean
  cases preferClean with
  | true => exact kept
  | false =>
    cases popped : reach.pop window order true with
    | none => exact kept
    | some taken => exact (Reach.pop_took kept popped).1

theorem attemptDirty_passed (preferClean : Bool) :
    Passed window shards cpu owned outside order (attemptDirty window reach order preferClean) := by
  unfold attemptDirty
  cases popped : reach.pop window order false with
  | some taken => exact (Reach.pop_took kept popped).1
  | none =>
    have refilled := (@refill_kept window shards cpu owned outside reach order kept).1
    rcases result : refill window reach order with ⟨answer, next⟩
    rw [result] at refilled
    cases answer with
    | false => exact attemptClean_passed refilled preferClean
    | true =>
      dsimp only
      cases again : next.pop window order false with
      | some taken => exact (Reach.pop_took refilled again).1
      | none => exact attemptClean_passed refilled preferClean

/-- One pass at an allocation. -/
theorem attempt_passed (order : Order) (preferClean : Bool) :
    Passed window shards cpu owned outside order (attempt window reach order preferClean) := by
  unfold attempt
  cases preferClean with
  | false => exact attemptDirty_passed kept false
  | true =>
    cases popped : reach.pop window order true with
    | some taken => exact (Reach.pop_took kept popped).1
    | none => exact attemptDirty_passed kept true

end

end Pass

end FSystem.Kernel.Mem
