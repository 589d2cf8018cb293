import FSystem.Kernel.FrameLists

/-!
# The frame allocator

Accepted memory that was never written to is kept as runs, and moved to a core's lists in
large blocks.  A core that has nothing takes from the runs, then compacts its own lists,
and then takes from another core's.
-/

namespace FSystem.Kernel.Mem

open Function

/-- A core the kernel shards for. -/
abbrev Cpu := Fin 8

/-- A run of frames, and how long it is. -/
structure Frame where
  base : Nat
  order : Order
  deriving DecidableEq

/-- A range of physical memory that must not be handed out. -/
structure Reserved where
  base : Nat
  stop : Nat
  deriving DecidableEq

/-- Whether a reserved range overlaps another one. -/
def Reserved.overlaps (self : Reserved) (base stop : Nat) : Bool :=
  decide (base < self.stop ∧ self.base < stop)

/-- Nothing below this is ever handed out. -/
def lowMemoryLimit : Nat := 2 ^ 20

/-- The top of the boot stub's identity map. -/
def identityLimit : Nat := 2 ^ 30

/-- A run of accepted frames the allocator has never written to. -/
structure Run where
  next : Nat
  stop : Nat
  deriving DecidableEq

/-- How many runs the allocator can hold. -/
def untouchedRuns : Nat := 64

/-- Accepted memory nothing has been written to yet. -/
structure Frontier where
  runs : List Run
  frames : Nat
  deriving DecidableEq

namespace Frontier

/-- No runs. -/
def empty : Frontier := ⟨[], 0⟩

/-- Record a run, or refuse when there are too many. -/
def accept (self : Frontier) (start stop : Nat) : Option Frontier :=
  if untouchedRuns ≤ self.runs.length then none
  else some ⟨self.runs ++ [⟨start, stop⟩], saturatingAdd self.frames ((stop - start) / frameSize)⟩

/-- The first multiple of a size from a start on. -/
def nextMultiple (start size : Nat) : Nat := (start + (size - 1)) / size * size

/-- Replace a spent run by the last one. -/
def drop (runs : List Run) (index : Nat) : List Run :=
  match runs.getLast? with
  | none => runs
  | some last => (runs.set index last).dropLast

/-- Move the beginning of a run; a run that is spent by that is dropped. -/
def advance (runs : List Run) (index : Nat) (run : Run) (next : Nat) : List Run :=
  let moved := runs.set index ⟨next, run.stop⟩
  if run.stop ≤ next then drop moved index else moved

/-- Look for a run that can serve an order, the newest first. -/
def takeFrom (self : Frontier) (order : Order) :
    Nat → Option ((Nat × Nat × Nat) × Frontier)
  | 0 => none
  | index + 1 =>
    match self.runs[index]? with
    | none => takeFrom self order index
    | some run =>
      let aligned := nextMultiple run.next order.bytes
      let stop := aligned + order.bytes
      if wordLimit ≤ aligned ∨ wordLimit ≤ stop ∨ run.stop < stop then
        takeFrom self order index
      else
        some ((aligned, run.next, aligned),
          ⟨advance self.runs index run stop, self.frames - (stop - run.next) / frameSize⟩)

/-- Take an aligned block, and say which frames were skipped to align it. -/
def take (self : Frontier) (order : Order) : Option ((Nat × Nat × Nat) × Frontier) :=
  self.takeFrom order self.runs.length

end Frontier

/-- What a core's allocation path reaches before other cores' memory. -/
structure Reach where
  memory : Memory
  frontier : Frontier
  shard : Shard

/-- Which path answered an allocation. -/
inductive Source
  | shard
  | frontier
  deriving DecidableEq

section Supply

variable (window : Window) (reach : Reach)

/-- Move a block of the frontier onto a shard: of the default order or the larger one asked for,
or a smaller one not below what was asked for.  The frames skipped go onto the shard too. -/
def refill (order : Order) : Bool × Reach :=
  let want := if Order.default.get < order.get then order else Order.default
  let taken := Order.downward
    (fun want => (reach.frontier.take want).map fun found => (want, found)) order Order.max want
  match taken with
  | none => (false, reach)
  | some (want, (block, gapStart, gapStop), frontier) =>
    let carved := carve window reach.memory reach.shard gapStart gapStop
    let given := give window carved.1 carved.2 want false block
    (true, ⟨given.1, frontier, given.2⟩)

/-- Take a block off one kind of list within reach. -/
def Reach.pop (order : Order) (clean : Bool) : Option (Nat × Reach) :=
  (popSplit window reach.memory reach.shard order clean).map fun taken =>
    (taken.1, { reach with memory := taken.2.1, shard := taken.2.2 })

/-- The last source of a pass: clean blocks, for a caller that asked for none. -/
def attemptClean (order : Order) (preferClean : Bool) : Option (Nat × Source × Bool) × Reach :=
  if preferClean then (none, reach)
  else
    match reach.pop window order true with
    | some (block, reach) => (some (block, .shard, true), reach)
    | none => (none, reach)

/-- What a pass does without a clean block: dirty blocks, then untouched memory, then clean ones. -/
def attemptDirty (order : Order) (preferClean : Bool) : Option (Nat × Source × Bool) × Reach :=
  match reach.pop window order false with
  | some (block, reach) => (some (block, .shard, false), reach)
  | none =>
    match refill window reach order with
    | (false, reach) => attemptClean window reach order preferClean
    | (true, reach) =>
      match reach.pop window order false with
      | some (block, reach) => (some (block, .frontier, false), reach)
      | none => attemptClean window reach order preferClean

/-- One pass at answering an allocation from this core's memory. -/
def attempt (order : Order) (preferClean : Bool) : Option (Nat × Source × Bool) × Reach :=
  if preferClean then
    match reach.pop window order true with
    | some (block, reach) => (some (block, .shard, true), reach)
    | none => attemptDirty window reach order preferClean
  else attemptDirty window reach order preferClean

end Supply

/-- Charge one allocation to the path that answered it. -/
def record (shard : Shard) (source : Source) (stolen : Bool) : Shard :=
  if stolen then { shard with remote := saturatingAdd shard.remote 1 }
  else
    match source with
    | .shard => { shard with served := saturatingAdd shard.served 1 }
    | .frontier => { shard with refills := saturatingAdd shard.refills 1 }

section Stealing

variable (window : Window)

/-- The lists of the other cores, in the order they are looked at. -/
def victims (me : Cpu) : List (Cpu × Bool) :=
  ((List.finRange 8).filter fun cpu => cpu ≠ me).flatMap fun cpu => [(cpu, false), (cpu, true)]

/-- Take a block of an order from the first of some lists that has one, for a core. -/
def stealAt (memory : Memory) (shards : Cpu → Shard) (me : Cpu) (here : Order) :
    List (Cpu × Bool) → Option (Memory × (Cpu → Shard))
  | [] => none
  | (cpu, clean) :: rest =>
    match listPop window memory ((shards cpu).lists clean) here with
    | none => stealAt memory shards me here rest
    | some (block, lists) =>
      let victim := (shards cpu).setLists clean lists
      let debited := victim.setFrames clean (victim.frames clean - here.frames)
      let given := give window memory (shards me) here clean block
      some (given.1, update (update shards cpu debited) me given.2)

/-- Take a block of at least an order from another core, the smallest first. -/
def steal (memory : Memory) (shards : Cpu → Shard) (me : Cpu) (order : Order) :
    Option (Memory × (Cpu → Shard)) :=
  Order.upward (fun here => stealAt window memory shards me here (victims me)) Order.max order

end Stealing

/-- Free lists of physical frames, sharded by core. -/
structure FrameAllocator where
  shards : Cpu → Shard
  frontier : Frontier
  map : Window
  total : Nat
  unreachable : Nat

namespace FrameAllocator

/-- An allocator with nothing in it. -/
def new (cookie : Nat) : FrameAllocator where
  shards := fun _ => .empty
  frontier := .empty
  map := ⟨identityLimit, cookie⟩
  total := 0
  unreachable := 0

variable (self : FrameAllocator)

/-- Point the allocator at a new window onto physical memory. -/
def rebind (limit : Nat) : FrameAllocator :=
  { self with map := { self.map with limit := limit }, unreachable := 0 }

/-- Add up every shard's answer to one question. -/
def sum (pick : Shard → Nat) : Nat :=
  (List.finRange 8).foldl (fun total cpu => saturatingAdd total (pick (self.shards cpu))) 0

/-- Frames available now, zeroed or not. -/
def freeCount : Nat :=
  saturatingAdd self.frontier.frames (self.sum fun shard => shard.cleanFrames + shard.dirtyFrames)

variable (memory : Memory)

/-- What one core reaches of a memory. -/
def reach (cpu : Cpu) : Reach := ⟨memory, self.frontier, self.shards cpu⟩

/-- Put back what one core reached. -/
def reached (cpu : Cpu) (reach : Reach) : FrameAllocator :=
  { self with shards := update self.shards cpu reach.shard, frontier := reach.frontier }

/-- Take ownership of a run of frames without touching any of them. -/
def accept (memory : Memory) (cpu : Cpu) (start stop : Nat) : FrameAllocator × Memory :=
  let counted := { self with total := saturatingAdd self.total ((stop - start) / frameSize) }
  match self.frontier.accept start stop with
  | some frontier => ({ counted with frontier := frontier }, memory)
  | none =>
    let carved := carve self.map memory (self.shards cpu) start stop
    ({ counted with shards := update self.shards cpu carved.2 }, carved.1)

/-- A region's first whole frame; without overflow checks the sum wraps. -/
def firstFrame (base : Nat) : Nat :=
  if base % frameSize = 0 then base else (base + (frameSize - base % frameSize)) % wordLimit

/-- Whether a frame may be handed out. -/
def usable (reserved : List Reserved) (frame : Nat) : Bool :=
  decide (lowMemoryLimit ≤ frame) &&
    !reserved.any fun range => range.overlaps frame (frame + frameSize)

/-- Accept the runs of usable frames below a threshold; the start of the open run, or zero, is
carried along. -/
def scan (cpu : Cpu) (reserved : List Reserved) (bound reach : Nat) :
    Nat → FrameAllocator → Memory → Nat → Nat → (FrameAllocator × Memory) × Nat × Nat
  | 0, self, memory, frame, run => ((self, memory), frame, run)
  | steps + 1, self, memory, frame, run =>
    if frame < bound then
      let stop := frame + frameSize
      let counted := if usable reserved frame = true ∧ reach < stop then
          { self with unreachable := self.unreachable + 1 }
        else self
      if usable reserved frame = true ∧ stop ≤ reach then
        scan cpu reserved bound reach steps counted memory stop (if run = 0 then frame else run)
      else if run ≠ 0 then
        let accepted := counted.accept memory cpu run frame
        scan cpu reserved bound reach steps accepted.1 accepted.2 stop 0
      else scan cpu reserved bound reach steps counted memory stop 0
    else ((self, memory), frame, run)

/-- Every frame from the threshold up is usable: close the open run where memory ends, and count
what is beyond. -/
def finishRegion (cpu : Cpu) (framesEnd reach frame run : Nat) : FrameAllocator × Memory :=
  let rest := min framesEnd reach
  let run := if frame < rest then (if run = 0 then frame else run) else run
  let frame := if frame < rest then rest else frame
  let accepted := if run ≠ 0 then self.accept memory cpu run frame else (self, memory)
  if frame < framesEnd then
    ({ accepted.1 with
      unreachable := accepted.1.unreachable + (framesEnd - frame) / frameSize }, accepted.2)
  else accepted

/-- Where the usable frames of a region need no question any more. -/
def threshold (reserved : List Reserved) : Nat :=
  max ((reserved.map Reserved.stop).foldl max 0) lowMemoryLimit

/-- One past the last whole frame of a region. -/
def framesEnd (base len : Nat) : Nat :=
  saturatingAdd base len / frameSize * frameSize

/-- Add a region of usable memory, minus anything reserved. -/
def addRegion (cpu : Cpu) (base len : Nat) (reserved : List Reserved) : FrameAllocator × Memory :=
  let reach := self.map.limit / frameSize * frameSize
  let bound := min (threshold reserved) (framesEnd base len)
  let scanned := scan cpu reserved bound reach (bound / frameSize + 1) self memory
    (firstFrame base) 0
  scanned.1.1.finishRegion scanned.1.2 cpu (framesEnd base len) reach scanned.2.1 scanned.2.2

/-- The whole allocation path, for one core's shard; `none` if it does not return. -/
def take (cpu : Cpu) (order : Order) (preferClean : Bool) :
    Option (Option (Nat × Bool) × FrameAllocator × Memory) :=
  match attempt self.map (self.reach memory cpu) order preferClean with
  | (some (block, source, clean), reach) =>
    some (some (block, clean),
      self.reached cpu { reach with shard := record reach.shard source false }, reach.memory)
  | (none, first) =>
    match coalesceShard self.map first.memory first.shard (wordLimit - 1) with
    | none => none
    | some (memory, shard, _) =>
      match attempt self.map ⟨memory, first.frontier, shard⟩ order preferClean with
      | (some (block, source, clean), reach) =>
        some (some (block, clean),
          self.reached cpu { reach with shard := record reach.shard source false },
          reach.memory)
      | (none, second) =>
        let tried := self.reached cpu second
        match steal self.map second.memory tried.shards cpu order with
        | none => some (none, tried, second.memory)
        | some (memory, shards) =>
          let robbed := { tried with shards := shards }
          match attempt self.map (robbed.reach memory cpu) order preferClean with
          | (some (block, source, clean), reach) =>
            some (some (block, clean),
              robbed.reached cpu { reach with shard := record reach.shard source true },
              reach.memory)
          | (none, third) => some (none, robbed.reached cpu third, third.memory)

/-- Take a block of an order. -/
def alloc (cpu : Cpu) (order : Order) : Option (Option Frame × FrameAllocator × Memory) :=
  (self.take memory cpu order false).map fun taken =>
    (taken.1.map fun block => ⟨block.1, order⟩, taken.2)

/-- Take a block containing nothing but zeroes. -/
def allocZeroed (cpu : Cpu) (order : Order) : Option (Option Frame × FrameAllocator × Memory) :=
  match self.take memory cpu order true with
  | none => none
  | some (none, self, memory) => some (none, self, memory)
  | some (some (block, clean), self, memory) =>
    some (some ⟨block, order⟩, self,
      if clean then Window.clearLink memory block else Window.zero memory block order)

/-- Give a block back. -/
def free (cpu : Cpu) (frame : Frame) : FrameAllocator × Memory :=
  let given := give self.map memory (self.shards cpu) frame.order false frame.base
  ({ self with shards := update self.shards cpu given.2 }, given.1)

/-- Merge buddies on a core's shard, up to a number of merges. -/
def coalesce (cpu : Cpu) (budget : Nat) : Option (Nat × FrameAllocator × Memory) :=
  match coalesceShard self.map memory (self.shards cpu) budget with
  | none => none
  | some (memory, shard, merged) =>
    some (merged, { self with shards := update self.shards cpu shard }, memory)

end FrameAllocator

section Scrubbing

variable (window : Window)

/-- The largest order a number of frames can pay for, from one that it can upward. -/
def affordable (left : Nat) : Nat → Order → Order
  | 0, want => want
  | steps + 1, want =>
    match want.up with
    | none => want
    | some up => if up.frames ≤ left then affordable left steps up else want

/-- Take the largest dirty block there is, from an order downward. -/
def popDown (reach : Reach) (want : Order) : Option (Order × Nat × Reach) :=
  Order.downward
    (fun want => (reach.pop window want false).map fun taken => (want, taken))
    Order.frame Order.max want

/-- Zero dirty blocks one by one.  The first number bounds the rounds. -/
def scrubFrom (budget : Nat) : Nat → Reach → Nat → Option (Nat × Reach)
  | steps, reach, done =>
    if done < budget then
      match steps with
      | 0 => none
      | steps + 1 =>
        match popDown window reach (affordable (budget - done) Order.max Order.frame) with
        | some (order, block, reach) =>
          let zeroed := Window.zero reach.memory block order
          let given := give window zeroed reach.shard order true block
          scrubFrom budget steps { reach with memory := given.1, shard := given.2 }
            (saturatingAdd done order.frames)
        | none =>
          match refill window reach Order.frame with
          | (true, reach) => scrubFrom budget steps reach done
          | (false, reach) => some (done, reach)
    else some (done, reach)

end Scrubbing

/-- Move dirty frames to the clean lists, zeroing each; `none` if it does not return. -/
def FrameAllocator.scrub (self : FrameAllocator) (memory : Memory) (cpu : Cpu)
    (budget : Nat) : Option (Nat × FrameAllocator × Memory) :=
  match scrubFrom self.map budget
      (2 * self.frontier.frames + (self.shards cpu).dirtyFrames + 1)
      (self.reach memory cpu) 0 with
  | none => none
  | some (done, reach) => some (done, self.reached cpu reach, reach.memory)

end FSystem.Kernel.Mem
