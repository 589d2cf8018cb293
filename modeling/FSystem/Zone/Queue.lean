import FSystem.Abi.Records
import Std.Data.TreeMap

/-!
# The collector's queue

One operation in flight at a time, handed over by class, then deadline, then
age.  The collector submits its own operations at batch class and counts how
many of them ran ahead of an urgent read.
-/

namespace FSystem.Zone

open Abi

/-- The class of the collector's own operations. -/
def batch : Nat := 2

/-- The deadline that stands for none. -/
def noDeadline : Nat := 0

/-- How many collector operations may run ahead of a hard read. -/
def collectorOperationsAheadOfHardRead : Nat := 1

/-- One submitted operation. -/
structure Entry where
  priority : Nat
  deadline : Nat
  seq : Nat
  collector : Bool
  deriving DecidableEq

namespace Entry

/-- What the queue orders by. -/
def rank (self : Entry) : Nat × Nat × Nat :=
  (self.priority, if self.deadline = noDeadline then 2 ^ 64 - 1 else self.deadline, self.seq)

/-- Whether an entry is handed over before another. -/
def before (self other : Entry) : Bool :=
  self.rank.1 < other.rank.1 ||
    (self.rank.1 == other.rank.1 && (self.rank.2.1 < other.rank.2.1 ||
      (self.rank.2.1 == other.rank.2.1 && self.rank.2.2 < other.rank.2.2)))

/-- Whether an entry is of a class above the collector's. -/
def urgent (self : Entry) : Bool := self.priority < batch

end Entry

/-- The queue. -/
structure Queue where
  pending : List Entry
  inFlight : Option Entry
  ahead : Std.TreeMap Nat Nat
  worst : Nat
  next : Nat

namespace Queue

/-- An empty queue. -/
def new : Queue := ⟨[], none, ∅, 0, 0⟩

variable (self : Queue)

/-- How many collector operations ran ahead of the unluckiest urgent read. -/
def opsAheadOfUrgentRead : Nat := self.worst

/-- Submit an operation. -/
def submit (priority deadline : Nat) (collector : Bool) : Nat × Queue :=
  let entry : Entry := ⟨priority, deadline, self.next + 1, collector⟩
  let behind := if self.inFlight.any Entry.collector then 1 else 0
  (entry.seq, { self with
    next := self.next + 1
    ahead := if entry.urgent then self.ahead.insert entry.seq behind else self.ahead
    pending := self.pending ++ [entry] })

/-- Submit one operation of the collector. -/
def submitCollector : Nat × Queue := self.submit batch noDeadline true

/-- Submit one operation of a client. -/
def submitClient (priority deadline : Nat) : Nat × Queue :=
  self.submit priority deadline false

/-- The first entry that no other goes before, and the others. -/
def takeFirst : List Entry → Option (Entry × List Entry)
  | [] => none
  | entry :: rest =>
    match takeFirst rest with
    | none => some (entry, [])
    | some (first, others) =>
      if first.before entry then some (first, entry :: others)
      else some (entry, rest)

/-- Start the next operation. -/
def handOver : Except Refusal (Option Entry × Queue) :=
  if self.inFlight.isSome then .error .full
  else
    match takeFirst self.pending with
    | none => .ok (none, self)
    | some (entry, others) =>
      .ok (some entry, { self with
        pending := others
        ahead :=
          if entry.collector then self.ahead.map fun _ count => count + 1
          else self.ahead
        inFlight := some entry })

/-- Finish the operation in flight. -/
def complete : Except Refusal (Entry × Queue) :=
  match self.inFlight with
  | none => .error .address
  | some entry =>
    let done := { self with inFlight := none }
    if entry.urgent then
      match self.ahead[entry.seq]? with
      | none => .ok (entry, done)
      | some count =>
        .ok (entry, { done with
          ahead := self.ahead.erase entry.seq
          worst := max self.worst count })
    else .ok (entry, done)

/-- Finish whatever is in flight. -/
def settle : Except Refusal Queue :=
  if self.inFlight.isSome then
    match self.complete with
    | .error refusal => .error refusal
    | .ok (_, queue) => .ok queue
  else .ok self

/-- Hand operations over, finishing each, until the one named `mine` starts. -/
def handOverUntil (mine : Nat) : Nat → Queue → Except Refusal Queue
  | 0, _ => .error .address
  | fuel + 1, self =>
    match self.handOver with
    | .error refusal => .error refusal
    | .ok (none, _) => .error .address
    | .ok (some entry, queue) =>
      if entry.seq = mine then .ok queue
      else
        match queue.complete with
        | .error refusal => .error refusal
        | .ok (_, queue) => handOverUntil mine fuel queue

/-- Submit one operation of the collector and run the queue until it starts. -/
def collectorOperation : Except Refusal Queue :=
  match self.settle with
  | .error refusal => .error refusal
  | .ok queue =>
    let submitted := queue.submitCollector
    handOverUntil submitted.1 submitted.2.pending.length submitted.2

/-- Only an empty queue has no first entry. -/
theorem takeFirst_eq_none (entries : List Entry) : takeFirst entries = none ↔ entries = [] := by
  cases entries with
  | nil => simp [takeFirst]
  | cons entry rest =>
    simp only [takeFirst, reduceCtorEq, iff_false]
    split
    · simp
    · split <;> simp

/-- Taking the first entry splits the queue into it and the others. -/
theorem takeFirst_perm {entries : List Entry} {first : Entry} {others : List Entry}
    (taken : takeFirst entries = some (first, others)) : entries.Perm (first :: others) := by
  fun_induction takeFirst entries generalizing first others with
  | case1 => cases taken
  | case2 entry rest nothing ih =>
    cases taken
    rw [(takeFirst_eq_none rest).mp nothing]
  | case3 entry rest least remaining found goes ih =>
    cases taken
    exact ((ih found).cons entry).trans (.swap _ _ _)
  | case4 =>
    cases taken
    exact .refl _

/-- What is in flight can always be finished. -/
theorem complete_ok {entry : Entry} (flying : self.inFlight = some entry) :
    ∃ queue, self.complete = .ok (entry, queue) ∧ queue.inFlight = none ∧
      queue.pending = self.pending := by
  simp only [complete, flying]
  cases entry.urgent with
  | false => exact ⟨_, rfl, rfl, rfl⟩
  | true =>
    cases self.ahead[entry.seq]? with
    | none | some count => exact ⟨_, rfl, rfl, rfl⟩

theorem settle_ok : ∃ queue, self.settle = .ok queue ∧ queue.inFlight = none := by
  cases flying : self.inFlight with
  | none => exact ⟨self, by simp [settle, flying], flying⟩
  | some entry =>
    obtain ⟨queue, finished, idle, -⟩ := self.complete_ok flying
    exact ⟨queue, by simp [settle, flying, finished], idle⟩

/-- A queue with nothing in flight hands over one of those that wait. -/
theorem handOver_some {self : Queue} {entry : Entry} (idle : self.inFlight = none)
    (member : entry ∈ self.pending) : ∃ first queue, self.handOver = .ok (some first, queue) ∧
      self.pending.Perm (first :: queue.pending) ∧ queue.inFlight = some first := by
  simp only [handOver, idle, Option.isSome_none, Bool.false_eq_true, if_false]
  cases taken : takeFirst self.pending with
  | none =>
    rw [(takeFirst_eq_none _).mp taken] at member
    cases member
  | some result => exact ⟨_, _, rfl, takeFirst_perm taken, rfl⟩

/-- A submitted operation is handed over after at most all the others; what every hand-over and
completion keeps is kept. -/
theorem handOverUntil_flies
    (Inv : Queue → Prop)
    (hands : ∀ {self entry after}, Inv self → handOver self = .ok (some entry, after) → Inv after)
    (serves : ∀ {self entry after}, Inv self → complete self = .ok (entry, after) → Inv after)
    (mine fuel : Nat)
    {self : Queue}
    (inv : Inv self)
    (idle : self.inFlight = none)
    (enough : self.pending.length ≤ fuel)
    (submitted : ∃ entry ∈ self.pending, entry.seq = mine) :
    ∃ queue, handOverUntil mine fuel self = .ok queue ∧ Inv queue ∧
      ∃ entry ∈ self.pending, entry.seq = mine ∧ queue.inFlight = some entry := by
  -- Every turn serves an entry that goes before, so the fuel is what waits.
  induction fuel generalizing self with
  | zero =>
    obtain ⟨entry, member, -⟩ := submitted
    rw [List.length_eq_zero_iff.mp (Nat.le_zero.mp enough)] at member
    cases member
  | succ fuel ih =>
    obtain ⟨entry, member, named⟩ := submitted
    obtain ⟨first, queue, handed, perm, flying⟩ := handOver_some idle member
    simp only [handOverUntil, handed]
    by_cases found : first.seq = mine
    · rw [if_pos found]
      exact ⟨queue, rfl, hands inv handed, first, perm.mem_iff.mpr List.mem_cons_self, found,
        flying⟩
    rw [if_neg found]
    obtain ⟨served, finished, nowIdle, samePending⟩ := queue.complete_ok flying
    have counted := perm.length_eq
    rw [List.length_cons] at counted
    have waits : entry ∈ queue.pending :=
      (List.mem_cons.mp (perm.mem_iff.mp member)).resolve_left fun same => found (same ▸ named)
    simp only [finished]
    obtain ⟨last, ok, kept, own, among, mineToo, flies⟩ :=
      ih (serves (hands inv handed) finished) nowIdle (by rw [samePending]; omega)
        ⟨entry, samePending ▸ waits, named⟩
    exact ⟨last, ok, kept, own, perm.mem_iff.mpr (List.mem_cons_of_mem _ (samePending ▸ among)),
      mineToo, flies⟩

/-- A collector operation always gets its turn. -/
theorem collectorOperation_ok : ∃ queue, self.collectorOperation = .ok queue := by
  obtain ⟨queue, ok, idle⟩ := self.settle_ok
  simp only [collectorOperation, ok]
  have submitted : queue.submitCollector.2.inFlight = none := idle
  obtain ⟨last, handed, -⟩ := handOverUntil_flies (fun _ => True) (fun _ _ => trivial)
    (fun _ _ => trivial) queue.submitCollector.1 _ trivial submitted (Nat.le_refl _)
    ⟨⟨batch, noDeadline, queue.next + 1, true⟩, by simp [submitCollector, submit], rfl⟩
  exact ⟨last, handed⟩

end Queue

end FSystem.Zone
