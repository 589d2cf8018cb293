import FSystem.Zone.Queue
import FSystem.Library.Runs

/-!
# How much collector work an urgent read waits for

An urgent entry starts life behind whatever is inside the device, and no
operation of the collector is handed over while it waits.  So the count kept for
it never passes one, whatever is submitted and in whatever order the queue is
driven.
-/

namespace FSystem.Zone

open Abi

namespace Queue

/-- The entry the collector submits next. -/
def ownEntry (self : Queue) : Entry := ⟨batch, noDeadline, self.next + 1, true⟩

/-- An entry is waiting or inside the device. -/
def Holds (self : Queue) (entry : Entry) : Prop :=
  entry ∈ self.pending ∨ self.inFlight = some entry

/-- What the counters rest on. -/
structure Bounded (queue : Queue) : Prop where
  /-- A count is kept for an urgent entry the queue still holds, and is at most one. -/
  counted : ∀ (seq count : Nat), queue.ahead[seq]? = some count →
    count ≤ collectorOperationsAheadOfHardRead ∧
      ∃ entry, queue.Holds entry ∧ entry.seq = seq ∧ entry.urgent = true
  worst : queue.worst ≤ collectorOperationsAheadOfHardRead
  /-- The collector's entries are of batch class. -/
  classed : ∀ entry, queue.Holds entry → entry.collector = true → entry.priority = batch
  /-- Every entry was numbered when it was submitted. -/
  numbered : ∀ entry, queue.Holds entry → entry.seq ≤ queue.next

theorem new_bounded : Bounded new where
  counted := by simp [new]
  worst := Nat.zero_le _
  classed := by simp [new, Holds]
  numbered := by simp [new, Holds]

section Submit

variable {self : Queue}

theorem holds_submit (priority deadline : Nat) (collector : Bool) (entry : Entry) :
    (self.submit priority deadline collector).2.Holds entry ↔
      self.Holds entry ∨ entry = ⟨priority, deadline, self.next + 1, collector⟩ := by
  simp only [Holds, submit, List.mem_append, List.mem_singleton]
  constructor
  · rintro ((waiting | new) | flying)
    · exact .inl (.inl waiting)
    · exact .inr new
    · exact .inl (.inr flying)
  · rintro ((waiting | flying) | new)
    · exact .inl (.inl waiting)
    · exact .inr flying
    · exact .inl (.inr new)

theorem Bounded.submit (bounded : Bounded self) (priority deadline : Nat) (collector : Bool)
    (fair : collector = true → priority = batch) :
    Bounded (self.submit priority deadline collector).2 where
  counted := by
    intro seq count found
    have kept : self.ahead[seq]? = some count → count ≤ collectorOperationsAheadOfHardRead ∧
        ∃ entry, (self.submit priority deadline collector).2.Holds entry ∧
          entry.seq = seq ∧ entry.urgent = true := by
      intro before
      obtain ⟨few, entry, holds, named, urgent⟩ := bounded.counted seq count before
      exact ⟨few, entry, (holds_submit _ _ _ _).mpr (.inl holds), named, urgent⟩
    simp only [Queue.submit] at found
    by_cases urgent : (Entry.mk priority deadline (self.next + 1) collector).urgent = true
    · rw [if_pos urgent, Std.TreeMap.getElem?_insert] at found
      split at found
      next same =>
        rw [← Option.some.inj found]
        refine ⟨?_, _, (holds_submit _ _ _ _).mpr (.inr rfl), ?_, urgent⟩
        · split
          · exact Nat.le_refl _
          · exact Nat.zero_le _
        · exact Std.LawfulEqOrd.eq_of_compare same
      next => exact kept found
    · rw [if_neg urgent] at found
      exact kept found
  worst := bounded.worst
  classed := by
    intro entry holds isCollector
    rcases (holds_submit _ _ _ _).mp holds with before | rfl
    · exact bounded.classed entry before isCollector
    · exact fair isCollector
  numbered := by
    intro entry holds
    rcases (holds_submit _ _ _ _).mp holds with before | rfl
    · exact Nat.le_succ_of_le (bounded.numbered entry before)
    · exact Nat.le_refl _

end Submit

section HandOver

variable {first : Entry}

/-- An entry that goes before another is of no lower class. -/
theorem priority_le_of_before {second : Entry} (goes : first.before second = true) :
    first.priority ≤ second.priority := by
  simp only [Entry.before, Entry.rank, Bool.or_eq_true, Bool.and_eq_true, beq_iff_eq] at goes
  rcases goes with lower | ⟨same, -⟩
  · exact Nat.le_of_lt (of_decide_eq_true lower)
  · exact Nat.le_of_eq same

theorem priority_le_of_not_before {second : Entry} (goes : ¬first.before second = true) :
    second.priority ≤ first.priority := by
  simp only [Entry.before, Entry.rank, Bool.or_eq_true, not_or] at goes
  exact Nat.le_of_not_lt fun lower => goes.1 (decide_eq_true lower)

variable {entry : Entry}

/-- The entry that is taken is of the highest class that waits. -/
theorem takeFirst_priority {entries : List Entry} {others : List Entry}
    (taken : takeFirst entries = some (first, others)) (member : entry ∈ entries) :
    first.priority ≤ entry.priority := by
  fun_induction takeFirst entries generalizing first others with
  | case1 => cases member
  | case2 head rest nothing =>
    cases taken
    rw [(takeFirst_eq_none rest).mp nothing, List.mem_singleton] at member
    rw [member]
  | case3 head rest least remaining found goes ih =>
    cases taken
    rcases List.mem_cons.mp member with rfl | later
    · exact priority_le_of_before goes
    · exact ih found later
  | case4 head rest least remaining found stays ih =>
    cases taken
    rcases List.mem_cons.mp member with rfl | later
    · exact Nat.le_refl _
    · exact (priority_le_of_not_before stays).trans (ih found later)

variable {self after : Queue}

theorem handOver_none (ok : self.handOver = .ok (none, after)) : after = self := by
  unfold handOver at ok
  split at ok
  · cases ok
  split at ok
  next => cases ok; rfl
  next => cases ok

section

variable (ok : self.handOver = .ok (some entry, after))
include ok

/-- What handing an entry over does. -/
theorem handOver_ok :
    self.inFlight = none ∧ entry ∈ self.pending ∧
      (∀ other ∈ self.pending, entry.priority ≤ other.priority) ∧
      self.pending.Perm (entry :: after.pending) ∧ after.inFlight = some entry ∧
      after.worst = self.worst ∧ after.next = self.next ∧
      after.ahead = if entry.collector then self.ahead.map fun _ count => count + 1
        else self.ahead := by
  unfold handOver at ok
  split at ok
  · cases ok
  rename_i idle
  split at ok
  · cases ok
  rename_i first others taken
  cases ok
  have perm := takeFirst_perm taken
  refine ⟨?_, perm.mem_iff.mpr List.mem_cons_self,
    fun other member => takeFirst_priority taken member, perm, rfl, rfl, rfl, rfl⟩
  simpa using idle

/-- Handing an entry over moves it and no other. -/
theorem holds_handOver (other : Entry) : after.Holds other ↔ self.Holds other := by
  obtain ⟨idle, -, -, perm, flying, -⟩ := handOver_ok ok
  simp only [Holds, idle, flying, reduceCtorEq, or_false, perm.mem_iff, List.mem_cons,
    Option.some.injEq]
  rw [or_comm, eq_comm]

/-- No entry of the collector is handed over while an urgent one waits. -/
theorem Bounded.no_count_of_collector (bounded : Bounded self)
    (isCollector : entry.collector = true) (seq : Nat) : self.ahead[seq]? = none := by
  obtain ⟨idle, member, first, -⟩ := handOver_ok ok
  by_contra counted
  obtain ⟨count, found⟩ := Option.ne_none_iff_exists'.mp counted
  obtain ⟨-, other, holds, -, urgent⟩ := bounded.counted seq count found
  have waiting : other ∈ self.pending := by
    rcases holds with waiting | flying
    · exact waiting
    · rw [idle] at flying
      cases flying
  have higher := first other waiting
  rw [bounded.classed entry (.inl member) isCollector] at higher
  simp only [Entry.urgent, decide_eq_true_eq] at urgent
  omega

theorem Bounded.handOver (bounded : Bounded self) : Bounded after := by
  obtain ⟨-, -, -, -, -, worst, next, ahead⟩ := handOver_ok ok
  have holds := holds_handOver ok
  refine ⟨?_, worst ▸ bounded.worst, ?_, ?_⟩
  · intro seq count found
    have before : self.ahead[seq]? = some count := by
      rw [ahead] at found
      split at found
      next isCollector =>
        have nothing := bounded.no_count_of_collector ok isCollector seq
        rw [Std.TreeMap.getElem?_map, nothing] at found
        cases found
      next => exact found
    obtain ⟨few, other, held, named, urgent⟩ := bounded.counted seq count before
    exact ⟨few, other, (holds other).mpr held, named, urgent⟩
  · intro other held
    exact bounded.classed other ((holds other).mp held)
  · intro other held
    rw [next]
    exact bounded.numbered other ((holds other).mp held)

end

end HandOver

variable {entry : Entry}

section Complete

variable {self after : Queue}

/-- What finishing the operation in flight does. -/
theorem complete_steps (ok : self.complete = .ok (entry, after)) :
    self.inFlight = some entry ∧ after.inFlight = none ∧ after.pending = self.pending ∧
      after.next = self.next ∧
      (after.ahead = self.ahead ∧ after.worst = self.worst ∧
          (entry.urgent = true → self.ahead[entry.seq]? = none) ∨
        ∃ count, self.ahead[entry.seq]? = some count ∧
          after.ahead = self.ahead.erase entry.seq ∧ after.worst = max self.worst count) := by
  unfold complete at ok
  split at ok
  · cases ok
  rename_i flying found
  split at ok
  next urgent =>
    split at ok
    next nothing =>
      cases ok
      exact ⟨found, rfl, rfl, rfl, .inl ⟨rfl, rfl, fun _ => nothing⟩⟩
    next count counted =>
      cases ok
      exact ⟨found, rfl, rfl, rfl, .inr ⟨count, counted, rfl, rfl⟩⟩
  next calm =>
    cases ok
    exact ⟨found, rfl, rfl, rfl, .inl ⟨rfl, rfl, fun urgent => absurd urgent calm⟩⟩

theorem Bounded.complete (bounded : Bounded self) (ok : self.complete = .ok (entry, after)) :
    Bounded after := by
  obtain ⟨flying, idle, pending, next, counters⟩ := complete_steps ok
  have before : ∀ {other}, after.Holds other → self.Holds other := by
    rintro other (waiting | nothing)
    · exact .inl (pending ▸ waiting)
    · rw [idle] at nothing
      cases nothing
  -- An entry that is counted and not the finished one still waits.
  have waits : ∀ {other}, self.Holds other → other ≠ entry → after.Holds other := by
    rintro other (waiting | same) apart
    · exact .inl (pending ▸ waiting)
    · rw [flying] at same
      exact absurd (Option.some.inj same).symm apart
  refine ⟨?_, ?_, fun other held => bounded.classed other (before held), ?_⟩
  · intro seq count found
    rcases counters with ⟨ahead, -, uncounted⟩ | ⟨-, -, ahead, -⟩
    · rw [ahead] at found
      obtain ⟨few, other, held, named, urgent⟩ := bounded.counted seq count found
      refine ⟨few, other, waits held ?_, named, urgent⟩
      rintro rfl
      rw [named] at uncounted
      rw [uncounted urgent] at found
      cases found
    · rw [ahead, Std.TreeMap.getElem?_erase] at found
      split at found
      · cases found
      rename_i apart
      obtain ⟨few, other, held, named, urgent⟩ := bounded.counted seq count found
      refine ⟨few, other, waits held ?_, named, urgent⟩
      rintro rfl
      exact apart (by rw [named, Std.compare_eq_iff_eq])
  · rcases counters with ⟨-, worst, -⟩ | ⟨count, counted, -, worst⟩
    · rw [worst]
      exact bounded.worst
    · rw [worst]
      exact max_le bounded.worst (bounded.counted _ count counted).1
  · intro other held
    rw [next]
    exact bounded.numbered other (before held)

end Complete

section Operation

variable {self after : Queue}

theorem settle_steps (ok : self.settle = .ok after) :
    self.inFlight = none ∧ after = self ∨ ∃ entry, self.complete = .ok (entry, after) := by
  revert ok
  fun_cases settle self with
  | case1 => nofun
  | case2 _ entry _ finished =>
    rintro ⟨⟩
    exact .inr ⟨entry, finished⟩
  | case3 idle =>
    rintro ⟨⟩
    exact .inl ⟨by simpa using idle, rfl⟩

/-- Settling leaves nothing in flight and submits nothing. -/
theorem Bounded.settle (bounded : Bounded self) (ok : self.settle = .ok after) :
    Bounded after ∧ after.inFlight = none ∧ after.next = self.next := by
  rcases settle_steps ok with ⟨idle, rfl⟩ | ⟨entry, finished⟩
  · exact ⟨bounded, idle, rfl⟩
  · obtain ⟨-, idle, -, next, -⟩ := complete_steps finished
    exact ⟨bounded.complete finished, idle, next⟩

/-- A collector operation ends, with its own entry the one in flight. -/
theorem collectorOperation_flies (bounded : Bounded self) :
    ∃ queue, self.collectorOperation = .ok queue ∧ Bounded queue ∧
      queue.inFlight = some self.ownEntry := by
  obtain ⟨queue, ok, -⟩ := self.settle_ok
  obtain ⟨settled, idle, next⟩ := bounded.settle ok
  simp only [collectorOperation, ok]
  have submitted : Bounded queue.submitCollector.2 :=
    settled.submit batch noDeadline true (fun _ => rfl)
  have own : queue.submitCollector.2.pending = queue.pending ++ [self.ownEntry] := by
    simp [submitCollector, submit, ownEntry, next]
  have named : queue.submitCollector.1 = self.ownEntry.seq := by
    simp [submitCollector, submit, ownEntry, next]
  rw [named]
  obtain ⟨last, handed, kept, other, member, same, flying⟩ :=
    handOverUntil_flies Bounded (fun before ok => before.handOver ok) Bounded.complete _ _ submitted
      idle (Nat.le_refl _)
      ⟨self.ownEntry, by simp [own], rfl⟩
  refine ⟨last, handed, kept, ?_⟩
  rw [own, List.mem_append, List.mem_singleton] at member
  rcases member with before | new
  · have numbered := settled.numbered other (.inl before)
    simp only [ownEntry] at same
    omega
  · rw [flying, new]

end Operation

/-- What a client or the collector asks of the queue. -/
inductive Request
  | submitClient (priority deadline : Nat)
  | submitCollector
  | handOver
  | complete
  | settle
  | collectorOperation

/-- The queue after a request; a refused one leaves it as it was. -/
def serve (self : Queue) : Request → Queue
  | .submitClient priority deadline => (self.submitClient priority deadline).2
  | .submitCollector => self.submitCollector.2
  | .handOver =>
    match self.handOver with
    | .error _ => self
    | .ok (_, queue) => queue
  | .complete =>
    match self.complete with
    | .error _ => self
    | .ok (_, queue) => queue
  | .settle =>
    match self.settle with
    | .error _ => self
    | .ok queue => queue
  | .collectorOperation =>
    match self.collectorOperation with
    | .error _ => self
    | .ok queue => queue

theorem Bounded.serve {self : Queue} (bounded : Bounded self) (request : Request) :
    Bounded (self.serve request) := by
  fun_cases Queue.serve self request with
  | case1 priority deadline => exact bounded.submit priority deadline false nofun
  | case2 => exact bounded.submit batch noDeadline true fun _ => rfl
  | case4 handed queue ok =>
    cases handed with
    | none => exact handOver_none ok ▸ bounded
    | some entry => exact bounded.handOver ok
  | case6 entry queue ok => exact bounded.complete ok
  | case8 queue ok => exact (bounded.settle ok).1
  | case10 queue ok =>
    obtain ⟨_, flown, after, -⟩ := collectorOperation_flies bounded
    cases ok.symm.trans flown
    exact after
  | _ => exact bounded

/-- In every run of the queue the counts kept for waiting urgent reads and the worst
count on record are at most one, and a collector operation would end with its own
entry, numbered after every entry submitted so far, in flight. -/
theorem run_never_delays_an_urgent_read (requests : List Request) :
    (∀ (seq count : Nat), (Runs.run serve new requests).ahead[seq]? = some count →
      count ≤ collectorOperationsAheadOfHardRead) ∧
    (Runs.run serve new requests).opsAheadOfUrgentRead ≤ collectorOperationsAheadOfHardRead ∧
    ∃ queue, (Runs.run serve new requests).collectorOperation = .ok queue ∧
      queue.inFlight = some (Runs.run serve new requests).ownEntry ∧
      ∀ entry, (Runs.run serve new requests).Holds entry →
        entry.seq < (Runs.run serve new requests).ownEntry.seq := by
  have bounded : Bounded (Runs.run serve new requests) :=
    Runs.invariant_of_step Bounded (fun _ request before => before.serve request) new_bounded
      requests
  obtain ⟨queue, ok, -, flying⟩ := collectorOperation_flies bounded
  exact ⟨fun seq count found => (bounded.counted seq count found).1, bounded.worst, queue, ok,
    flying, fun entry held => Nat.lt_succ_of_le (bounded.numbered entry held)⟩

end Queue

end FSystem.Zone
