import FSystem.Library.Runs
import Mathlib.Algebra.Ring.Nat
import Mathlib.Data.UInt

/-!
# Sleeping on a ring

A producer publishes and then asks whether to ring; a consumer says that it will sleep and
then polls.  Every access to a shared word is a step of its own, and the steps of the two
come in any order.
-/

namespace FSystem.Ring

/-- The consumer asks to be woken. -/
def needWakeup : UInt32 := 1

/-- A producer fills a batch from a position on, has published and not asked yet, or was told to
ring. -/
inductive Producer
  | idle
  | filling (base staged : UInt32)
  | published
  | ringing
  deriving DecidableEq

/-- A consumer has said that it will sleep and not polled yet, found an entry, or found the ring
empty. -/
inductive Consumer
  | awake
  | armed
  | taking
  | leaving
  | asleep
  | woken
  deriving DecidableEq

/-- The words of a channel, the bell, and its two ends. -/
structure Channel (Entry : Type) where
  (head tail flags mask : UInt32)
  index : List UInt32
  entries : List Entry
  bell : Bool
  producer : Producer
  consumer : Consumer

/-- What the ends do; a submission is a batch of one entry. -/
inductive Action (Entry : Type)
  | batch
  | push (entry : Entry)
  | publish
  | drop
  | doorbellWanted
  | ring
  | arm
  | pop
  | take
  | sleep
  | deliver
  | disarm

namespace Channel

variable {Entry : Type} (self : Channel Entry)

/-- Write an entry into the slot a position names. -/
def stage (position : UInt32) (entry : Entry) : Channel Entry :=
  let slot := position &&& self.mask
  { self with
    entries := self.entries.set slot.toNat entry
    index := self.index.set slot.toNat slot }

/-- Stage one more entry, unless the ring is full or its cursors are impossible. -/
def push (base staged : UInt32) (entry : Entry) : Channel Entry :=
  if self.mask + 1 ≤ base + staged - self.tail then self
  else { self.stage (base + staged) entry with producer := .filling base (staged + 1) }

/-- Poll the ring.  A slot that is not in the array is refused. -/
def pop (empty : Consumer) : Consumer :=
  let used := self.head - self.tail
  if self.mask + 1 < used then .awake
  else if used = 0 then empty
  else
    match self.index[(self.tail &&& self.mask).toNat]? with
    | none => .awake
    | some slot => if self.entries.length ≤ slot.toNat then .awake else .taking

/-- A step of one end, or the delivery of a ring; one that cannot be taken changes nothing.  A
consumer about to sleep gets the ring when it sleeps. -/
def step : Action Entry → Channel Entry
  | .batch => if self.producer = .idle then { self with producer := .filling self.head 0 } else self
  | .push entry =>
    match self.producer with
    | .filling base staged => self.push base staged entry
    | _ => self
  | .publish =>
    match self.producer with
    | .filling base staged =>
      if staged = 0 then { self with producer := .idle }
      else { self with head := base + staged, producer := .published }
    | _ => self
  | .drop =>
    match self.producer with
    | .filling _ _ => { self with producer := .idle }
    | _ => self
  | .doorbellWanted =>
    if self.producer = .published then
      { self with producer := if self.flags &&& needWakeup ≠ 0 then .ringing else .idle }
    else self
  | .ring =>
    if self.producer = .ringing then { self with bell := true, producer := .idle } else self
  | .arm =>
    if self.consumer = .awake then
      { self with flags := self.flags ||| needWakeup, consumer := .armed }
    else self
  | .pop =>
    match self.consumer with
    | .awake => { self with consumer := self.pop .awake }
    | .armed => { self with consumer := self.pop .leaving }
    | _ => self
  | .take =>
    if self.consumer = .taking then { self with tail := self.tail + 1, consumer := .awake }
    else self
  | .sleep => if self.consumer = .leaving then { self with consumer := .asleep } else self
  | .deliver =>
    match self.bell, self.consumer with
    | true, .asleep => { self with bell := false, consumer := .woken }
    | true, .leaving => self
    | _, _ => { self with bell := false }
  | .disarm =>
    if self.consumer = .woken ∨ self.consumer = .awake then
      { self with flags := self.flags &&& ~~~needWakeup, consumer := .awake }
    else self

/-- Something was published after the consumer looked, and its ring is to come. -/
def Owed : Prop :=
  self.producer = .published ∨ self.producer = .ringing ∨ self.bell = true

/-- A consumer going to sleep has its flag set, and is owed a ring for what there is. -/
structure Sound (channel : Channel Entry) : Prop where
  armed : channel.consumer = .armed ∨ channel.consumer = .leaving ∨ channel.consumer = .asleep →
    channel.flags &&& needWakeup ≠ 0
  owed : channel.consumer = .leaving ∨ channel.consumer = .asleep →
    channel.head = channel.tail ∨ channel.Owed

variable {self : Channel Entry}

theorem and_or_needWakeup (flags : UInt32) : (flags ||| needWakeup) &&& needWakeup ≠ 0 := by
  have same : (flags ||| needWakeup) &&& needWakeup = needWakeup := by
    rw [← UInt32.toBitVec_inj]
    ext
    simpa using .inr
  rw [same]
  decide

/-- The step lemma. -/
theorem Sound.step (sound : self.Sound) (action : Action Entry) : (self.step action).Sound := by
  obtain ⟨armed, owed⟩ := sound
  rw [Owed] at owed
  cases action with
  | arm => constructor <;> grind [Channel.step, Owed, and_or_needWakeup]
  | pop =>
    -- a poll after which the consumer leaves has read a head that is the tail
    constructor <;> grind [Channel.step, Channel.pop, Owed]
  | publish | doorbellWanted | ring =>
    -- who sleeps has its flag set, so a publish is asked about, rung for and delivered
    constructor <;> grind [Channel.step, Owed]
  | batch | push | drop | take | sleep | deliver | disarm =>
    constructor <;> grind [Channel.step, Channel.push, stage, Owed]

/-- No consumer sleeps on a ring that is not empty while no ring is made or pending and
nothing that was published is still to be asked about. -/
theorem no_wakeup_is_lost (start : Channel Entry) (actions : List (Action Entry)) :
    let ends := Runs.run Channel.step
      { start with bell := false, producer := .idle, consumer := .awake } actions
    ¬(ends.consumer = .asleep ∧ ends.head ≠ ends.tail ∧ ¬(ends.bell = true ∨
      ends.producer = .ringing) ∧ ends.producer ≠ .published) := by
  intro ends
  have sound : ends.Sound :=
    Runs.invariant_of_step Sound (fun _ action sound => sound.step action) ⟨by simp, by simp⟩ _
  rintro ⟨asleep, some_, silent, asked⟩
  rcases sound.owed (.inr asleep) with none | published | ringing | bell
  · exact some_ none
  · exact asked published
  · exact silent (.inr ringing)
  · exact silent (.inl bell)

end Channel

end FSystem.Ring
