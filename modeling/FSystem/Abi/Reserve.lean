import Mathlib.Algebra.Order.Ring.Nat

/-!
# Reservations

A demand is tested against the cores, the partitions and the pre-faulted memory a
machine has left, and a table keeps what was granted and how it was obtained.
-/

namespace FSystem.Reserve

/-- A huge page. -/
def hugeBytes : Nat := 2 * 1024 * 1024

/-- How many reservations a table holds. -/
def reservationsMax : Nat := 18

/-- How many cores a mask counts. -/
def coresMax : Nat := 64

def Class.soft : UInt8 := 1

def Class.hard : UInt8 := 2

/-- Whether a class is one of those. -/
def Class.known (value : UInt8) : Bool := value ∈ [soft, hard]

def Domain.shared : UInt8 := 1

def Domain.private_ : UInt8 := 2

def Domain.hostile : UInt8 := 3

/-- Whether a domain is one of those. -/
def Domain.known (value : UInt8) : Bool := value ∈ [shared, private_, hostile]

/-- How a part of a reservation was obtained. -/
inductive Obtained
  | partition
  | exclusion
  /-- Exclusive by construction: no mechanism ran. -/
  | unexercised
  deriving DecidableEq

/-- What a machine offers for a resource that must be exclusive. -/
inductive Offers
  | partition
  | exclusion
  deriving DecidableEq

/-- What is obtained where that is offered. -/
def Offers.obtained : Offers → Obtained
  | .partition => .partition
  | .exclusion => .exclusion

/-- What the machine has. -/
structure Machine where
  (physicalCores threadsPerCore coresPerCache coresPerBandwidth : Nat)
  (cache bandwidth : Offers)
  (partitions frameCores reservableBytes tickNs : Nat)
  reservable_lt : reservableBytes < 2 ^ 64

/-- What a component asks for. -/
structure Demand where
  (cores periodNs budgetNs memoryBytes : Nat)
  (classField domain : UInt8)

namespace Demand

/-- Whole cores held: those a hard demand declares, and one for a hostile demand. -/
def wholeCores (self : Demand) : Nat :=
  if self.classField = Class.hard then self.cores
  else if self.domain = Domain.hostile then 1 else 0

/-- Whether the frame's clock can tell the period and the slack apart. -/
def schedulable (self : Demand) (tickNs : Nat) : Bool :=
  if self.classField = Class.hard then
    0 < self.cores ∧ 0 < self.periodNs ∧ 0 < self.budgetNs ∧ self.budgetNs ≤ self.periodNs ∧
      tickNs ≤ self.periodNs ∧ tickNs ≤ self.periodNs - self.budgetNs
  else self.cores = 0 ∧ self.periodNs = 0 ∧ self.budgetNs = 0

end Demand

/-- Why a demand is refused. -/
inductive Refusal
  | notSchedulable
  | noCore
  | noBandwidth
  | memory
  deriving DecidableEq

/-- A reservation; bit `n` of a core set is core `n`. -/
structure Grant where
  (cores excluded : BitVec 64)
  (periodNs budgetNs memoryBytes : Nat)
  (sibling cache bandwidth memory : Obtained)
  classField : UInt8

namespace Grant

/-- Whether every part ran a mechanism. -/
def exercised (self : Grant) : Bool :=
  self.sibling ≠ .unexercised ∧ self.cache ≠ .unexercised ∧ self.bandwidth ≠ .unexercised ∧
    self.memory ≠ .unexercised

/-- How many cores a grant takes. -/
def footprint (self : Grant) : Nat :=
  (List.range coresMax).countP (self.cores ||| self.excluded).getLsbD

/-- The first cores of a footprint run the component, and the rest are held idle. -/
def withSplit (self : Grant) (footprint : BitVec 64) (wanted : Nat) : Grant :=
  let split := (List.range coresMax).foldl (fun (running, left) bit =>
    if 0 < left ∧ footprint.getLsbD bit then (running ||| 1#64 <<< bit, left - 1)
    else (running, left)) (0#64, wanted)
  { self with cores := split.1, excluded := footprint &&& ~~~split.1 }

end Grant

/-- The next multiple of the grain. -/
def roundUp (value grain : Nat) : Nat :=
  if grain ≤ 1 ∨ value % grain = 0 then value
  else min (value + (grain - value % grain)) (2 ^ 32 - 1)

/-- Some cores in a row. -/
def runMask (base count : Nat) : BitVec 64 :=
  if count = 0 ∨ coresMax ≤ base then 0
  else (if coresMax ≤ count then BitVec.allOnes 64 else 1#64 <<< count - 1) <<< base

/-- Every reservation a machine granted. -/
structure Table where
  machine : Machine
  held : List Grant
  /-- The cores a grant holds or idles. -/
  taken : BitVec 64
  (partitionsUsed memoryUsed admitted : Nat)
  refused : Refusal → Nat

namespace Table

variable (self : Table)

/-- How many cores are excluded together. -/
def exclusionGrain : Nat :=
  let grain := if self.machine.cache = .exclusion then max 1 self.machine.coresPerCache else 1
  if self.machine.bandwidth = .exclusion then max grain self.machine.coresPerBandwidth else grain

/-- The lowest free run of cores on a boundary of the grain. -/
def lowestFree (count grain : Nat) : Option (BitVec 64) :=
  let step := max 1 grain
  let bases := (List.range self.machine.physicalCores).map fun turn =>
    roundUp self.machine.frameCores step + turn * step
  ((bases.takeWhile fun base => base + count ≤ self.machine.physicalCores).map
    (runMask · count)).find? (self.taken &&& · = 0)

/-- How many partitions a demand takes. -/
def partitionsWanted : Nat :=
  (if self.machine.cache = .partition then 1 else 0) +
    (if self.machine.bandwidth = .partition then 1 else 0)

/-- Test a demand against the machine and what is already granted. -/
def admits (demand : Demand) : Except Refusal Grant :=
  let wanted := demand.wholeCores
  let grain := self.exclusionGrain
  if !(Class.known demand.classField && Domain.known demand.domain &&
      demand.schedulable self.machine.tickNs) then .error .notSchedulable
  else if demand.memoryBytes = 0 ∨ demand.classField = Class.hard ∧
      (demand.memoryBytes % hugeBytes ≠ 0 ∨
        self.machine.reservableBytes < self.memoryUsed + demand.memoryBytes) then .error .memory
  else if wanted = 0 then
    .ok ⟨0, 0, 0, 0, demand.memoryBytes, .unexercised, .unexercised, .unexercised,
      .unexercised, demand.classField⟩
  else if self.machine.physicalCores - self.machine.frameCores < roundUp wanted grain then
    .error .noCore
  else
    match self.lowestFree (roundUp wanted grain) grain with
    | none => .error .noCore
    | some taken =>
      if self.machine.partitions < self.partitionsUsed + self.partitionsWanted then
        .error .noBandwidth
      else
        .ok ((Grant.mk 0 0 demand.periodNs demand.budgetNs demand.memoryBytes
          (if 1 < self.machine.threadsPerCore then .exclusion else .unexercised)
          self.machine.cache.obtained self.machine.bandwidth.obtained .partition
          demand.classField).withSplit taken wanted)

/-- Refuse, and count the reason. -/
def refuse (why : Refusal) : Except Refusal Grant × Table :=
  (.error why, { self with
    refused := Function.update self.refused why (min (self.refused why + 1) (2 ^ 32 - 1)) })

/-- Admit a demand and keep what it was granted; only the hard class spends the pool. -/
def grant (demand : Demand) : Except Refusal Grant × Table :=
  match self.admits demand with
  | .error why => self.refuse why
  | .ok granted =>
    if reservationsMax ≤ self.held.length then self.refuse .noCore
    else
      (.ok granted, { self with
        held := self.held ++ [granted]
        taken := self.taken ||| granted.cores ||| granted.excluded
        memoryUsed :=
          if granted.classField = Class.hard then
            min (self.memoryUsed + granted.memoryBytes) (2 ^ 64 - 1)
          else self.memoryUsed
        partitionsUsed :=
          if 0 < granted.footprint then
            min (self.partitionsUsed + self.partitionsWanted) (2 ^ 32 - 1)
          else self.partitionsUsed
        admitted := min (self.admitted + 1) (2 ^ 32 - 1) })

variable {table after : Table} {demand : Demand} {granted : Grant}

/-- The record of a demand's memory follows the cores it holds, not its class. -/
theorem admits_ok (ok : table.admits demand = .ok granted) :
    0 < demand.memoryBytes ∧
    (demand.classField = Class.hard → 0 < demand.cores ∧
      table.memoryUsed + demand.memoryBytes ≤ table.machine.reservableBytes) ∧
    granted.memoryBytes = demand.memoryBytes ∧ granted.classField = demand.classField ∧
    (granted.memory = .unexercised ↔ demand.wholeCores = 0) ∧
    (granted.exercised ↔ 0 < demand.wholeCores ∧ 1 < table.machine.threadsPerCore) := by
  simp only [admits, ite_eq_iff, reduceCtorEq, and_false, false_or, Bool.not_eq_true',
    Bool.not_eq_false, Bool.and_eq_true] at ok
  obtain ⟨⟨-, stated⟩, fits, ok⟩ := ok
  refine ⟨by omega, fun hard => ?_, ?_⟩
  · simp only [Demand.schedulable, hard, if_true, decide_eq_true_eq] at stated
    simp only [hard, true_and, not_or, Nat.not_lt] at fits
    exact ⟨stated.1, fits.2.2⟩
  rcases ok with ⟨none, ok⟩ | ⟨held, -, ok⟩
  · cases ok
    simp [Grant.exercised, none]
  split at ok
  next => cases ok
  simp only [ite_eq_iff, reduceCtorEq, and_false, false_or, Except.ok.injEq] at ok
  obtain ⟨-, rfl⟩ := ok
  have obtained : ∀ offers : Offers, offers.obtained ≠ .unexercised := by
    rintro (_ | _) <;> simp [Offers.obtained]
  simp [Grant.exercised, Grant.withSplit, obtained, held, Nat.pos_of_ne_zero held]

/-- A grant records only what was delivered just when the demand is of the hard class, is not
hostile, or finds no sibling to exclude: a hostile soft one holds a core, so its grant says
that memory was obtained, and the pool is not charged. -/
theorem grant_records_what_was_delivered_iff (ok : table.grant demand = (.ok granted, after)) :
    ((granted.exercised → after.memoryUsed = table.memoryUsed + granted.memoryBytes) ∧
      (granted.memory = .unexercised → after.memoryUsed = table.memoryUsed)) ↔
    (demand.classField = Class.hard ∨ demand.domain ≠ Domain.hostile ∨
      table.machine.threadsPerCore ≤ 1) := by
  simp only [grant] at ok
  split at ok
  · cases ok
  rename_i admitted
  split at ok
  next => cases ok
  cases ok
  obtain ⟨asked, pooled, bytes, sameClass, unexercised, exercised⟩ := admits_ok admitted
  rw [unexercised, exercised]
  simp only [bytes, sameClass, Demand.wholeCores]
  by_cases hard : demand.classField = Class.hard
  · obtain ⟨cores, fits⟩ := pooled hard
    have := table.machine.reservable_lt
    simp only [hard, if_true, true_or, iff_true]
    omega
  · by_cases hostile : demand.domain = Domain.hostile <;> simp [hard, hostile]
    omega

/-- A fresh table of a machine with siblings, which partitions cache and bandwidth. -/
def rich : Table :=
  ⟨⟨16, 2, 8, 16, .partition, .partition, 8, 1, 64 * hugeBytes, 1000000, by decide⟩,
    [], 0, 0, 0, 0, fun _ => 0⟩

/-- A soft demand of one page. -/
def guest (domain : UInt8) : Demand := ⟨0, 0, 0, 4096, Class.soft, domain⟩

theorem grant_records_what_was_delivered_shared :
    ∃ granted after, rich.grant (guest Domain.shared) = (.ok granted, after) ∧
      (granted.memory = .unexercised → after.memoryUsed = rich.memoryUsed) := by
  have ok : rich.grant (guest Domain.shared) = (.ok _, _) := rfl
  exact ⟨_, _, ok, ((grant_records_what_was_delivered_iff ok).mpr (.inr (.inl (by decide)))).2⟩

/-- The counterexample: a hostile one is granted as obtained and costs the pool nothing. -/
theorem hostile_guest_is_not_charged :
    ∃ granted after, rich.grant (guest Domain.hostile) = (.ok granted, after) ∧
      granted.exercised = true ∧ after.memoryUsed ≠ rich.memoryUsed + granted.memoryBytes :=
  ⟨_, _, rfl, by decide +kernel, by decide +kernel⟩

end Table

end FSystem.Reserve
