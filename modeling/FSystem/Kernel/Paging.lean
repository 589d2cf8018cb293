import Mathlib.Algebra.Ring.Nat
import Mathlib.Tactic.Common

/-!
# The page tables of a running process

Four levels of tables.  The upper three are built before the process runs and are only
read here; a live mapping writes one entry of the lowest and a live unmapping clears
one.
-/

namespace FSystem.Kernel.Paging

open Function

def present : Nat := 2 ^ 0
def write : Nat := 2 ^ 1
def user : Nat := 2 ^ 2
def writeThrough : Nat := 2 ^ 3
def cacheDisable : Nat := 2 ^ 4
def noExecute : Nat := 2 ^ 63

/-- What a page of a process is for. -/
inductive UserPage
  | text
  | data
  | readOnly
  | device
  deriving DecidableEq

/-- The flags of a lowest-level entry; `nx` says whether it may refuse instruction fetches. -/
def UserPage.flags (nx : Bool) : UserPage → Nat
  | .text => present ||| user
  | .data => present ||| user ||| write ||| (if nx then noExecute else 0)
  | .readOnly => present ||| user ||| (if nx then noExecute else 0)
  | .device =>
    present ||| user ||| write ||| cacheDisable ||| writeThrough ||| (if nx then noExecute else 0)

/-- Why a live mapping or unmapping is refused. -/
inductive BuildError
  | notUserAddress
  | noTable
  | overlap
  | notMapped
  deriving DecidableEq

/-- An entry of an upper table. -/
inductive Entry (α : Type)
  | absent
  | large
  | table (below : α)

/-- A lowest-level table: one word for each entry. -/
abbrev Leaves := Nat → Nat

/-- A process's tables. -/
abbrev Space := Nat → Entry (Nat → Entry (Nat → Entry Leaves))

/-- Which entry of a table covers an address, at the level a shift names. -/
def slotOf (virt shift : Nat) : Nat := virt >>> shift % 512

/-- Whether an entry is valid. -/
def isPresent (entry : Nat) : Bool := entry &&& present != 0

/-- The table below an entry. -/
def Entry.descend {α : Type} : Entry α → Except BuildError α
  | .absent => .error .noTable
  | .large => .error .overlap
  | .table below => .ok below

/-- The table below an entry rewritten. -/
def Entry.map {α : Type} (change : α → α) : Entry α → Entry α
  | .absent => .absent
  | .large => .large
  | .table below => .table (change below)

variable (space : Space)

/-- The lowest-level table for an address. -/
def leavesOf (virt : Nat) : Except BuildError Leaves :=
  match (space (slotOf virt 39)).descend with
  | .error error => .error error
  | .ok upper =>
    match (upper (slotOf virt 30)).descend with
    | .error error => .error error
    | .ok middle => (middle (slotOf virt 21)).descend

/-- The tables with one lowest-level entry rewritten. -/
def writeLeaf (virt entry : Nat) : Space :=
  update space (slotOf virt 39) <| (space (slotOf virt 39)).map fun upper =>
    update upper (slotOf virt 30) <| (upper (slotOf virt 30)).map fun middle =>
      update middle (slotOf virt 21) <| (middle (slotOf virt 21)).map fun leaves =>
        update leaves (slotOf virt 12) entry

/-- Map one page of the address space that is running. -/
def mapUserLive (virt phys : Nat) (kind : UserPage) (nx : Bool) : Except BuildError Space :=
  if 2 ^ 47 ≤ virt then .error .notUserAddress
  else
    match leavesOf space virt with
    | .error error => .error error
    | .ok leaves =>
      if isPresent (leaves (slotOf virt 12)) then .error .overlap
      else .ok (writeLeaf space virt (phys ||| kind.flags nx))

/-- Take one page out of the address space that is running. -/
def unmapUserLive (virt : Nat) : Except BuildError Space :=
  if 2 ^ 47 ≤ virt then .error .notUserAddress
  else
    match leavesOf space virt with
    | .error error => .error error
    | .ok leaves =>
      if ¬isPresent (leaves (slotOf virt 12)) then .error .notMapped
      else .ok (writeLeaf space virt 0)

/-- What an address's lowest-level entry says, if there are tables down to it. -/
def leafAt (virt : Nat) : Option Nat :=
  (leavesOf space virt).toOption.map fun leaves => leaves (slotOf virt 12)

/-- Whether a page is present. -/
def Mapped (virt : Nat) : Prop := (leafAt space virt).any isPresent = true

/-! ## One entry at a time -/

/-- The entries that lead to an address. -/
def path (virt : Nat) : Nat × Nat × Nat × Nat :=
  (slotOf virt 39, slotOf virt 30, slotOf virt 21, slotOf virt 12)

variable {virt : Nat} {space : Space}

/-- A page-aligned user address is determined by the entries that lead to it. -/
theorem path_injective
    {other : Nat}
    (low : virt < 2 ^ 47)
    (also : other < 2 ^ 47)
    (aligned : virt % 4096 = 0)
    (alignedToo : other % 4096 = 0)
    (same : path virt = path other) :
    virt = other := by
  simp only [path, slotOf, Prod.mk.injEq, Nat.shiftRight_eq_div_pow] at same
  omega

theorem leavesOf_writeLeaf {leaves : Leaves} (found : leavesOf space virt = .ok leaves)
    (entry : Nat) :
    leavesOf (writeLeaf space virt entry) virt = .ok (update leaves (slotOf virt 12) entry) := by
  unfold leavesOf at found
  cases upper : space (slotOf virt 39) with
  | absent | large => rw [upper] at found; cases found
  | table upperTable =>
    rw [upper] at found
    cases middle : upperTable (slotOf virt 30) with
    | absent | large => simp only [Entry.descend, middle] at found; cases found
    | table middleTable =>
      simp only [Entry.descend, middle] at found
      cases lowest : middleTable (slotOf virt 21) with
      | absent | large => rw [lowest] at found; cases found
      | table lowestTable =>
        rw [lowest] at found
        obtain rfl : lowestTable = leaves := Except.ok.inj found
        simp [leavesOf, writeLeaf, Entry.descend, Entry.map, upper, middle, lowest]

theorem leafAt_writeLeaf_of_ne {other : Nat} (different : path virt ≠ path other) (entry : Nat) :
    leafAt (writeLeaf space virt entry) other = leafAt space other := by
  unfold leafAt leavesOf writeLeaf
  by_cases first : slotOf other 39 = slotOf virt 39
  swap
  · rw [update_of_ne first]
  rw [first, update_self]
  cases space (slotOf virt 39) with
  | absent | large => rfl
  | table upper =>
    simp only [Entry.map, Entry.descend]
    by_cases second : slotOf other 30 = slotOf virt 30
    swap
    · rw [update_of_ne second]
    rw [second, update_self]
    cases upper (slotOf virt 30) with
    | absent | large => rfl
    | table middle =>
      dsimp only
      by_cases third : slotOf other 21 = slotOf virt 21
      swap
      · rw [update_of_ne third]
      rw [third, update_self]
      cases middle (slotOf virt 21) with
      | absent | large => rfl
      | table leaves =>
        have last : slotOf other 12 ≠ slotOf virt 12 := by
          intro same
          apply different
          simp [path, first, second, third, same]
        simp only [Except.toOption, Option.map_some]
        rw [update_of_ne last]

theorem isPresent_flags (phys : Nat) (kind : UserPage) (nx : Bool) :
    isPresent (phys ||| kind.flags nx) = true := by
  have first : (phys ||| kind.flags nx).testBit 0 = true := by
    cases kind <;> cases nx <;> simp [UserPage.flags, present, user, write, noExecute,
      cacheDisable, writeThrough]
  unfold isPresent present
  simpa using first

/-- A live mapping turns one absent page of the lower half into a present one, and leaves the
others. -/
theorem mapUserLive_ok
    {after : Space}
    {phys : Nat}
    {kind : UserPage}
    {nx : Bool}
    (mapped : mapUserLive space virt phys kind nx = .ok after) :
    virt < 2 ^ 47 ∧ ¬Mapped space virt ∧
      leafAt after virt = some (phys ||| kind.flags nx) ∧
      ∀ other, path virt ≠ path other → leafAt after other = leafAt space other := by
  unfold mapUserLive at mapped
  split_ifs at mapped with high
  split at mapped
  · cases mapped
  rename_i leaves found
  split_ifs at mapped with there
  obtain rfl := Except.ok.inj mapped
  refine ⟨Nat.lt_of_not_le high, ?_, ?_, fun other different => leafAt_writeLeaf_of_ne different _⟩
  · unfold Mapped leafAt
    rw [found]
    simpa [Except.toOption] using there
  · unfold leafAt
    rw [leavesOf_writeLeaf found]
    simp [Except.toOption]

/-- Unmapping a present page of the lower half takes it out, and leaves the others. -/
theorem unmapUserLive_of_mapped (low : virt < 2 ^ 47) (mapped : Mapped space virt) :
    ∃ after, unmapUserLive space virt = .ok after ∧ ¬Mapped after virt ∧
      ∀ other, path virt ≠ path other → leafAt after other = leafAt space other := by
  unfold unmapUserLive
  rw [if_neg (Nat.not_le.2 low)]
  unfold Mapped leafAt at mapped
  cases found : leavesOf space virt with
  | error error =>
    rw [found] at mapped
    cases mapped
  | ok leaves =>
    rw [found] at mapped
    have there : isPresent (leaves (slotOf virt 12)) = true := by
      simpa [Except.toOption] using mapped
    refine ⟨writeLeaf space virt 0, if_neg (not_not.2 there), ?_, fun other different =>
      leafAt_writeLeaf_of_ne different _⟩
    unfold Mapped leafAt
    rw [leavesOf_writeLeaf found]
    simp [Except.toOption, isPresent]

end FSystem.Kernel.Paging
