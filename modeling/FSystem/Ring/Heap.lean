import FSystem.Library.Runs
import Mathlib.Algebra.Ring.Nat

/-!
# The component's heap

First fit over a free list in address order, new ground past the bump when nothing
fits, and both neighbours coalesced when a block comes back.  The free list, which the
source threads through the free blocks, is a list of offsets and sizes.
-/

namespace FSystem.Ring

/-- The header at the start of a heap. -/
def headerBytes : Nat := 32

/-- What sizes are rounded to. -/
def granularity : Nat := 16

/-- A size and an alignment, which is a power of two. -/
structure Layout where
  size : Nat
  align : Nat
  power : align.isPowerOfTwo

/-- A request in whole blocks, when the allocator serves it. -/
def rounded (layout : Layout) : Option Nat :=
  if granularity < layout.align then none
  else
    let padded := max layout.size 1 + (granularity - 1)
    if 2 ^ 32 ≤ padded then none else some (padded / granularity * granularity)

/-- A free block: where it is, and its size. -/
abbrev Block := Nat × Nat

/-- A heap over the region at a base. -/
structure Heap where
  base : Nat
  bytes : Nat
  bump : Nat
  free : List Block
  live : Nat
  peak : Nat
  starved : Bool

/-- An empty heap over a region. -/
def describe (base bytes : Nat) : Heap := ⟨base, bytes, headerBytes, [], 0, 0, false⟩

/-- Take the first block that fits; the tail of a larger one keeps its place. -/
def take (want : Nat) : List Block → Option (Nat × List Block)
  | [] => none
  | (block, size) :: rest =>
    if want ≤ size then
      let remainder := size - want
      some (block, if granularity ≤ remainder then (block + want, remainder) :: rest else rest)
    else (take want rest).map fun found => (found.1, (block, size) :: found.2)

/-- Put a block before those that follow it, merged with the next where they touch. -/
def forward (block span : Nat) : List Block → List Block
  | [] => [(block, span)]
  | (next, size) :: rest =>
    if block + span = next then (block, span + size) :: rest
    else (block, span) :: (next, size) :: rest

/-- Put a block back in its place, coalescing both sides. -/
def give (block size : Nat) : List Block → List Block
  | [] => [(block, size)]
  | (next, span) :: rest =>
    if block ≤ next then forward block size ((next, span) :: rest)
    else if rest.head?.all (block ≤ ·.1) ∧ next + span = block then
      forward next (span + size) rest
    else (next, span) :: give block size rest

variable {want : Nat} {layout : Layout}

theorem rounded_ok (ok : rounded layout = some want) :
    granularity ∣ want ∧ layout.align ∣ granularity := by
  unfold rounded at ok
  split at ok
  · cases ok
  rename_i served
  simp only at ok
  split at ok
  · cases ok
  cases ok
  obtain ⟨power, isPower⟩ := layout.power
  rw [isPower] at served ⊢
  refine ⟨Nat.dvd_mul_left _ _, Nat.pow_dvd_pow 2 (n := 4) ?_⟩
  exact (Nat.pow_le_pow_iff_right Nat.one_lt_two).mp (Nat.le_of_not_lt served)

/-- Every block of a list stands at a whole number of granules and holds one. -/
def Whole (free : List Block) : Prop :=
  ∀ held ∈ free, granularity ∣ held.1 ∧ granularity ∣ held.2

@[grind =]
theorem whole_cons {held : Block} {rest : List Block} :
    Whole (held :: rest) ↔ (granularity ∣ held.1 ∧ granularity ∣ held.2) ∧ Whole rest :=
  List.forall_mem_cons

section

variable {free left : List Block} {block size : Nat} (whole : Whole free)
include whole

theorem take_whole (wanted : granularity ∣ want) (taken : take want free = some (block, left)) :
    granularity ∣ block ∧ Whole left := by
  fun_induction take want free generalizing left <;>
    grind [Nat.dvd_add, Nat.dvd_sub, Option.map_eq_some_iff]

variable (aligned : granularity ∣ block) (sized : granularity ∣ size)
include aligned sized

theorem forward_whole : Whole (forward block size free) := by
  fun_cases forward block size free <;> grind [Nat.dvd_add]

theorem give_whole : Whole (give block size free) := by
  fun_induction give block size free <;> grind [Nat.dvd_add, forward_whole]

end

namespace Heap

/-- Count some bytes as handed out. -/
def charge (self : Heap) (want : Nat) : Heap :=
  let live := min (self.live + want) (2 ^ 32 - 1)
  { self with live := live, peak := max self.peak live }

/-- Allocate; `none` is the null pointer. -/
def alloc (self : Heap) (layout : Layout) : Option Nat × Heap :=
  match rounded layout with
  | none => (none, self)
  | some want =>
    if self.bytes < headerBytes then (none, self)
    else
      match take want self.free with
      | some (block, free) => (some (self.base + block), { self with free := free }.charge want)
      | none =>
        let stop := self.bump + want
        if 2 ^ 32 ≤ stop then (none, self)
        else if self.bytes < stop then (none, { self with starved := true })
        else (some (self.base + self.bump), { self with bump := stop }.charge want)

/-- Give a block back. -/
def dealloc (self : Heap) (pointer : Nat) (layout : Layout) : Heap :=
  match rounded layout with
  | none => self
  | some size =>
    let offset := (pointer + 2 ^ 64 - self.base) % 2 ^ 64
    if 2 ^ 32 ≤ offset ∨ offset < headerBytes ∨ self.bytes ≤ offset then self
    else { self with free := give offset size self.free, live := self.live - size }

end Heap

/-- An allocation, or the return of one of the blocks lent, with its own layout. -/
inductive Op
  | alloc (layout : Layout)
  | dealloc (index : Nat)

/-- A heap and the blocks it has lent. -/
structure Lending where
  heap : Heap
  lent : List (Nat × Layout)

namespace Lending

/-- The heap and what is lent after an operation. -/
def step (self : Lending) : Op → Lending
  | .alloc layout =>
    let (answer, heap) := self.heap.alloc layout
    ⟨heap, (answer.map (·, layout)).toList ++ self.lent⟩
  | .dealloc index =>
    match self.lent[index]? with
    | none => self
    | some (pointer, layout) => ⟨self.heap.dealloc pointer layout, self.lent.eraseIdx index⟩

/-- A pointer stands at a whole number of granules past a base. -/
def Stands (base pointer : Nat) : Prop := ∃ block, granularity ∣ block ∧ pointer = base + block

/-- Every offset of a lending is a whole number of granules. -/
structure Granular (base : Nat) (self : Lending) : Prop where
  base_eq : self.heap.base = base
  bump : granularity ∣ self.heap.bump
  free : Whole self.heap.free
  lent : ∀ held ∈ self.lent, Stands base held.1

variable {base : Nat} {self : Lending} (granular : Granular base self)
include granular

/-- An allocation is granular. -/
theorem alloc_granular (layout : Layout) :
    Granular base (self.step (.alloc layout)) ∧
      ∀ pointer, (self.heap.alloc layout).1 = some pointer →
        layout.align ∣ granularity ∧ Stands base pointer := by
  obtain ⟨rfl, bump, free, lent⟩ := granular
  rw [step]
  fun_cases self.heap.alloc layout with
  | case3 want isWant _ block left taken =>
    obtain ⟨wanted, divides⟩ := rounded_ok isWant
    obtain ⟨aligned, whole⟩ := take_whole free wanted taken
    have stands : Stands self.heap.base (self.heap.base + block) := ⟨block, aligned, rfl⟩
    exact ⟨⟨rfl, bump, whole, List.forall_mem_cons.mpr ⟨stands, lent⟩⟩,
      fun _ isPointer => ⟨divides, Option.some.inj isPointer ▸ stands⟩⟩
  | case6 want isWant =>
    obtain ⟨wanted, divides⟩ := rounded_ok isWant
    have stands : Stands self.heap.base (self.heap.base + self.heap.bump) := ⟨_, bump, rfl⟩
    exact ⟨⟨rfl, Nat.dvd_add bump wanted, free, List.forall_mem_cons.mpr ⟨stands, lent⟩⟩,
      fun _ isPointer => ⟨divides, Option.some.inj isPointer ▸ stands⟩⟩
  | _ => exact ⟨⟨rfl, bump, free, lent⟩, nofun⟩

/-- The step lemma. -/
theorem step_granular (op : Op) : Granular base (self.step op) := by
  cases op with
  | alloc layout => exact (alloc_granular granular layout).1
  | dealloc index =>
    rw [step]
    split
    · exact granular
    rename_i pointer layout held
    obtain ⟨rfl, bump, free, lent⟩ := granular
    have others : ∀ held ∈ self.lent.eraseIdx index, Stands self.heap.base held.1 :=
      fun held member => lent held (List.mem_of_mem_eraseIdx member)
    obtain ⟨block, aligned, isPointer⟩ := lent _ (List.mem_of_getElem? held)
    fun_cases self.heap.dealloc pointer layout with
    | case3 size isSize offset =>
      -- the address space is a whole number of granules, so wrapping keeps them
      have aligned : granularity ∣ offset := by
        simp only [offset, granularity] at aligned isPointer ⊢
        omega
      exact ⟨rfl, bump, give_whole free aligned (rounded_ok isSize).1, others⟩
    | _ => exact ⟨rfl, bump, free, others⟩

omit granular

/-- In every run from a described region, a pointer lent for a layout honours its alignment
exactly when the region's base does. -/
theorem pointer_is_aligned_iff_the_base_is
    (base bytes : Nat)
    (ops : List Op)
    (layout : Layout)
    {pointer : Nat}
    (lent : ((Runs.run step ⟨describe base bytes, []⟩ ops).heap.alloc layout).1 = some pointer) :
    layout.align ∣ pointer ↔ layout.align ∣ base := by
  have start : Granular base ⟨describe base bytes, []⟩ := ⟨rfl, ⟨2, rfl⟩, nofun, nofun⟩
  have granular := Runs.invariant_of_step (Granular base)
    (fun _ op granular => step_granular granular op) start ops
  obtain ⟨divides, block, aligned, rfl⟩ := (alloc_granular granular layout).2 pointer lent
  exact (Nat.dvd_add_iff_left (Nat.dvd_trans divides aligned)).symm

/-- Sixteen bytes at sixteen. -/
def wide : Layout := ⟨16, 16, 4, rfl⟩

theorem pointer_is_aligned_after_reuse :
    wide.align ∣ 0x1020 ↔ wide.align ∣ 0x1000 :=
  pointer_is_aligned_iff_the_base_is 0x1000 4096 [.alloc wide, .alloc wide, .dealloc 1] wide
    (by decide +kernel)

/-- A base aligned to eight is enough for the region, and not for the pointer. -/
theorem eight_aligned_base_misaligns :
    8 ∣ 0x1008 ∧ ((describe 0x1008 4096).alloc wide).1 = some 0x1028 ∧ ¬wide.align ∣ 0x1028 := by
  decide +kernel

end Lending

end FSystem.Ring
