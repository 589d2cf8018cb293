import FSystem.Kernel.FrameStock

/-!
# Taking, splitting and giving blocks

Splitting a block and cutting a range into blocks move frames between the lists and what
is loose, and cover every frame as often as before.
-/

namespace FSystem.Kernel.Mem

open Function Nat

theorem Order.eq_of_get {order other : Order} (same : order.get = other.get) : order = other := by
  cases order
  cases same
  rfl

variable {start : Order}

theorem Order.upward_some
    {α : Type}
    {attempt : Order → Option α}
    {steps : Nat}
    {found : α}
    (answers : Order.upward attempt steps start = some found) :
    ∃ order, start.get ≤ order.get ∧ attempt order = some found := by
  fun_induction Order.upward attempt steps start with
  | case1 here => exact ⟨here, le_refl _, answers⟩
  | case2 steps here found tried => exact ⟨here, le_refl _, tried.trans answers⟩
  | case3 => cases answers
  | case4 steps here tried up isUp ih =>
    have higher := (up_eq_some isUp).1
    obtain ⟨order, above, attempted⟩ := ih answers
    exact ⟨order, by omega, attempted⟩

theorem Order.downward_some
    {α : Type}
    {attempt : Order → Option α}
    {last : Order}
    {steps : Nat}
    {found : α}
    (answers : Order.downward attempt last steps start = some found) :
    ∃ order, attempt order = some found := by
  fun_induction Order.downward attempt last steps start with
  | case1 here => exact ⟨here, answers⟩
  | case2 steps here found tried => exact ⟨here, tried.trans answers⟩
  | case3 | case4 => cases answers
  | case5 steps here tried down isDown above ih => exact ih answers

section Halves

variable {order lower : Order} {block : Nat}

theorem add_bytes_div (aligned : frameSize ∣ block) (order : Order) :
    (block + order.bytes) / frameSize = block / frameSize + order.frames := by
  obtain ⟨-, rfl⟩ := aligned
  rw [order.add_bytes, frameSize_mul_div, frameSize_mul_div]

/-- A block covers what its halves do. -/
theorem blockCover_halves (aligned : frameSize ∣ block) (twice : order.frames = 2 * lower.frames) :
    blockCover order block = blockCover lower block + blockCover lower (block + lower.bytes) := by
  funext frame
  unfold blockCover
  rw [add_bytes_div aligned lower, twice, Nat.two_mul, ← add_assoc]
  exact (cover_split (le_add_right _ _) (le_add_right _ _) frame).symm

theorem Fitting.lowerHalf (fitting : Fitting order block) (twice : order.bytes = 2 * lower.bytes) :
    Fitting lower block := by
  have inside := fitting.inside
  refine ⟨fitting.nonzero, ?_, by omega⟩
  exact Nat.dvd_trans ⟨2, by rw [twice, Nat.mul_comm]⟩ fitting.aligned

theorem Fitting.upperHalf (fitting : Fitting order block) (twice : order.bytes = 2 * lower.bytes) :
    Fitting lower (block + lower.bytes) := by
  have inside := fitting.inside
  have nonzero := fitting.nonzero
  exact ⟨by omega, Nat.dvd_add (fitting.lowerHalf twice).aligned (Nat.dvd_refl _), by omega⟩

section

variable {memory : Memory} (clean : Clean memory order block)

include clean

theorem Clean.lowerHalf (twice : order.bytes = 2 * lower.bytes) : Clean memory lower block := by
  intro word first last
  apply clean word first
  unfold wordAt at last ⊢
  omega

theorem Clean.upperHalf (twice : order.bytes = 2 * lower.bytes) :
    Clean memory lower (block + lower.bytes) := by
  intro word first last
  apply clean word
  · unfold wordAt at first ⊢
    omega
  · rw [add_assoc, ← Nat.two_mul, ← twice] at last
    exact last

/-- Changing the first word of a block that begins behind it keeps a block clean. -/
theorem Clean.writeLink (window : Window) {other : Nat}
    (behind : wordAt (block + order.bytes) ≤ wordAt other) (next : Nat) :
    Clean (window.writeLink memory other next) order block := by
  intro word first last
  rw [writeLink_of_ne window memory (by omega)]
  exact clean word first last

end

end Halves

section Counts

variable (window : Window) (memory : Memory) (shard : Shard)

@[simp] theorem shelve_frames (order : Order) (clean : Bool) (block : Nat) (kind : Bool) :
    (shelve window memory shard order clean block).2.frames kind = shard.frames kind := by
  unfold shelve
  simp

theorem splitFrom_frames
    (clean : Bool)
    (block : Nat)
    (target : Order)
    (steps : Nat)
    (here : Order)
    (kind : Bool) :
    (splitFrom window clean block target steps here memory shard).2.frames kind =
      shard.frames kind := by
  fun_induction splitFrom window clean block target steps here memory shard with
  | case3 steps here memory shard below lower isDown shelved ih =>
    rw [ih]
    exact shelve_frames window memory shard _ clean _ kind
  | _ => rfl

end Counts

section Split

variable {window : Window} {shards : Cpu → Shard} {cpu : Cpu} {clean : Bool}
  {owned loose : Nat → Nat} {credit : Cpu → Bool → Nat} {block : Nat} {target : Order}
  {memory : Memory} {shard : Shard} {here : Order}

/-- The loop of a split: the upper half goes on a list, the lower one is split on. -/
theorem splitFrom_held
    {steps : Nat}
    (enough : here.get ≤ target.get + steps)
    (above : target.get ≤ here.get)
    (held : Held window shards cpu owned (loose + blockCover here block)
      (credit + charge cpu clean here.frames) (memory, shard))
    (fitting : Fitting here block)
    (isClean : clean = true → Clean memory here block) :
    let split := splitFrom window clean block target steps here memory shard
    Fitting target block ∧ (clean = true → Clean split.1 target block) ∧
      Held window shards cpu owned (loose + blockCover target block)
        (credit + charge cpu clean target.frames) split := by
  fun_induction splitFrom window clean block target steps here memory shard with
  | case1 here | case4 steps here memory shard below =>
    obtain rfl : here = target := Order.eq_of_get (by omega)
    exact ⟨fitting, isClean, held⟩
  | case2 steps here memory shard below isDown =>
    have zero := Order.down_eq_none isDown
    omega
  | case3 steps here memory shard below lower isDown shelved ih =>
    obtain ⟨next, twiceFrames, twiceBytes⟩ := Order.down_eq_some isDown
    rw [blockCover_halves fitting.frameSize_dvd twiceFrames, twiceFrames, Nat.two_mul,
      charge_add, ← add_assoc, ← add_assoc] at held
    have pushed := held.shelve (fitting.upperHalf twiceBytes)
      fun cleanKind => (isClean cleanKind).upperHalf twiceBytes
    apply ih (by omega) (by omega)
      (pushed.of_shard (fun kind => by cases kind <;> rfl) fun kind => by cases kind <;> rfl)
      (fitting.lowerHalf twiceBytes)
    intro cleanKind
    exact ((isClean cleanKind).lowerHalf twiceBytes).writeLink window (le_refl _) _

/-- A block is taken off a list and split down: the rest of it stays on the lists. -/
theorem popAt_held
    {next : Memory}
    {other : Shard}
    {order : Order}
    (above : order.get ≤ here.get)
    (held : Held window shards cpu owned loose 0 (memory, shard))
    (taken : popAt window memory shard order clean here = some (block, next, other)) :
    Fitting order block ∧ (clean = true → Clean next order block) ∧
      (∀ kind, other.frames kind + (if clean = kind then order.frames else 0) = shard.frames kind) ∧
      Held window shards cpu owned (loose + blockCover order block) 0 (next, other) := by
  unfold popAt at taken
  split at taken
  · cases taken
  next rest popped =>
    cases taken
    obtain ⟨fitting, isClean, off⟩ := held.listPop popped
    obtain ⟨fits, staysClean, split⟩ :=
      splitFrom_held (le_add_left _ _) above off fitting isClean
    have same : ∀ kind, (splitDown window memory (shard.setLists clean rest) clean block here
        order).2.frames kind = shard.frames kind := by
      intro kind
      rw [splitDown, splitFrom_frames, frames_setLists]
    have enough := split.credit_le clean
    rw [← splitDown, same] at enough
    simp only [Pi.add_apply, Pi.zero_apply, Nat.zero_add, charge, and_self, if_true] at enough
    refine ⟨fits, staysClean, ?_, ?_⟩
    · intro kind
      rw [frames_setFrames, same, same]
      split
      · next sameKind =>
          subst sameKind
          omega
      · rfl
    · apply split.setFrames
      · rw [← splitDown, same]
        simp [charge, enough]
      · intro core kind apart
        simp [charge, apart]

end Split

section Carve

variable {window : Window} {shards : Cpu → Shard} {cpu : Cpu} {owned loose : Nat → Nat}
  {memory : Memory} {shard : Shard}

/-- The order a range is carved in fits at its start. -/
theorem carveOrder_fits {start stop steps : Nat} {order : Order} (aligned : order.bytes ∣ start)
    (inside : start + order.bytes ≤ stop) :
    (carveOrder start stop steps order).bytes ∣ start ∧
      start + (carveOrder start stop steps order).bytes ≤ stop := by
  induction steps generalizing order with
  | zero => exact ⟨aligned, inside⟩
  | succ steps ih =>
    rw [carveOrder]
    cases order.up with
    | none => exact ⟨aligned, inside⟩
    | some up =>
      dsimp only
      split
      · next fits => exact ih ((up.aligns_iff start).1 fits.1) fits.2.2
      · exact ⟨aligned, inside⟩

/-- A range of whole frames above zero. -/
structure Whole (start stop : Nat) : Prop where
  nonzero : start ≠ 0
  startAligned : frameSize ∣ start
  stopAligned : frameSize ∣ stop
  ordered : start ≤ stop
  inside : stop ≤ wordLimit

theorem cover_eq_zero {low high : Nat} (beyond : high ≤ low) : cover low high = 0 := by
  funext frame
  exact if_neg (by omega)

/-- Carving a range: its first block goes on a list, the rest is carved on. -/
theorem carveFrom_held
    {first last steps : Nat}
    (nonzero : first ≠ 0)
    (inside : frameSize * last ≤ wordLimit)
    (enough : last - first ≤ steps)
    (held : Held window shards cpu owned (loose + cover first last) 0 (memory, shard)) :
    let carved := carveFrom window (frameSize * last) steps (frameSize * first) memory shard
    (∀ kind, carved.2.frames kind =
        shard.frames kind + (if false = kind then last - first else 0)) ∧
      Held window shards cpu owned loose 0 carved := by
  dsimp only
  induction steps generalizing first memory shard with
  | zero =>
    have beyond : last ≤ first := by omega
    rw [cover_eq_zero beyond, add_zero] at held
    refine ⟨fun kind => ?_, held⟩
    rw [carveFrom, Nat.sub_eq_zero_of_le beyond, ite_self, add_zero]
  | succ steps ih =>
    rw [carveFrom]
    by_cases room : first < last
    · rw [if_pos (Nat.mul_lt_mul_of_pos_left room (by decide))]
      have one : frameSize * first + Order.frame.bytes ≤ frameSize * last :=
        mul_le_mul_left frameSize room
      obtain ⟨aligned, fits⟩ := @carveOrder_fits (frameSize * first) (frameSize * last)
        Order.max Order.frame (Nat.dvd_mul_right _ _) one
      dsimp only
      generalize carveOrder (frameSize * first) (frameSize * last) Order.max Order.frame = order
        at aligned fits ⊢
      have positive := order.frames_pos
      have fitting : Fitting order (frameSize * first) :=
        ⟨Nat.mul_ne_zero (by decide) nonzero, aligned, by omega⟩
      have reaches : first + order.frames ≤ last := by
        rw [order.add_bytes] at fits
        exact Nat.le_of_mul_le_mul_left fits (by decide)
      have parts : cover (first + order.frames) last + blockCover order (frameSize * first) =
          cover first last := by
        funext frame
        rw [Pi.add_apply, blockCover, frameSize_mul_div, Nat.add_comm]
        exact cover_split (le_add_right _ _) reaches frame
      rw [← parts, ← add_assoc] at held
      obtain ⟨given, counts⟩ := held.give fitting false nofun
      generalize give window memory shard order false (frameSize * first) = core at given counts ⊢
      obtain ⟨frames, carved⟩ := ih
        (Nat.ne_of_gt (Nat.lt_of_lt_of_le positive (le_add_left _ _))) (by omega) given
      rw [order.add_bytes]
      refine ⟨fun kind => ?_, carved⟩
      rw [frames kind, counts kind]
      split
      · omega
      · rfl
    · have beyond : last ≤ first := Nat.le_of_not_lt room
      rw [if_neg (Nat.not_lt.2 (mul_le_mul_left _ beyond))]
      rw [cover_eq_zero beyond, add_zero] at held
      refine ⟨fun kind => ?_, held⟩
      rw [Nat.sub_eq_zero_of_le beyond, ite_self, add_zero]

/-- A loose range is carved onto the lists of a core. -/
theorem carve_held {start stop : Nat} (whole : Whole start stop)
    (held : Held window shards cpu owned
      (loose + cover (start / frameSize) (stop / frameSize)) 0 (memory, shard)) :
    (∀ kind, (carve window memory shard start stop).2.frames kind =
        shard.frames kind + (if false = kind then (stop - start) / frameSize else 0)) ∧
      Held window shards cpu owned loose 0 (carve window memory shard start stop) := by
  obtain ⟨nonzero, ⟨first, rfl⟩, ⟨last, rfl⟩, -, inside⟩ := whole
  rw [frameSize_mul_div, frameSize_mul_div] at held
  unfold carve
  rw [← Nat.mul_sub, frameSize_mul_div]
  apply carveFrom_held _ inside (le_refl _) held
  rintro rfl
  exact nonzero rfl

end Carve

end FSystem.Kernel.Mem
