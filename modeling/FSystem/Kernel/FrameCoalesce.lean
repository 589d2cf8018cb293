import FSystem.Kernel.FrameSorting

/-!
# Coalescing

A list is taken apart, sorted, and put back with its buddies merged.  While it is apart its
blocks are loose, and what is written to one of them does not reach another.
-/

namespace FSystem.Kernel.Mem

open Function

/-- A list that is on no shelf. -/
structure Detached (window : Window) (memory : Memory) (order : Order) (clean : Bool)
    (head : Nat) (nodes : List Nat) : Prop where
  linked : Linked (window.readLink memory) head nodes
  fitting : ∀ block ∈ nodes, Fitting order block
  isClean : clean = true → ∀ block ∈ nodes, Clean memory order block

theorem blockCover_le_blocksCover
    {nodes : List Nat}
    {block : Nat}
    (member : block ∈ nodes)
    (order : Order)
    (frame : Nat) : blockCover order block frame ≤ blocksCover order nodes frame :=
  @le_sum_map Nat (fun block => blockCover order block frame) nodes block member

theorem blocksCover_cons (order : Order) (block : Nat) (rest : List Nat) :
    blocksCover order (block :: rest) = blockCover order block + blocksCover order rest := rfl

/-- Changes outside a detached list leave it as it is. -/
theorem Detached.remember
    {window : Window}
    {memory after : Memory}
    {order : Order}
    {clean : Bool}
    {head : Nat}
    {nodes : List Nat}
    (detached : Detached window memory order clean head nodes)
    (same : ∀ word, 0 < blocksCover order nodes (word / 512) → after word = memory word) :
    Detached window after order clean head nodes where
  linked := by
    apply detached.linked.congr
    intro node member
    have covers := blockCover_link (detached.fitting node member).frameSize_dvd order
    have counts := blockCover_le_blocksCover member order (wordAt node / 512)
    unfold Window.readLink
    rw [same _ (by omega)]
  fitting := detached.fitting
  isClean := by
    intro cleanKind block member word first last
    have covers := blockCover_word (detached.fitting block member).frameSize_dvd
      (Nat.le_of_lt first) last
    have counts := blockCover_le_blocksCover member order (word / 512)
    rw [same word (by omega)]
    exact detached.isClean cleanKind block member word first last

/-- A detached list beside a core's stock: its blocks are loose and still counted. -/
structure Beside (window : Window) (shards : Cpu → Shard) (cpu : Cpu) (owned loose : Nat → Nat)
    (credit : Cpu → Bool → Nat) (order : Order) (clean : Bool) (head : Nat) (nodes : List Nat)
    (core : Memory × Shard) : Prop where
  detached : Detached window core.1 order clean head nodes
  held : Held window shards cpu owned (loose + blocksCover order nodes)
    (credit + charge cpu clean (nodes.length * order.frames)) core

section Pairs

variable {window : Window} {shards : Cpu → Shard} {cpu : Cpu} {owned loose : Nat → Nat}
  {credit : Cpu → Bool → Nat} {memory : Memory} {shard : Shard} {order up : Order} {clean : Bool}
  {block : Nat} {rest : List Nat}

/-- Shelving a block writes to the block only. -/
theorem Detached.shelve
    {size : Order}
    {head : Nat}
    (detached : Detached window memory order clean head rest)
    (fitting : Fitting size block)
    (once : ∀ frame, blocksCover order rest frame + blockCover size block frame ≤ 1) :
    Detached window (shelve window memory shard size clean block).1 order clean head rest := by
  apply detached.remember
  intro word covered
  apply writeLink_of_ne
  rintro rfl
  have link := blockCover_link fitting.frameSize_dvd size
  have most := once (wordAt block / 512)
  omega

/-- Two buddies make a block of the order above. -/
theorem Fitting.pair (fitting : Fitting order block) (second : Fitting order (block + order.bytes))
    (lower : order.isLower block = true) (twice : up.bytes = 2 * order.bytes) :
    Fitting up block := by
  have inside := second.inside
  refine ⟨fitting.nonzero, ?_, by omega⟩
  rw [twice]
  exact Order.dvd_of_isLower fitting.aligned lower

/-- Two clean buddies are clean together once the second one's link is cleared. -/
theorem Clean.pair (first : Clean memory order block)
    (second : Clean memory order (block + order.bytes)) (twice : up.bytes = 2 * order.bytes) :
    Clean (Window.clearLink memory (block + order.bytes)) up block := by
  intro word begins ends
  rw [twice, Nat.two_mul, ← Nat.add_assoc] at ends
  unfold Window.clearLink
  by_cases isLink : word = wordAt (block + order.bytes)
  · rw [isLink, update_self]
  · rw [update_of_ne isLink]
    rcases Nat.lt_or_gt_of_ne isLink with before | behind
    · exact first word begins before
    · exact second word behind ends

theorem Detached.tail {head : Nat}
    (detached : Detached window memory order clean head (block :: rest)) :
    Detached window memory order clean (window.readLink memory block) rest where
  linked := by
    cases detached.linked with
    | cons nonzero tail => exact tail
  fitting := fun other member => detached.fitting other (List.mem_cons_of_mem _ member)
  isClean := fun cleanKind other member =>
    detached.isClean cleanKind other (List.mem_cons_of_mem _ member)

/-- A block of a detached list goes back on its list. -/
theorem shelve_single (beside : Beside window shards cpu owned loose credit order clean block
      (block :: rest) (memory, shard)) :
    Beside window shards cpu owned loose credit order clean (window.readLink memory block) rest
      (shelve window memory shard order clean block) := by
  obtain ⟨detached, held⟩ := beside
  have fitting := detached.fitting block List.mem_cons_self
  rw [blocksCover_cons, add_comm (blockCover order block), ← add_assoc, List.length_cons,
    Nat.add_mul, Nat.one_mul, charge_add, ← add_assoc] at held
  refine ⟨detached.tail.shelve fitting fun frame => ?_, held.shelve fitting fun cleanKind =>
    detached.isClean cleanKind block List.mem_cons_self⟩
  have most := held.loose_le_one frame
  simp only [Pi.add_apply] at most
  omega

/-- Two buddies of a detached list go on a list of the order above. -/
theorem shelve_pair
    (above : order.up = some up)
    (lower : order.isLower block = true)
    (beside : Beside window shards cpu owned loose credit order clean block
      (block :: (block + order.bytes) :: rest) (memory, shard))
    {cleared : Memory}
    (clears : cleared = if clean then Window.clearLink memory (block + order.bytes) else memory) :
    Beside window shards cpu owned loose credit order clean
      (window.readLink memory (block + order.bytes)) rest
      (shelve window cleared shard up clean block) := by
  obtain ⟨detached, held⟩ := beside
  obtain ⟨-, twiceFrames, twice⟩ := Order.up_eq_some above
  have first := detached.fitting block List.mem_cons_self
  have second := detached.fitting (block + order.bytes) (List.mem_cons_of_mem _ List.mem_cons_self)
  have fitting := first.pair second lower twice
  have halves := blockCover_halves first.frameSize_dvd twiceFrames
  have sameOutside : ∀ word, blockCover order (block + order.bytes) (word / 512) = 0 →
      cleared word = memory word := by
    intro word outside
    rw [clears]
    split
    · apply update_of_ne
      rintro rfl
      rw [blockCover_link second.frameSize_dvd order] at outside
      exact absurd outside (by decide)
    · rfl
  have frames : (rest.length + 1 + 1) * order.frames = rest.length * order.frames + up.frames := by
    rw [twiceFrames, Nat.add_assoc, Nat.add_mul]
  rw [blocksCover_cons, blocksCover_cons, ← add_assoc (blockCover order block), ← halves,
    add_comm (blockCover up block), ← add_assoc, List.length_cons, List.length_cons, frames,
    charge_add, ← add_assoc] at held
  have once : ∀ frame, blocksCover order rest frame + blockCover up block frame ≤ 1 := by
    intro frame
    have most := held.loose_le_one frame
    simp only [Pi.add_apply] at most
    omega
  constructor
  · refine Detached.shelve (detached.tail.tail.remember ?_) fitting once
    intro word covered
    apply sameOutside
    have most := once (word / 512)
    rw [halves, Pi.add_apply] at most
    omega
  · refine (held.remember ?_).shelve fitting ?_
    · intro word untouched
      apply sameOutside
      rw [halves] at untouched
      simp only [Pi.add_apply] at untouched
      omega
    · intro cleanKind
      rw [clears, if_pos cleanKind]
      exact Clean.pair (detached.isClean cleanKind _ List.mem_cons_self)
        (detached.isClean cleanKind _ (List.mem_cons_of_mem _ List.mem_cons_self)) twice

/-- Nothing of a detached list is left. -/
theorem Beside.settled {core : Memory × Shard}
    (beside : Beside window shards cpu owned loose credit order clean 0 [] core) :
    Held window shards cpu owned loose credit core := by
  have held := beside.held
  have nothing : blocksCover order [] = 0 := rfl
  have noCharge : charge cpu clean (([] : List Nat).length * order.frames) = 0 := by
    funext other kind
    simp [charge]
  rw [nothing, noCharge, add_zero, add_zero] at held
  exact held

/-- Merging the buddies of some lists returns, and the core is stocked as before. -/
def Merges (window : Window) (shards : Cpu → Shard) (cpu : Cpu) (owned loose : Nat → Nat)
    (credit : Cpu → Bool → Nat) (result : Option (Memory × Shard × Nat)) : Prop :=
  ∃ memory shard merged, result = some (memory, shard, merged) ∧
    Held window shards cpu owned loose credit (memory, shard)

/-- The blocks of a sorted list go back on the lists, buddies merged. -/
theorem pairUp_merges
    {budget steps merged here : Nat}
    {nodes : List Nat}
    (above : order.up = some up)
    (beside : Beside window shards cpu owned loose credit order clean here nodes (memory, shard))
    (enough : nodes.length ≤ steps) :
    Merges window shards cpu owned loose credit
      (pairUp window clean order up budget steps memory shard here merged) := by
  induction steps generalizing memory shard here nodes merged with
  | zero =>
    obtain rfl : nodes = [] := List.eq_nil_of_length_eq_zero (by omega)
    obtain rfl : here = 0 := by
      cases beside.detached.linked
      rfl
    exact ⟨memory, shard, merged, by rw [pairUp, if_pos rfl], beside.settled⟩
  | succ steps ih =>
    by_cases isEnd : here = 0
    · subst isEnd
      obtain rfl := beside.detached.linked.eq_nil
      exact ⟨memory, shard, merged, by rw [pairUp, if_pos rfl], beside.settled⟩
    obtain ⟨rest, rfl, tail⟩ := beside.detached.linked.eq_cons isEnd
    rw [List.length_cons] at enough
    rw [pairUp, if_neg isEnd]
    dsimp only
    by_cases pairs : window.readLink memory here ≠ 0 ∧ merged < budget ∧
        order.isLower here = true ∧ window.readLink memory here = here + order.bytes
    · rw [if_pos pairs]
      obtain ⟨nonzero, -, lower, isNext⟩ := pairs
      rw [isNext] at tail nonzero ⊢
      obtain ⟨others, rfl, -⟩ := tail.eq_cons nonzero
      obtain ⟨detached, held⟩ := shelve_pair above lower beside rfl
      rw [List.length_cons] at enough
      exact ih ⟨detached, held.of_shard (fun _ => rfl) fun _ => rfl⟩ (by omega)
    · rw [if_neg pairs]
      exact ih (shelve_single beside) (by omega)

end Pairs

section Whole

variable {window : Window} {shards : Cpu → Shard} {cpu : Cpu} {owned loose : Nat → Nat}
  {memory : Memory} {shard : Shard} {order up : Order} {clean : Bool} {nodes : List Nat}

section

variable (once : ∀ frame, blocksCover order nodes frame ≤ 1)
include once

theorem pairwise_of_once : nodes.Pairwise fun block other =>
    ∀ frame, blockCover order block frame + blockCover order other frame ≤ 1 :=
  @pairwise_of_sum_le_one Nat (fun frame block => blockCover order block frame) nodes once

/-- Blocks that cover no frame twice share no frame. -/
theorem eq_of_covers
    {block other frame : Nat}
    (member : block ∈ nodes)
    (later : other ∈ nodes)
    (covers : blockCover order block frame = 1)
    (coversToo : blockCover order other frame = 1) :
    block = other := by
  by_contra distinct
  have symmetric : Std.Symm fun block other =>
      ∀ frame, blockCover order block frame + blockCover order other frame ≤ 1 := by
    refine ⟨fun first second sums frame => ?_⟩
    rw [Nat.add_comm]
    exact sums frame
  have apart := (pairwise_of_once once).forall member later distinct frame
  omega

/-- Blocks that cover no frame twice are apart. -/
theorem apart_of_once (fitting : ∀ block ∈ nodes, Fitting order block) : Apart nodes where
  distinct := by
    apply (pairwise_of_once once).imp_of_mem
    rintro block other member - sums rfl
    have link := blockCover_link (fitting block member).frameSize_dvd order
    have most := sums (wordAt block / 512)
    omega
  aligned := fun block member => (fitting block member).frameSize_dvd

/-- Relinking a detached list keeps its blocks clean. -/
theorem Detached.relink
    {head sorted : Nat}
    {after : Memory}
    (detached : Detached window memory order clean head nodes)
    (same : SameButLinks nodes memory after)
    {blocks : List Nat}
    (linked : Linked (window.readLink after) sorted blocks)
    (sameBlocks : blocks.Perm nodes) :
    Detached window after order clean sorted blocks where
  linked := linked
  fitting := fun block member => detached.fitting block (sameBlocks.mem_iff.1 member)
  isClean := by
    intro cleanKind block member word first last
    have held := sameBlocks.mem_iff.1 member
    rw [same word]
    · exact detached.isClean cleanKind block held word first last
    rintro other later rfl
    have covers := blockCover_word (detached.fitting block held).frameSize_dvd
      (Nat.le_of_lt first) last
    have link := blockCover_link (detached.fitting other later).frameSize_dvd order
    rw [eq_of_covers once held later covers link] at first
    exact Nat.lt_irrefl _ first

end

theorem blocksCover_perm {blocks : List Nat} (same : blocks.Perm nodes) :
    blocksCover order blocks = blocksCover order nodes := by
  funext frame
  exact (same.map _).sum_eq

/-- The buddies on one list are merged. -/
theorem coalesceList_merges {budget merged : Nat} (above : order.up = some up)
    (held : Held window shards cpu owned loose 0 (memory, shard)) :
    Merges window shards cpu owned loose 0
      (coalesceList window budget order up clean memory shard merged) := by
  unfold coalesceList
  by_cases spent : budget ≤ merged
  · rw [if_pos spent]
    exact ⟨memory, shard, merged, rfl, held⟩
  rw [if_neg spent]
  dsimp only
  obtain ⟨lists, stocked⟩ := held
  generalize isNodes : lists (cpu, clean, order) = nodes
  have detached : Detached window memory order clean ((shard.lists clean).head order) nodes := by
    rw [← isNodes, ← Stocked.headOf_self shards shard]
    exact ⟨stocked.linked _, stocked.fitting _, stocked.clean (cpu, clean, order)⟩
  have off : Held window shards cpu owned (loose + blocksCover order nodes)
      (0 + charge cpu clean (nodes.length * order.frames))
      (memory, shard.setLists clean ((shard.lists clean).setHead order 0)) := by
    rw [← isNodes]
    refine ⟨update lists (cpu, clean, order) [], stocked.replace .nil ?_ ?_ ?_ ?_⟩
    · exact fun _ member => absurd member List.not_mem_nil
    · exact fun _ _ member => absurd member List.not_mem_nil
    · intro frame
      simp only [blocksCover, List.map_nil, List.sum_nil, Pi.add_apply]
      omega
    · intro other kind
      simp only [List.length_nil, Nat.zero_mul, Pi.add_apply, Pi.zero_apply, charge, ite_self]
      omega
  have once : ∀ frame, blocksCover order nodes frame ≤ 1 :=
    fun frame => (Nat.le_add_left _ _).trans (off.loose_le_one frame)
  have few : nodes.length ≤ shard.frames clean := by
    have counted := off.credit_le clean
    have atLeast := Nat.le_mul_of_pos_right nodes.length order.frames_pos
    simp only [frames_setLists, Pi.add_apply, Pi.zero_apply, charge, and_self, if_true] at counted
    omega
  obtain ⟨after, sorted, sorts, ⟨blocks, linked, sameBlocks⟩, same⟩ :=
    sort_relinked (apart_of_once once detached.fitting) few detached.linked
  rw [sorts]
  have remembered : Held window shards cpu owned _ _ (after, _) :=
      off.remember fun word untouched => by
    apply same
    rintro block member rfl
    have link := blockCover_link (detached.fitting block member).frameSize_dvd order
    have counts := blockCover_le_blocksCover member order (wordAt block / 512)
    rw [Pi.add_apply] at untouched
    omega
  rw [← blocksCover_perm sameBlocks, ← sameBlocks.length_eq] at remembered
  rw [← sameBlocks.length_eq] at few
  exact pairUp_merges above ⟨detached.relink once same linked sameBlocks, remembered⟩ few

/-- The buddies on the lists are merged from one order upward. -/
theorem coalesceFrom_merges {budget steps merged : Nat}
    (held : Held window shards cpu owned loose 0 (memory, shard)) :
    Merges window shards cpu owned loose 0
      (coalesceFrom window budget steps order memory shard merged) := by
  induction steps generalizing memory shard order merged with
  | zero => exact ⟨memory, shard, merged, rfl, held⟩
  | succ steps ih =>
    unfold coalesceFrom
    cases above : order.up with
    | none => exact ⟨memory, shard, merged, rfl, held⟩
    | some up =>
      obtain ⟨first, dirtyDone, count, dirtyRuns, dirtyHeld⟩ := coalesceList_merges above held
      obtain ⟨second, cleanDone, total, cleanRuns, cleanHeld⟩ := coalesceList_merges above dirtyHeld
      dsimp only
      rw [dirtyRuns]
      dsimp only
      rw [cleanRuns]
      exact ih cleanHeld

end Whole

end FSystem.Kernel.Mem
