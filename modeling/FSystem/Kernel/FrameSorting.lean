import FSystem.Kernel.FrameSupply

/-!
# Sorting a free list

The merge sort relinks the blocks of a list and nothing else: it ends, with a list of the
same blocks, and it writes only the words that hold their links.  All the while the blocks
are on some lists, and only the heads of these change.
-/

namespace FSystem.Kernel.Mem

open List Function

/-- Blocks that have their links in different words. -/
structure Apart (blocks : List Nat) : Prop where
  distinct : blocks.Nodup
  aligned : ∀ block ∈ blocks, frameSize ∣ block

/-- Two memories differ at most in the links of some blocks. -/
def SameButLinks (blocks : List Nat) (memory after : Memory) : Prop :=
  ∀ word, (∀ block ∈ blocks, word ≠ wordAt block) → after word = memory word

/-- Some blocks are now in one list, and other words are as they were. -/
structure Relinked (window : Window) (memory : Memory) (blocks : List Nat) (after : Memory)
    (head : Nat) : Prop where
  linked : ∃ nodes, Linked (window.readLink after) head nodes ∧ nodes.Perm blocks
  same : SameButLinks blocks memory after

/-- Some blocks are on the lists of some heads, and other words are as they were. -/
structure Threaded (window : Window) (start : Memory) (blocks : List Nat) (memory : Memory)
    (heads : List Nat) : Prop where
  linked : ∃ nodes, LinkedAll (window.readLink memory) heads nodes ∧ nodes.Perm blocks
  same : SameButLinks blocks start memory

/-- The first list is being made, with its last link not set; the number bounds the other lists. -/
structure Growing (window : Window) (start : Memory) (blocks : List Nat) (steps : Nat)
    (memory : Memory) (head tail : Nat) (heads : List Nat) : Prop where
  linked : ∃ chain nodes, Linked (update (window.readLink memory) tail 0) head (chain ++ [tail]) ∧
    LinkedAll (window.readLink memory) heads nodes ∧ (chain ++ tail :: nodes).Perm blocks ∧
    nodes.length ≤ steps
  same : SameButLinks blocks start memory

variable {window : Window} {start memory : Memory} {blocks heads others : List Nat}
  {steps head tail next : Nat}

theorem SameButLinks.write (same : SameButLinks blocks start memory) (member : tail ∈ blocks) :
    SameButLinks blocks start (window.writeLink memory tail next) :=
  fun word apart => (writeLink_of_ne window memory (apart tail member) next).trans (same word apart)

/-- A link that is not of these blocks is as it was. -/
theorem SameButLinks.readLink
    {after : Memory}
    (same : SameButLinks blocks memory after)
    (aligned : ∀ block ∈ blocks, frameSize ∣ block)
    {node : Nat}
    (alignedNode : frameSize ∣ node)
    (outside : node ∉ blocks) : window.readLink after node = window.readLink memory node := by
  unfold Window.readLink
  rw [same]
  intro block member isLink
  rw [wordAt_injective alignedNode (aligned block member) isLink] at outside
  exact outside member

namespace Threaded

theorem perm (threaded : Threaded window start blocks memory heads) (same : heads.Perm others) :
    Threaded window start blocks memory others := by
  obtain ⟨nodes, linked, permNodes⟩ := threaded.linked
  obtain ⟨spread, linked, permSpread⟩ := linked.perm same
  exact ⟨⟨spread, linked, permSpread.trans permNodes⟩, threaded.same⟩

theorem zero_cons : Threaded window start blocks memory (0 :: heads) ↔
    Threaded window start blocks memory heads := by
  constructor
  · rintro ⟨linked, same⟩
    exact ⟨linked.imp fun _ => .imp_left LinkedAll.zero_cons.1, same⟩
  · rintro ⟨linked, same⟩
    exact ⟨linked.imp fun _ => .imp_left LinkedAll.zero_cons.2, same⟩

theorem relinked (threaded : Threaded window start blocks memory [head]) :
    Relinked window start blocks memory head := by
  obtain ⟨⟨_, _ | ⟨first, _ | _⟩, perm⟩, same⟩ := threaded
  rw [append_nil] at perm
  exact ⟨⟨_, first, perm⟩, same⟩

/-- The first block of a list begins another one. -/
theorem begin (threaded : Threaded window start blocks memory (head :: heads)) (nonzero : head ≠ 0)
    (enough : blocks.length ≤ steps) :
    Growing window start blocks steps memory head head (window.readLink memory head :: heads) := by
  obtain ⟨⟨_, _ | ⟨first, others⟩, perm⟩, same⟩ := threaded
  obtain ⟨rest, rfl, behind⟩ := first.eq_cons nonzero
  refine ⟨⟨[], _, .cons nonzero ?_, .cons behind others, perm, ?_⟩, same⟩
  · rw [update_self]
    exact .nil
  · have length := perm.length_eq
    rw [cons_append, length_cons] at length
    omega

end Threaded

namespace Growing

theorem perm (growing : Growing window start blocks steps memory head tail heads)
    (same : heads.Perm others) : Growing window start blocks steps memory head tail others := by
  obtain ⟨⟨chain, nodes, chained, linked, permNodes, few⟩, sameLinks⟩ := growing
  obtain ⟨spread, linked, permSpread⟩ := linked.perm same
  refine ⟨⟨chain, spread, chained, linked, ?_, permSpread.length_eq ▸ few⟩, sameLinks⟩
  exact ((permSpread.cons tail).append_left chain).trans permNodes

variable (apart : Apart blocks)

include apart

/-- The link of the last block is of no other block. -/
theorem kept
    (window : Window)
    (memory : Memory)
    (next : Nat)
    {chain nodes : List Nat}
    (perm : (chain ++ tail :: nodes).Perm blocks) :
    ∀ node ∈ chain ++ nodes, node ≠ tail ∧
      window.readLink (window.writeLink memory tail next) node = window.readLink memory node := by
  intro node member
  have moved : (chain ++ tail :: nodes).Perm (tail :: (chain ++ nodes)) := perm_middle
  have distinct := (moved.symm.trans perm).nodup_iff.2 apart.distinct
  have inside : ∀ {block}, block ∈ tail :: (chain ++ nodes) → frameSize ∣ block :=
    fun held => apart.aligned _ (perm.subset (moved.symm.subset held))
  have notTail : node ≠ tail := by
    rintro rfl
    exact (List.nodup_cons.1 distinct).1 member
  have write : SameButLinks [tail] memory (window.writeLink memory tail next) :=
    SameButLinks.write (fun _ _ => rfl) mem_cons_self
  refine ⟨notTail, write.readLink ?_ (inside (mem_cons_of_mem _ member)) ?_⟩
  · exact forall_mem_singleton.2 (inside mem_cons_self)
  · exact fun held => notTail (mem_singleton.1 held)

/-- A list is linked behind the one that is made. -/
theorem close (growing : Growing window start blocks steps memory head tail (next :: heads)) :
    Threaded window start blocks (window.writeLink memory tail next) (head :: heads) := by
  obtain ⟨⟨chain, _, chained, _ | @⟨_, nodes, _, rest, first, others⟩, perm, -⟩, same⟩ := growing
  have kept := kept apart window memory next perm
  refine ⟨⟨chain ++ tail :: nodes ++ rest, .cons (chained.extend ?_ ?_) (others.congr ?_), ?_⟩,
    same.write (perm.subset (mem_append_right _ mem_cons_self))⟩
  · exact fun node member => kept node (mem_append_left _ member)
  · rw [readLink_writeLink]
    exact first.congr fun node member => (kept node (by simp [member])).2
  · exact fun node member => (kept node (by simp [member])).2
  · rw [append_assoc]
    exact perm

/-- The first block of a list is linked behind the one that is made. -/
theorem grow (growing : Growing window start blocks (steps + 1) memory head tail (next :: heads))
    (nonzero : next ≠ 0) :
    Growing window start blocks steps (window.writeLink memory tail next) head next
      (window.readLink memory next :: heads) := by
  obtain ⟨⟨chain, _, chained, _ | ⟨first, others⟩, perm, few⟩, same⟩ := growing
  obtain ⟨rest, rfl, behind⟩ := first.eq_cons nonzero
  have kept := kept apart window memory next perm
  have distinct := perm.nodup_iff.2 apart.distinct
  refine ⟨⟨chain ++ [tail], _, ?_, .cons (behind.congr ?_) (others.congr ?_), by simpa using perm,
    ?_⟩, same.write (perm.subset (mem_append_right _ mem_cons_self))⟩
  · rw [append_assoc]
    refine chained.extend (fun node member => ?_) ?_
    · rw [update_of_ne]
      · exact kept node (mem_append_left _ member)
      · rintro rfl
        exact (List.nodup_append.1 distinct).2.2 node member node (by simp) rfl
    · rw [update_of_ne, readLink_writeLink]
      · refine .cons nonzero ?_
        rw [update_self]
        exact .nil
      · exact (kept next (by simp)).1.symm
  · exact fun node member => (kept node (by simp [member])).2
  · exact fun node member => (kept node (by simp [member])).2
  · simp only [cons_append, length_cons] at few
    omega

end Growing

section Merge

variable {bound : Nat} (apart : Apart blocks) (enough : blocks.length ≤ bound)

include apart

/-- The blocks of two lists are linked behind another block. -/
theorem mergeBehind_threaded {a b : Nat}
    (growing : Growing window start blocks steps memory head tail (a :: b :: heads)) :
    ∃ after, mergeBehind window steps memory a b tail = some after ∧
      Threaded window start blocks after (head :: heads) := by
  fun_induction mergeBehind window steps memory a b tail with
  | case1 memory a b tail both =>
    obtain ⟨⟨_, _, _, _ | ⟨first, _⟩, _, few⟩, _⟩ := growing
    obtain ⟨rest, rfl, -⟩ := first.eq_cons both.1
    simp at few
  | case2 memory a b tail both steps order ih => exact ih (growing.grow apart both.1)
  | case3 memory a b tail both steps order ih =>
    exact ih (((growing.perm (.swap ..)).grow apart both.2).perm (.swap ..))
  | case4 steps memory a b tail both =>
    have last : Growing window start blocks steps memory head tail
        ((if a ≠ 0 then a else b) :: 0 :: heads) := by
      split
      · next isLeft =>
        obtain rfl : b = 0 := by
          by_contra nonzero
          exact both ⟨isLeft, nonzero⟩
        exact growing
      · next isRight =>
        rw [not_not] at isRight
        subst isRight
        exact growing.perm (.swap ..)
    exact ⟨_, rfl, Threaded.zero_cons.1 ((last.close apart).perm (.swap ..))⟩

include enough

/-- Two lists are merged into one. -/
theorem mergeSorted_threaded {a b : Nat}
    (threaded : Threaded window start blocks memory (a :: b :: heads)) :
    ∃ after head, mergeSorted window bound memory a b = some (after, head) ∧
      Threaded window start blocks after (head :: heads) := by
  unfold mergeSorted
  split
  · next empty =>
    subst empty
    exact ⟨memory, b, rfl, Threaded.zero_cons.1 threaded⟩
  next leftSome =>
  have swapped := threaded.perm (.swap ..)
  split
  · next empty =>
    subst empty
    exact ⟨memory, a, rfl, Threaded.zero_cons.1 swapped⟩
  next rightSome =>
  split
  · obtain ⟨after, runs, merged⟩ :=
      mergeBehind_threaded apart (threaded.begin leftSome enough)
    exact ⟨after, a, by rw [runs]; rfl, merged⟩
  · obtain ⟨after, runs, merged⟩ :=
      mergeBehind_threaded apart ((swapped.begin rightSome enough).perm (.swap ..))
    exact ⟨after, b, by rw [runs]; rfl, merged⟩

/-- A list is carried into the slots; what is left to carry comes from full slots, now empty. -/
theorem sortCarry_threaded {slots : List Nat} {carry : Nat}
    (threaded : Threaded window start blocks memory (carry :: slots)) :
    ∃ after slots' carry',
      sortCarry window bound slots memory carry = some (after, slots', carry') ∧
      Threaded window start blocks after (carry' :: slots') ∧
      slots'.length = slots.length ∧ (carry' ≠ 0 → ∀ slot ∈ slots', slot = 0) := by
  induction slots generalizing memory carry with
  | nil => exact ⟨memory, [], carry, rfl, threaded, rfl, fun _ _ => (absurd · not_mem_nil)⟩
  | cons slot rest ih =>
    have swapped := threaded.perm (.swap ..)
    rw [sortCarry]
    split
    · next empty =>
      subst empty
      exact ⟨memory, carry :: rest, 0, rfl, swapped, rfl, fun nonzero => absurd rfl nonzero⟩
    · obtain ⟨middle, head, merges, merged⟩ := mergeSorted_threaded apart enough swapped
      obtain ⟨after, slots', carry', carries, carried, length', zeros⟩ := ih merged
      rw [merges]
      dsimp only
      rw [carries]
      exact ⟨after, 0 :: slots', carry', rfl, (Threaded.zero_cons.2 carried).perm (.swap ..),
        congrArg (· + 1) length', fun nonzero => forall_mem_cons.2 ⟨rfl, zeros nonzero⟩⟩

/-- The slots are merged into one list. -/
theorem sortOut_threaded {slots : List Nat}
    (threaded : Threaded window start blocks memory (head :: slots)) :
    ∃ after final, sortOut window bound slots memory head = some (after, final) ∧
      Relinked window start blocks after final := by
  induction slots generalizing memory head with
  | nil => exact ⟨memory, head, rfl, threaded.relinked⟩
  | cons slot rest ih =>
    obtain ⟨middle, merged, merges, threaded⟩ := mergeSorted_threaded apart enough threaded
    rw [sortOut, merges]
    exact ih threaded

end Merge

section Slots

variable {bound : Nat}

/-- A block is taken out of its list. -/
theorem Threaded.alone (threaded : Threaded window start blocks memory heads)
    (apart : Apart (head :: blocks)) (nonzero : head ≠ 0) :
    Threaded window start (head :: blocks) (window.writeLink memory head 0) (head :: heads) := by
  obtain ⟨⟨nodes, linked, perm⟩, same⟩ := threaded
  have kept := @Growing.kept _ head apart window memory 0 [] nodes (perm.cons head)
  refine ⟨⟨[head] ++ nodes, .cons (.cons nonzero ?_) (linked.congr fun node member =>
    (kept node member).2), perm.cons head⟩, SameButLinks.write ?_ mem_cons_self⟩
  · rw [readLink_writeLink]
    exact .nil
  · exact fun word apart => same word fun block member => apart block (mem_cons_of_mem _ member)

/-- What is left to carry goes to the first slot. -/
theorem Threaded.settle
    {carry : Nat}
    {slots : List Nat}
    (threaded : Threaded window start blocks memory (carry :: slots))
    (some_ : 0 < slots.length)
    (zeros : carry ≠ 0 → ∀ slot ∈ slots, slot = 0) :
    Threaded window start blocks memory (if carry ≠ 0 then slots.set 0 carry else slots) := by
  split
  · next left =>
    obtain _ | ⟨slot, rest⟩ := slots
    · exact absurd some_ (Nat.lt_irrefl _)
    · obtain rfl := zeros left slot mem_cons_self
      exact zero_cons.1 (threaded.perm (.swap ..))
  · next none =>
    rw [not_not] at none
    subst none
    exact zero_cons.1 threaded

variable {all : List Nat} (apart : Apart all) (enough : all.length ≤ bound)

include apart enough

/-- Every block of a list goes to the slots. -/
theorem sortInto_threaded
    {nodes pending : List Nat}
    (linked : Linked (window.readLink memory) head nodes)
    (threaded : Threaded window start blocks memory pending)
    (some_ : 0 < pending.length)
    (perm : (blocks ++ nodes).Perm all)
    (few : nodes.length ≤ steps) :
    ∃ after pending', sortInto window bound steps memory head pending = some (after, pending') ∧
      Threaded window start all after pending' := by
  induction nodes generalizing memory head pending blocks steps with
  | nil =>
    cases linked
    rw [append_nil] at perm
    obtain ⟨⟨nodes, linked, permNodes⟩, same⟩ := threaded
    refine ⟨memory, pending, by cases steps <;> rfl,
      ⟨nodes, linked, permNodes.trans perm⟩, ?_⟩
    exact fun word apart => same word fun block member => apart block (perm.subset member)
  | cons block rest ih =>
    obtain _ | ⟨nonzero, behind⟩ := linked
    obtain _ | steps := steps
    · cases few
    have moved : ((block :: blocks) ++ rest).Perm all := perm_middle.symm.trans perm
    have distinct := moved.nodup_iff.2 apart.distinct
    have part : Apart (block :: blocks) := by
      refine ⟨distinct.sublist (sublist_append_left _ _), fun other member => ?_⟩
      exact apart.aligned other (moved.subset (mem_append_left _ member))
    have room : (block :: blocks).length ≤ bound := by
      have total := moved.length_eq
      rw [length_append] at total
      omega
    obtain ⟨middle, slots, carry, carries, carried, length, zeros⟩ :=
      sortCarry_threaded part room (threaded.alone part nonzero)
    rw [← length] at some_
    have kept : Linked (window.readLink middle) (window.readLink memory block) rest := by
      have same : SameButLinks (block :: blocks) memory middle := fun word apart =>
        (carried.same word apart).trans (threaded.same word fun other member =>
          apart other (mem_cons_of_mem _ member)).symm
      refine behind.congr fun node member => same.readLink part.aligned
        (apart.aligned node (moved.subset (mem_append_right _ member))) fun held => ?_
      exact (List.nodup_append.1 distinct).2.2 node held node member rfl
    rw [sortInto, if_neg nonzero, carries]
    refine ih kept (carried.settle some_ zeros) ?_ moved (Nat.le_of_succ_le_succ few)
    split
    · rw [length_set]
      exact some_
    · exact some_

/-- A free list is sorted: it ends, with a list of the same blocks. -/
theorem sort_relinked (linked : Linked (window.readLink memory) head all) :
    ∃ after sorted, sort window bound memory head = some (after, sorted) ∧
      Relinked window memory all after sorted := by
  have spread : Threaded window memory [] memory (replicate 64 0) :=
    ⟨⟨[], LinkedAll.replicate_zero 64, .nil⟩, fun _ _ => rfl⟩
  obtain ⟨middle, pending, spreads, threaded⟩ :=
    sortInto_threaded apart enough linked spread (by decide) (.refl _) enough
  rw [sort, spreads]
  exact sortOut_threaded apart enough (Threaded.zero_cons.2 threaded)

end Slots

end FSystem.Kernel.Mem
