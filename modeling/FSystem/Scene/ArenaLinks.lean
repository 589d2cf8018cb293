import FSystem.Scene.Arena
import FSystem.Library.Hierarchy
import Mathlib.Data.Fintype.Card

/-!
# The links of the scene arena

What the loops that follow sibling links do to the lists of siblings: taking a slot out of
its list erases it there, and putting one in inserts it there.  Neither touches anything but
the links.
-/

namespace FSystem.Scene.Arena

open Function

variable {arena after : Arena} {ix other : SlotIx} {place before : Option SlotIx}

section Projections

/-- The sibling links. -/
def nexts (arena : Arena) : SlotIx → Option SlotIx := fun ix => (arena.slots ix).next

/-- The parent links. -/
def parents (arena : Arena) : SlotIx → Option SlotIx := fun ix => (arena.slots ix).parent

/-- The arena with every link between nodes taken away. -/
def stripped (arena : Arena) : Arena :=
  { arena with
    slots := fun ix => { arena.slots ix with parent := none, firstChild := none, next := none }
    roots := none }

theorem slots_modify_of_ne (change : Slot → Slot) (different : other ≠ ix) :
    (arena.modify ix change).slots other = arena.slots other :=
  update_of_ne different ..

theorem nexts_modify (change : Slot → Slot) :
    (arena.modify ix change).nexts = update arena.nexts ix (change (arena.slots ix)).next :=
  comp_update Slot.next ..

theorem parents_modify (change : Slot → Slot) :
    (arena.modify ix change).parents =
      update arena.parents ix (change (arena.slots ix)).parent :=
  comp_update Slot.parent ..

theorem head_modify (change : Slot → Slot) :
    (arena.modify ix change).head =
      update arena.head (some ix) (change (arena.slots ix)).firstChild := by
  funext key
  cases key with
  | none => simp [head, modify]
  | some one =>
    by_cases same : one = ix
    · subst same
      simp [head, modify]
    · simp [head, modify, same]

theorem stripped_modify {change : Slot → Slot}
    (kept : { change (arena.slots ix) with parent := none, firstChild := none, next := none } =
      ({ arena.slots ix with parent := none, firstChild := none, next := none } : Slot)) :
    (arena.modify ix change).stripped = arena.stripped := by
  rw [stripped, stripped, modify]
  congr 1
  funext one
  by_cases same : one = ix
  · subst same
    simpa using kept
  · simp [same]

section

variable (link : Option SlotIx)

include link

@[simp] theorem nexts_setNext :
    (arena.setNext ix link).nexts = update arena.nexts ix link :=
  nexts_modify _

@[simp] theorem parents_setNext : (arena.setNext ix link).parents = arena.parents :=
  (parents_modify _).trans (update_eq_self ..)

@[simp] theorem head_setNext : (arena.setNext ix link).head = arena.head :=
  (head_modify _).trans (update_eq_self (some ix) arena.head)

@[simp] theorem stripped_setNext : (arena.setNext ix link).stripped = arena.stripped :=
  stripped_modify rfl

theorem setHead_some :
    arena.setHead (some ix) link = arena.modify ix ({ · with firstChild := link }) :=
  rfl

@[simp] theorem nexts_setHead : (arena.setHead place link).nexts = arena.nexts := by
  cases place with
  | none => rfl
  | some one =>
    rw [setHead_some, nexts_modify]
    exact update_eq_self ..

@[simp] theorem parents_setHead : (arena.setHead place link).parents = arena.parents := by
  cases place with
  | none => rfl
  | some one =>
    rw [setHead_some, parents_modify]
    exact update_eq_self ..

@[simp] theorem head_setHead :
    (arena.setHead place link).head = update arena.head place link := by
  cases place with
  | none =>
    funext key
    cases key with
    | none | some one => simp [setHead, head]
  | some one => rw [setHead_some, head_modify]

@[simp] theorem stripped_setHead : (arena.setHead place link).stripped = arena.stripped := by
  cases place with
  | none => rfl
  | some one =>
    rw [setHead_some]
    exact stripped_modify rfl

end

end Projections

/-- The sibling links string these lists, which share no slot and have none twice. -/
structure Strung (arena : Arena) (lists : Option SlotIx → List SlotIx) : Prop where
  chains : ∀ place, Chain arena.nexts (arena.head place) (lists place)
  nodup : ∀ place, (lists place).Nodup
  apart : ∀ {ix place other}, ix ∈ lists place → ix ∈ lists other → place = other

/-- Only links differ: a slot hangs at a place, some lists are strung, other slots keep their
links. -/
structure Relinked (arena after : Arena) (ix : SlotIx) (place : Option SlotIx)
    (lists strings : Option SlotIx → List SlotIx) : Prop where
  stripped : after.stripped = arena.stripped
  parents : after.parents = update arena.parents ix place
  outside : ∀ other, other ≠ ix → (∀ key, other ∉ lists key) → after.nexts other = arena.nexts other
  strung : after.Strung strings

section Relinking

variable {lists : Option SlotIx → List SlotIx}

theorem Strung.length_le (strung : arena.Strung lists) (place : Option SlotIx) :
    (lists place).length ≤ nodesMax := by
  have bound := (strung.nodup place).length_le_card
  rwa [Fintype.card_fin] at bound

variable {cells : List SlotIx} {cursor : Option SlotIx} {fuel : Nat}

/-- The loop finds the sibling in front of a slot. -/
theorem unlinkAfter_eq
    (chain : Chain arena.nexts cursor cells)
    (enough : cells.length ≤ fuel)
    (member : ix ∈ cells)
    (notFirst : cursor ≠ some ix)
    (link : Option SlotIx) :
    ∃ previous ∈ cells, arena.nexts previous = some ix ∧
      arena.unlinkAfter ix link fuel cursor = some (arena.setNext previous link) := by
  induction chain generalizing fuel with
  | nil => exact absurd member List.not_mem_nil
  | @cons first rest tail ih =>
    cases fuel with
    | zero => cases enough
    | succ fuel =>
      by_cases found : arena.nexts first = some ix
      · exact ⟨first, List.mem_cons_self, found, if_pos found⟩
      have later : ix ∈ rest := by
        rcases List.mem_cons.mp member with same | later
        · exact absurd (congrArg some same.symm) notFirst
        · exact later
      obtain ⟨previous, inRest, linked, result⟩ := ih (Nat.le_of_succ_le_succ enough) later found
      refine ⟨previous, List.mem_cons_of_mem _ inRest, linked, ?_⟩
      exact (if_neg found).trans result

/-- Leading the link past a slot takes it out of its list only. -/
theorem Strung.leadPast (strung : arena.Strung lists)
    (member : ix ∈ lists (arena.slots ix).parent) :
    ∃ led, arena.leadPast ix = some led ∧ led.stripped = arena.stripped ∧
      led.parents = arena.parents ∧
      (∀ other, (∀ key, other ∉ lists key) → led.nexts other = arena.nexts other) ∧
      ∀ key, Chain led.nexts (led.head key) ((lists key).erase ix) := by
  have chain := strung.chains (arena.slots ix).parent
  have outside : ∀ key, key ≠ (arena.slots ix).parent → ix ∉ lists key :=
    fun key different inside => different (strung.apart inside member)
  by_cases first : arena.head (arena.slots ix).parent = some ix
  · refine ⟨_, if_pos first, stripped_setHead _, parents_setHead _, ?_, ?_⟩
    · intro other _
      rw [nexts_setHead]
    intro key
    rw [nexts_setHead, head_setHead]
    by_cases here : key = (arena.slots ix).parent
    · subst here
      rw [first] at chain
      obtain ⟨rest, isList, tail⟩ := chain.eq_cons
      rw [isList, List.erase_cons_head, update_self]
      exact tail
    · rw [update_of_ne here, List.erase_of_not_mem (outside key here)]
      exact strung.chains key
  · obtain ⟨previous, inList, linked, result⟩ :=
      unlinkAfter_eq chain (strung.length_le _) member first (arena.slots ix).next
    refine ⟨_, (if_neg first).trans result, stripped_setNext _, parents_setNext _, ?_, ?_⟩
    · intro other nowhere
      rw [nexts_setNext]
      refine update_of_ne ?_ _ _
      rintro rfl
      exact nowhere _ inList
    · intro key
      rw [nexts_setNext, head_setNext]
      by_cases here : key = (arena.slots ix).parent
      · subst here
        exact chain.erase (strung.nodup _) inList linked
      · rw [List.erase_of_not_mem (outside key here)]
        refine (strung.chains key).update_of_notMem ?_ _
        exact fun inside => here (strung.apart inside inList)

/-- Unlinking erases a slot from its list. -/
theorem Strung.unlink (strung : arena.Strung lists) (member : ix ∈ lists (arena.slots ix).parent) :
    ∃ after, arena.unlink ix = some after ∧ after.nexts ix = none ∧
      Relinked arena after ix none lists fun key => (lists key).erase ix := by
  obtain ⟨led, result, stripped, parents, outside, chains⟩ := strung.leadPast member
  refine ⟨led.modify ix ({ · with parent := none, next := none }), ?_, ?_, ?_, ?_, ?_, ?_⟩
  · rw [Arena.unlink, result]
    rfl
  · rw [nexts_modify, update_self]
  · exact (stripped_modify rfl).trans stripped
  · rw [parents_modify, parents]
  · intro other different nowhere
    rw [nexts_modify, update_of_ne different, outside other nowhere]
  refine ⟨fun key => ?_, fun key => (strung.nodup key).erase ix, ?_⟩
  · have headKept : (led.modify ix ({ · with parent := none, next := none })).head =
        led.head := by
      rw [head_modify]
      exact update_eq_self (some ix) led.head
    rw [nexts_modify, headKept]
    refine (chains key).update_of_notMem ?_ _
    exact (strung.nodup key).not_mem_erase
  · intro one key key' inFirst inSecond
    exact strung.apart (List.mem_of_mem_erase inFirst) (List.mem_of_mem_erase inSecond)

/-- The loop finds the sibling after which a slot goes. -/
theorem linkAfter_eq (chain : Chain arena.nexts cursor cells) (enough : cells.length ≤ fuel)
    (present : cursor ≠ none) (before : Option SlotIx) :
    ∃ previous ∈ cells,
      (arena.nexts previous = before ∨
        arena.nexts previous = none ∧ ∀ one ∈ cells.tail, some one ≠ before) ∧
      arena.linkAfter ix before fuel cursor =
        some ((arena.setNext ix (arena.nexts previous)).setNext previous (some ix)) := by
  induction chain generalizing fuel with
  | nil => exact absurd rfl present
  | @cons first rest tail ih =>
    cases fuel with
    | zero => cases enough
    | succ fuel =>
      by_cases found : arena.nexts first = before ∨ arena.nexts first = none
      · refine ⟨first, List.mem_cons_self, ?_, if_pos found⟩
        refine found.imp_right fun isLast => ⟨isLast, ?_⟩
        rw [isLast] at tail
        rw [tail.eq_nil]
        exact fun one member => absurd member List.not_mem_nil
      · obtain ⟨notBefore, notLast⟩ := not_or.mp found
        obtain ⟨previous, inRest, ends, result⟩ := ih (Nat.le_of_succ_le_succ enough) notLast
        refine ⟨previous, List.mem_cons_of_mem _ inRest, ?_, (if_neg found).trans result⟩
        refine ends.imp_right fun ⟨isLast, nowhere⟩ => ⟨isLast, ?_⟩
        obtain ⟨second, isSecond⟩ := Option.ne_none_iff_exists'.mp notLast
        rw [isSecond] at tail notBefore
        obtain ⟨later, rfl, -⟩ := tail.eq_cons
        intro one member
        rcases List.mem_cons.mp member with rfl | inLater
        · exact notBefore
        · exact nowhere one inLater

/-- The lists with a slot put in at a place. -/
def inserted (lists : Option SlotIx → List SlotIx) (ix : SlotIx)
    (place before : Option SlotIx) (key : Option SlotIx) : List SlotIx :=
  if key = place then insertBefore ix before (lists key) else lists key

/-- A list that lacks a slot takes another one at its end. -/
theorem insertBefore_of_forall_ne (absent : ∀ one ∈ cells, some one ≠ before) :
    insertBefore ix before cells = insertBefore ix none cells := by
  induction cells with
  | nil => rfl
  | cons first rest ih =>
    have notFirst : ¬before = some first := fun same => absent first List.mem_cons_self same.symm
    rw [insertBefore, insertBefore, if_neg notFirst,
      if_neg (Option.some_ne_none first).symm, ih]
    exact fun one member => absent one (List.mem_cons_of_mem _ member)

section

variable (strung : arena.Strung lists) (fresh : ∀ key, ix ∉ lists key)

include strung fresh

/-- Inserting a slot that is in no list keeps lists apart and without repetitions. -/
theorem Strung.inserted
    (chains : ∀ key,
      Chain after.nexts (after.head key) (Arena.inserted lists ix place before key)) :
    after.Strung (Arena.inserted lists ix place before) where
  chains := chains
  nodup key := by
    rw [Arena.inserted]
    by_cases here : key = place
    · rw [if_pos here]
      exact nodup_insertBefore (strung.nodup key) (fresh key)
    · rw [if_neg here]
      exact strung.nodup key
  apart := by
    have member : ∀ {one key}, one ∈ Arena.inserted lists ix place before key →
        one = ix ∧ key = place ∨ one ∈ lists key := by
      intro one key inside
      rw [Arena.inserted] at inside
      by_cases here : key = place
      · rw [if_pos here, mem_insertBefore] at inside
        exact inside.imp_left fun same => ⟨same, here⟩
      · rw [if_neg here] at inside
        exact .inr inside
    intro one key key' inFirst inSecond
    rcases member inFirst with ⟨rfl, atPlace⟩ | old
    · rcases member inSecond with ⟨-, alsoAtPlace⟩ | old
      · rw [atPlace, alsoAtPlace]
      · exact absurd old (fresh key')
    · rcases member inSecond with ⟨rfl, -⟩ | alsoOld
      · exact absurd old (fresh key)
      · exact strung.apart old alsoOld

/-- A slot put at the head of a list that is empty or begins where it is to go. -/
theorem Strung.linkFirst (first : arena.head place = none ∨ arena.head place = before) :
    ((arena.setNext ix (arena.head place)).setHead place (some ix)).Strung
      (Arena.inserted lists ix place before) := by
  refine strung.inserted fresh fun key => ?_
  have chain := (strung.chains key).update_of_notMem (fresh key) (arena.head place)
  rw [nexts_setHead, nexts_setNext, head_setHead, head_setNext, Arena.inserted]
  by_cases here : key = place
  · subst here
    have front : insertBefore ix before (lists key) = ix :: lists key := by
      have headed := (strung.chains key).head_eq
      cases isList : lists key with
      | nil => rfl
      | cons one rest =>
        rw [isList, List.head?_cons] at headed
        rw [headed] at first
        rw [insertBefore, if_pos (first.resolve_left (Option.some_ne_none one)).symm]
    rw [if_pos rfl, update_self, front]
    refine .cons ?_
    rw [update_self]
    exact chain
  · rw [if_neg here, update_of_ne here]
    exact chain

/-- A slot put behind the sibling the loop finds. -/
theorem Strung.linkAfter (notEmpty : arena.head place ≠ none)
    (notFirst : arena.head place ≠ before) :
    ∃ previous ∈ lists place,
      arena.linkAfter ix before nodesMax (arena.head place) =
        some ((arena.setNext ix (arena.nexts previous)).setNext previous (some ix)) ∧
      ((arena.setNext ix (arena.nexts previous)).setNext previous (some ix)).Strung
        (Arena.inserted lists ix place before) := by
  obtain ⟨previous, inList, ends, result⟩ :=
    linkAfter_eq (strung.chains place) (strung.length_le place) notEmpty before
  refine ⟨previous, inList, result, strung.inserted fresh fun key => ?_⟩
  rw [nexts_setNext, nexts_setNext, head_setNext, head_setNext, Arena.inserted]
  by_cases here : key = place
  · subst here
    have position : insertBefore ix before (lists key) =
        insertBefore ix (arena.nexts previous) (lists key) := by
      rcases ends with isBefore | ⟨isLast, nowhere⟩
      · rw [isBefore]
      rw [isLast]
      refine insertBefore_of_forall_ne ?_
      have headed := (strung.chains key).head_eq
      cases isList : lists key with
      | nil => exact fun one member => absurd member List.not_mem_nil
      | cons one rest =>
        rw [isList] at headed nowhere
        rw [headed] at notFirst
        intro other member
        rcases List.mem_cons.mp member with rfl | later
        · exact notFirst
        · exact nowhere other later
    rw [if_pos rfl, position]
    exact (strung.chains key).insert (strung.nodup key) (fresh key) inList rfl
  · rw [if_neg here]
    refine ((strung.chains key).update_of_notMem (fresh key) _).update_of_notMem ?_ _
    exact fun inside => here (strung.apart inside inList)

/-- Linking inserts a slot into the list of its place. -/
theorem Strung.link (place before : Option SlotIx) :
    ∃ after, arena.link ix place before = some after ∧
      Relinked arena after ix place lists (Arena.inserted lists ix place before) := by
  set hung := arena.modify ix ({ · with parent := place, next := none })
  have nextsHung : hung.nexts = update arena.nexts ix none := nexts_modify _
  have headHung : hung.head = arena.head :=
    (head_modify _).trans (update_eq_self (some ix) arena.head)
  have parentsHung : hung.parents = update arena.parents ix place := parents_modify _
  have strippedHung : hung.stripped = arena.stripped := stripped_modify rfl
  have strungHung : hung.Strung lists := by
    refine ⟨fun key => ?_, strung.nodup, strung.apart⟩
    rw [nextsHung, headHung]
    exact (strung.chains key).update_of_notMem (fresh key) none
  have unfolded : arena.link ix place before =
      if hung.head place = none ∨ hung.head place = before then
        some ((hung.setNext ix (hung.head place)).setHead place (some ix))
      else hung.linkAfter ix before nodesMax (hung.head place) := rfl
  by_cases first : hung.head place = none ∨ hung.head place = before
  · refine ⟨_, unfolded.trans (if_pos first), ?_, ?_, ?_, strungHung.linkFirst fresh first⟩
    · rw [stripped_setHead, stripped_setNext, strippedHung]
    · rw [parents_setHead, parents_setNext, parentsHung]
    · intro other different _
      rw [nexts_setHead, nexts_setNext, nextsHung, update_of_ne different, update_of_ne different]
  · obtain ⟨notEmpty, notFirst⟩ := not_or.mp first
    obtain ⟨previous, inList, result, linked⟩ := strungHung.linkAfter fresh notEmpty notFirst
    refine ⟨_, unfolded.trans ((if_neg first).trans result), ?_, ?_, ?_, linked⟩
    · rw [stripped_setNext, stripped_setNext, strippedHung]
    · rw [parents_setNext, parents_setNext, parentsHung]
    · intro other notIx nowhere
      have notPrevious : other ≠ previous := fun same => nowhere place (same ▸ inList)
      rw [nexts_setNext, nexts_setNext, nextsHung, update_of_ne notPrevious,
        update_of_ne notIx, update_of_ne notIx]

end

end Relinking

end FSystem.Scene.Arena
