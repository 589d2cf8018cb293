import FSystem.Abi.Errors
import Mathlib.Data.Prod.Lex
import Mathlib.Data.UInt
import Mathlib.Order.Lattice.Nat

/-!
# How far a deadline reaches

A request is served at the less urgent of the class it carries and the class the callee was
admitted for, with the later of the deadline it carries and the least the callee needs, and
only for a bounded number of rings from the component that originated it.
-/

namespace FSystem.Abi

/-- No deadline. -/
def noDeadline : UInt64 := 0

/-- How many rings a caller's urgency may cross. -/
def maxDepth : UInt8 := 4

namespace Class

def hard : UInt16 := 0
def soft : UInt16 := 1
def batch : UInt16 := 2
def idle : UInt16 := 3

end Class

/-- The most urgent class of a request whose urgency has run out of depth. -/
def beyondDepth : UInt16 := Class.batch

/-- The class ordinal in a class field. -/
def classOf (field : UInt16) : UInt16 := field &&& 0x00FF

/-- The depth in a class field. -/
def depthOf (field : UInt16) : UInt8 := (field >>> 8).toUInt8

/-- A class field: the depth in the high byte, the class in the low one. -/
def packClass (ordinal : UInt16) (depth : UInt8) : UInt16 :=
  (depth.toUInt16 <<< 8) ||| (ordinal &&& 0x00FF)

/-- Whether a number is one of the four class ordinals. -/
def isClass (ordinal : UInt16) : Bool :=
  ordinal == Class.hard || ordinal == Class.soft || ordinal == Class.batch || ordinal == Class.idle

/-- A class a component was admitted for. -/
structure Admitted where
  ordinal : UInt16
  valid : isClass ordinal = true
  deriving DecidableEq

/-- What an entry says, and what the channel says about who wrote it. -/
structure Caller where
  classField : UInt16
  deadline : UInt64
  admitted : Admitted
  deriving DecidableEq

/-- What a callee is admitted for, when the entry arrived, and the least it needs. -/
structure Callee where
  admitted : Admitted
  arrival : UInt64
  floor : UInt64
  deriving DecidableEq

namespace Shortfall

def classLost : UInt8 := 1
def late : UInt8 := 2
def depth : UInt8 := 4

end Shortfall

/-- What a request is served as inside the callee. -/
structure Inherited where
  ordinal : UInt16
  deadline : UInt64
  depth : UInt8
  shortfall : UInt8
  deriving DecidableEq

namespace Inherited

/-- The class field of an entry submitted on the request's behalf. -/
def classField (self : Inherited) : UInt16 := packClass self.ordinal self.depth

/-- The key a queue orders by: the class, then the deadline, with none last. -/
def rank (self : Inherited) : Nat ×ₗ Nat :=
  toLex (self.ordinal.toNat, if self.deadline = noDeadline then 2 ^ 64 - 1 else self.deadline.toNat)

end Inherited

/-- A sum that stops at the largest value. -/
def saturatingAdd (left right : UInt64) : UInt64 :=
  if 2 ^ 64 ≤ left.toNat + right.toNat then 2 ^ 64 - 1 else left + right

/-- The larger of two ordinals, which is the less urgent class. -/
def maxU16 (left right : UInt16) : UInt16 := if left > right then left else right

/-- What a request is served as when it crosses a ring, or a packed error and the field it names. -/
def inherit (caller : Caller) (callee : Callee) : Except (Int × UInt64) Inherited :=
  let detail := caller.classField.toUInt64
  let claimed := classOf caller.classField
  let depth := depthOf caller.classField
  if !isClass claimed || depth > maxDepth then
    .error (packError .argument Argument.badClass.code, detail)
  else if claimed < caller.admitted.ordinal then
    .error (packError .admission Admission.notHeld.code, detail)
  else
    let served := maxU16 claimed callee.admitted.ordinal
    let shortfall := if served ≠ claimed then Shortfall.classLost else 0
    let earliest := saturatingAdd callee.arrival callee.floor
    let isLate := caller.deadline ≠ noDeadline ∧ caller.deadline < earliest
    let deadline := if isLate then earliest else caller.deadline
    let shortfall := if isLate then shortfall ||| Shortfall.late else shortfall
    if depth < maxDepth then
      .ok ⟨served, deadline, depth + 1, shortfall⟩
    else
      let bounded := maxU16 served beyondDepth
      let shortfall := if bounded ≠ served ∨ deadline ≠ noDeadline then
        shortfall ||| Shortfall.depth else shortfall
      .ok ⟨bounded, noDeadline, maxDepth, shortfall &&& ~~~Shortfall.late⟩

/-- The entry a service submits for a request: what it inherited, under its own ceiling. -/
def Inherited.forward (self : Inherited) (admitted : Admitted) : Caller :=
  ⟨self.classField, self.deadline, admitted⟩

/-- What a request is served as at each component of a chain, each forwarding to the next. -/
def servedAlong : Caller → List Callee → Except (Int × UInt64) (List Inherited)
  | _, [] => .ok []
  | caller, callee :: rest =>
    match inherit caller callee with
    | .error refusal => .error refusal
    | .ok served =>
      match servedAlong (served.forward callee.admitted) rest with
      | .error refusal => .error refusal
      | .ok later => .ok (served :: later)

section Fields

/-- A class field of a valid class and a depth within the bound is read back. -/
theorem fields_packClass {ordinal : UInt16} {depth : UInt8} (valid : isClass ordinal = true)
    (shallow : depth ≤ maxDepth) :
    classOf (packClass ordinal depth) = ordinal ∧ depthOf (packClass ordinal depth) = depth := by
  have isDepth : depth ∈ ([0, 1, 2, 3, 4] : List UInt8) := by
    have few : ∀ value ≤ 4, UInt8.ofNat value ∈ ([0, 1, 2, 3, 4] : List UInt8) := by decide
    rw [← UInt8.ofNat_toNat (x := depth)]
    exact few depth.toNat (UInt8.le_iff_toNat_le.mp shallow)
  simp only [List.mem_cons, List.not_mem_nil, or_false] at isDepth
  simp only [isClass, Bool.or_eq_true, beq_iff_eq] at valid
  rcases valid with ((rfl | rfl) | rfl) | rfl <;>
    rcases isDepth with rfl | rfl | rfl | rfl | rfl <;> exact ⟨rfl, rfl⟩

/-- The less urgent of two classes is one of them, and no more urgent than either. -/
theorem maxU16_spec (left right : UInt16) :
    (maxU16 left right = left ∨ maxU16 left right = right) ∧
      left ≤ maxU16 left right ∧ right ≤ maxU16 left right := by
  rw [maxU16]
  by_cases above : left > right
  · rw [if_pos above]
    exact ⟨.inl rfl, UInt16.le_refl _, UInt16.le_of_lt above⟩
  · rw [if_neg above]
    exact ⟨.inr rfl, UInt16.not_lt.mp above, UInt16.le_refl _⟩

theorem isClass_maxU16 {left right : UInt16} (leftValid : isClass left = true)
    (rightValid : isClass right = true) : isClass (maxU16 left right) = true := by
  rcases (maxU16_spec left right).1 with same | same <;> rwa [same]

end Fields

/-- An entry of a conforming component: a class it is admitted for, a depth in bounds. -/
structure Caller.Honest (caller : Caller) : Prop where
  valid : isClass (classOf caller.classField) = true
  shallow : depthOf caller.classField ≤ maxDepth
  held : caller.admitted.ordinal ≤ classOf caller.classField

/-- The key a queue would order an entry by as it was written. -/
def Caller.rank (caller : Caller) : Nat ×ₗ Nat :=
  (Inherited.mk (classOf caller.classField) caller.deadline 0 0).rank

/-- What one crossing does to a request. -/
structure Crosses (caller : Caller) (callee : Callee) (served : Inherited) : Prop where
  valid : isClass served.ordinal = true
  claimed : classOf caller.classField ≤ served.ordinal
  ceiling : callee.admitted.ordinal ≤ served.ordinal
  rank : caller.rank ≤ served.rank
  depth : served.depth.toNat = min (depthOf caller.classField).toNat.succ maxDepth.toNat
  beyond : depthOf caller.classField = maxDepth →
    served.deadline = noDeadline ∧ Class.batch ≤ served.ordinal

/-- A less urgent class, or a later deadline in the same class, has no smaller rank. -/
theorem rank_le {earlier later : Inherited} (classes : earlier.ordinal ≤ later.ordinal)
    (deadlines : later.deadline = noDeadline ∨
      earlier.deadline ≠ noDeadline ∧ earlier.deadline ≤ later.deadline) :
    earlier.rank ≤ later.rank := by
  rw [Inherited.rank, Inherited.rank, Prod.Lex.toLex_le_toLex]
  rcases Nat.lt_or_eq_of_le (UInt16.le_iff_toNat_le.mp classes) with less | same
  · exact .inl less
  refine .inr ⟨same, ?_⟩
  have most := earlier.deadline.toNat_lt
  rcases deadlines with none | ⟨some, later⟩
  · rw [if_pos none]
    split <;> omega
  · have ordered := UInt64.le_iff_toNat_le.mp later
    rw [if_neg some]
    split <;> omega

/-- A deadline that the floor moves is later, and is still a deadline. -/
theorem floor_later {deadline earliest : UInt64} :
    let moved := if deadline ≠ noDeadline ∧ deadline < earliest then earliest else deadline
    moved = noDeadline ∨ deadline ≠ noDeadline ∧ deadline ≤ moved := by
  by_cases none : deadline = noDeadline
  · left
    change (if _ then _ else _) = _
    rw [if_neg (fun late => late.1 none)]
    exact none
  · refine .inr ⟨none, ?_⟩
    change _ ≤ (if _ then _ else _)
    split
    next late => exact UInt64.le_of_lt late.2
    next => exact UInt64.le_refl _

/-- An honest entry is not refused, and what it is served as is no more urgent. -/
theorem inherit_crosses {caller : Caller} (honest : caller.Honest) (callee : Callee) :
    ∃ served, inherit caller callee = .ok served ∧ Crosses caller callee served := by
  obtain ⟨valid, shallow, held⟩ := honest
  obtain ⟨-, ownClass, ceiling⟩ := maxU16_spec (classOf caller.classField) callee.admitted.ordinal
  have servedValid := isClass_maxU16 valid callee.admitted.valid
  have accepted : ¬((!isClass (classOf caller.classField) ||
      depthOf caller.classField > maxDepth) = true) := by
    rw [valid]
    simpa using shallow
  rw [inherit]
  rw [if_neg accepted, if_neg (UInt16.not_lt.mpr held)]
  by_cases within : depthOf caller.classField < maxDepth
  · rw [if_pos within]
    refine ⟨_, rfl, servedValid, ownClass, ceiling, rank_le ownClass floor_later, ?_, ?_⟩
    · have small : (depthOf caller.classField).toNat < maxDepth.toNat := within
      have four : maxDepth.toNat = 4 := rfl
      change ((depthOf caller.classField).toNat + 1) % 2 ^ 8 = _
      omega
    · intro full
      rw [full] at within
      exact absurd within (UInt8.lt_irrefl _)
  · have full : depthOf caller.classField = maxDepth :=
      UInt8.le_antisymm shallow (UInt8.not_lt.mp within)
    obtain ⟨-, bounded, batch⟩ := maxU16_spec
      (maxU16 (classOf caller.classField) callee.admitted.ordinal) beyondDepth
    rw [if_neg within]
    refine ⟨_, rfl, isClass_maxU16 servedValid rfl, UInt16.le_trans ownClass bounded,
      UInt16.le_trans ceiling bounded, rank_le (UInt16.le_trans ownClass bounded) (.inl rfl),
      ?_, fun _ => ⟨rfl, batch⟩⟩
    rw [full]
    rfl

/-- What is forwarded verbatim is an honest entry of the forwarder, at the rank and the depth
it was served at. -/
theorem Crosses.forward {caller : Caller} {callee : Callee} {served : Inherited}
    (crosses : Crosses caller callee served) :
    (served.forward callee.admitted).Honest ∧
      classOf (served.forward callee.admitted).classField = served.ordinal ∧
      depthOf (served.forward callee.admitted).classField = served.depth ∧
      (served.forward callee.admitted).rank = served.rank := by
  have shallow : served.depth ≤ maxDepth := by
    apply UInt8.le_iff_toNat_le.mpr
    rw [crosses.depth]
    exact Nat.min_le_right _ _
  obtain ⟨classRead, depthRead⟩ := fields_packClass crosses.valid shallow
  refine ⟨⟨?_, ?_, ?_⟩, classRead, depthRead, ?_⟩
  · exact (congrArg isClass classRead).trans crosses.valid
  · exact (Eq.symm depthRead) ▸ shallow
  · exact (Eq.symm classRead) ▸ crosses.ceiling
  · rw [Caller.rank]
    exact congrArg (fun ordinal => (Inherited.mk ordinal served.deadline 0 0).rank) classRead

/-- At every hop a chain is no more urgent than its first entry, every ceiling crossed and every
hop before; past the depth bound it is batch at most, with no deadline. -/
structure Decays (caller : Caller) (callees : List Callee) (hops : List Inherited) : Prop where
  length : hops.length = callees.length
  claimed : ∀ served ∈ hops, classOf caller.classField ≤ served.ordinal ∧ caller.rank ≤ served.rank
  ceilings : ∀ (hop crossed : Nat) (served : Inherited) (callee : Callee), crossed ≤ hop →
    hops[hop]? = some served → callees[crossed]? = some callee →
      callee.admitted.ordinal ≤ served.ordinal
  ordered : hops.Pairwise fun earlier later =>
    earlier.ordinal ≤ later.ordinal ∧ earlier.rank ≤ later.rank
  beyond : ∀ (hop : Nat) (served : Inherited), hops[hop]? = some served →
    maxDepth.toNat ≤ (depthOf caller.classField).toNat + hop →
      served.deadline = noDeadline ∧ Class.batch ≤ served.ordinal

/-- An honest entry decays along every chain. -/
theorem servedAlong_decays (caller : Caller) (honest : caller.Honest) (callees : List Callee) :
    ∃ hops, servedAlong caller callees = .ok hops ∧ Decays caller callees hops := by
  induction callees generalizing caller with
  | nil => exact ⟨[], rfl, rfl, by simp, by simp, .nil, by simp⟩
  | cons callee rest ih =>
    obtain ⟨served, serves, crosses⟩ := inherit_crosses honest callee
    obtain ⟨honestNext, classNext, depthNext, rankNext⟩ := crosses.forward
    obtain ⟨later, serveLater, decays⟩ := ih _ honestNext
    have claimedLater := decays.claimed
    rw [classNext, rankNext] at claimedLater
    refine ⟨served :: later, ?_, ?_, ?_, ?_, ?_, ?_⟩
    · rw [servedAlong, serves]
      dsimp only
      rw [serveLater]
    · rw [List.length_cons, List.length_cons, decays.length]
    · intro one member
      rcases List.mem_cons.mp member with isFirst | isLater
      · rw [isFirst]
        exact ⟨crosses.claimed, crosses.rank⟩
      · obtain ⟨classes, ranks⟩ := claimedLater one isLater
        exact ⟨UInt16.le_trans crosses.claimed classes, crosses.rank.trans ranks⟩
    · intro hop crossed one other before isHop isCrossed
      cases hop with
      | zero =>
        obtain rfl : crossed = 0 := by omega
        cases isHop
        cases isCrossed
        exact crosses.ceiling
      | succ hop =>
        cases crossed with
        | zero =>
          cases isCrossed
          have member : one ∈ later := List.mem_of_getElem? isHop
          exact UInt16.le_trans crosses.ceiling (claimedLater one member).1
        | succ crossed => exact decays.ceilings hop crossed one other (by omega) isHop isCrossed
    · exact List.pairwise_cons.mpr ⟨claimedLater, decays.ordered⟩
    · intro hop one isHop deep
      have small := UInt8.le_iff_toNat_le.mp honest.shallow
      cases hop with
      | zero =>
        cases isHop
        exact crosses.beyond (UInt8.toNat_inj.mp (by omega))
      | succ hop =>
        apply decays.beyond hop one isHop
        rw [depthNext, crosses.depth]
        omega

/-- Urgency only decays along a chain: whatever class it is admitted for and whatever deadline
the originator claims, no hop of any chain of components is refused, and each is served no
more urgently than the claim, than the hops before it and than the ceilings crossed; past
the depth bound the deadline is gone for good, and so is every class above batch. -/
theorem urgency_decays_along_chain
    (originator : Admitted)
    (claimed : UInt16)
    (deadline : UInt64)
    (callees : List Callee)
    (valid : isClass claimed = true)
    (held : originator.ordinal ≤ claimed) :
    ∃ hops, servedAlong ⟨packClass claimed 0, deadline, originator⟩ callees = .ok hops ∧
      hops.length = callees.length ∧
      (∀ served ∈ hops, originator.ordinal ≤ served.ordinal ∧ claimed ≤ served.ordinal ∧
        (Inherited.mk claimed deadline 0 0).rank ≤ served.rank) ∧
      (∀ (hop crossed : Nat) (served : Inherited) (callee : Callee), crossed ≤ hop → hops[hop]? =
        some served → callees[crossed]? = some callee → callee.admitted.ordinal ≤ served.ordinal) ∧
      (hops.Pairwise fun earlier later =>
        earlier.ordinal ≤ later.ordinal ∧ earlier.rank ≤ later.rank) ∧
      ∀ (hop : Nat) (served : Inherited), hops[hop]? = some served → maxDepth.toNat ≤ hop →
        served.deadline = noDeadline ∧ Class.batch ≤ served.ordinal := by
  obtain ⟨classRead, depthRead⟩ := fields_packClass valid (show (0 : UInt8) ≤ maxDepth by decide)
  obtain ⟨hops, serves, length, isClaimed, ceilings, ordered, beyond⟩ := servedAlong_decays
    ⟨packClass claimed 0, deadline, originator⟩
    ⟨by rw [classRead]; exact valid, by rw [depthRead]; decide, by rw [classRead]; exact held⟩
    callees
  refine ⟨hops, serves, length, ?_, ceilings, ordered, ?_⟩
  · intro served member
    obtain ⟨classes, ranks⟩ := isClaimed served member
    rw [Caller.rank] at ranks
    rw [classRead] at classes ranks
    exact ⟨UInt16.le_trans held classes, classes, ranks⟩
  · intro hop served isHop deep
    apply beyond hop served isHop
    exact deep.trans (Nat.le_add_left _ _)

/-- A hard-class claim through six soft-class components, past the depth bound. -/
theorem urgency_decays_along_chain_deep :
    ∃ hops last, servedAlong ⟨packClass Class.hard 0, 7, ⟨Class.hard, rfl⟩⟩
        (List.replicate 6 ⟨⟨Class.soft, rfl⟩, 3, 5⟩) = .ok hops ∧ hops[5]? = some last ∧
      last.deadline = noDeadline ∧ Class.batch ≤ last.ordinal := by
  obtain ⟨hops, serves, length, -, -, -, beyond⟩ := urgency_decays_along_chain
    ⟨Class.hard, rfl⟩ Class.hard 7 (List.replicate 6 ⟨⟨Class.soft, rfl⟩, 3, 5⟩) rfl (by decide)
  rw [List.length_replicate] at length
  have isLast : hops[5]? = some hops[5] := List.getElem?_eq_getElem _
  exact ⟨hops, hops[5], serves, isLast, beyond 5 _ isLast (by decide)⟩

end FSystem.Abi
