import FSystem.Zone.Resolution

/-!
# The root a mount answers

A mount sorts the records of the root zones by generation, keeps one of each
generation, and answers the first from the top whose whole tree can be read.  It
never asks a second record of a generation, and which one it asks depends on the sort.
Its answer is the best one on the device, however it sorts, exactly when no unreadable
record shares the generation of the best one.
-/

namespace FSystem.Zone

open Abi Hash Blob List

variable {g : Geometry} {store : Store (ZoneMap g)} {records : List RootRecord}

section Generations

variable {key : RootRecord → Nat}
  (finer : ∀ {left right}, key left ≤ key right → older left right)
include finer

/-- Of sorted records one of each generation is kept, that with the least key. -/
theorem destutter_generations {first : RootRecord}
    (sorted : (first :: records).Pairwise (key · ≤ key ·)) :
    let kept := records.destutter' (fun left right => left.generation ≠ right.generation) first
    (∀ record ∈ first :: records, ∃ one ∈ kept, one.generation = record.generation) ∧
      ∀ one ∈ kept, ∀ other ∈ first :: records, other.generation = one.generation →
        key one ≤ key other := by
  induction records generalizing first with
  | nil => simp
  | cons second rest ih =>
    obtain ⟨before, later⟩ := pairwise_cons.mp sorted
    obtain ⟨least, others⟩ := forall_mem_cons.mp before
    rw [destutter'_cons]
    split
    next apart =>
      obtain ⟨covers, lowest⟩ := ih later
      refine ⟨forall_mem_cons.mpr ⟨⟨first, mem_cons_self, rfl⟩, fun record member => ?_⟩, ?_⟩
      · obtain ⟨one, isKept, same⟩ := covers record member
        exact ⟨one, mem_cons_of_mem _ isKept, same⟩
      · refine forall_mem_cons.mpr ⟨?_, fun one isKept => ?_⟩
        · exact forall_mem_cons.mpr ⟨fun _ => le_rfl, fun other member _ => before other member⟩
        refine forall_mem_cons.mpr ⟨fun same => ?_, lowest one isKept⟩
        -- a record behind one of another generation is of a higher one
        have above : key second ≤ key one := by
          rcases mem_cons.mp ((destutter'_sublist _ _ _).subset isKept) with rfl | behind
          · exact le_rfl
          · exact (pairwise_cons.mp later).1 one behind
        exact absurd (UInt64.le_antisymm (finer least) (same ▸ finer above)) apart
    next same =>
      rw [not_not] at same
      obtain ⟨covers, lowest⟩ := ih (sorted.sublist ((sublist_cons_self ..).cons_cons _))
      refine ⟨fun record member => ?_, fun one isKept other member sameAsOne => ?_⟩
      · rcases mem_cons.mp member with rfl | member
        · exact covers _ mem_cons_self
        rcases mem_cons.mp member with rfl | member
        · exact same ▸ covers first mem_cons_self
        · exact covers record (mem_cons_of_mem _ member)
      · rcases mem_cons.mp member with rfl | member
        · exact lowest one isKept _ mem_cons_self sameAsOne
        rcases mem_cons.mp member with rfl | member
        · exact (lowest one isKept first mem_cons_self (same.trans sameAsOne)).trans least
        · exact lowest one isKept other (mem_cons_of_mem _ member) sameAsOne

theorem dedupGenerations_spec (sorted : records.Pairwise (key · ≤ key ·)) :
    (∀ record ∈ records, ∃ one ∈ dedupGenerations records,
        one.generation = record.generation) ∧
      ∀ one ∈ dedupGenerations records, ∀ other ∈ records, other.generation = one.generation →
        key one ≤ key other := by
  cases records with
  | nil => exact ⟨nofun, nofun⟩
  | cons first rest => exact destutter_generations finer sorted

end Generations

section Answer

variable (store)

/-- A record that verifies stands in a written block of one of the root zones. -/
def Stands (record : RootRecord) : Prop :=
  ∃ zone ∈ [store.superblock.rootZoneA.toNat, store.superblock.rootZoneB.toNat],
    ∃ report block, store.device.device.report zone = .ok report ∧
      block ∈ writtenBlocks report ∧ recordAt store block = some record

/-- A record with a whole tree, of the highest generation with such a record, or none when there
is none. -/
def Best : Option RootRecord → Prop
  | none => ∀ record, Stands store record → ¬ Whole store record.root
  | some record =>
    Stands store record ∧ Whole store record.root ∧
      ∀ other, Stands store other → Whole store other.root → other.generation ≤ record.generation

/-- Above every record with a whole tree, or at it, some generation has none but such records. -/
def Unmasked : Prop :=
  ∀ record, Stands store record → Whole store record.root →
    ∃ higher, record.generation ≤ higher.generation ∧ Stands store higher ∧
      ∀ other, Stands store other → other.generation = higher.generation →
        Whole store other.root

variable {store}

theorem mem_rootRecords (ok : rootRecords store = .ok records) (record : RootRecord) :
    record ∈ records ↔ Stands store record := by
  have inZone {zone : Nat} {found : List RootRecord} (ok : recordsIn store zone = .ok found) :
      record ∈ found ↔ ∃ report block, store.device.device.report zone = .ok report ∧
        block ∈ writtenBlocks report ∧ recordAt store block = some record := by
    revert ok
    unfold recordsIn
    cases store.device.device.report zone with
    | error refusal => nofun
    | ok report =>
      rintro ⟨⟩
      simp
  revert ok
  fun_cases rootRecords store with
  | case3 first inFirst second inSecond =>
    rintro ⟨⟩
    simp [Stands, inZone inFirst, inZone inSecond]
  | _ => nofun

/-- The first root that resolves. -/
theorem firstResolving_eq (records : List RootRecord) :
    (firstResolving store records).1 = records.find? (resolves store ·.root) := by
  induction records with
  | nil => rfl
  | cons record rest ih =>
    rw [firstResolving, find?_cons]
    by_cases resolved : resolves store record.root = true
    · rw [if_pos resolved, resolved]
    · rw [if_neg resolved, Bool.eq_false_iff.mpr resolved]
      exact ih

/-- What the search from the top finds in sorted records. -/
theorem best_of_find (sorted : records.Pairwise older) {chosen : RootRecord}
    (found : records.reverse.find? (resolves store ·.root) = some chosen) :
    chosen ∈ records ∧ resolves store chosen.root = true ∧
      ∀ other ∈ records, resolves store other.root = true →
        other.generation ≤ chosen.generation := by
  obtain ⟨resolved, above, below, split, refused⟩ := find?_eq_some_iff_append.mp found
  have falling := List.pairwise_reverse.mpr sorted
  rw [split] at falling
  refine ⟨mem_reverse.mp (mem_of_find?_eq_some found), resolved, ?_⟩
  intro other member otherResolved
  rw [← mem_reverse, split, mem_append, mem_cons] at member
  rcases member with inAbove | same | inBelow
  · exact absurd otherResolved (by simpa using refused other inAbove)
  · exact UInt64.le_of_eq (congrArg _ same)
  · exact (List.pairwise_cons.mp (List.pairwise_append.mp falling).2.1).1 other inBelow

/-- The search answers the best root exactly when, for every record with a whole tree, it asks
one of that generation or above. -/
theorem best_iff_asked (sound : Store.Sound store) (sorted : records.Pairwise older)
    (stands : ∀ record ∈ records, Stands store record) :
    Best store (firstResolving store records.reverse).1 ↔
      ∀ record, Stands store record → Whole store record.root →
        ∃ asked ∈ records, record.generation ≤ asked.generation ∧ Whole store asked.root := by
  rw [firstResolving_eq]
  cases answer : records.reverse.find? (resolves store ·.root) with
  | none =>
    constructor
    · intro best record stands whole
      exact absurd whole (best record stands)
    · intro answered record stands whole
      obtain ⟨asked, member, -, readable⟩ := answered record stands whole
      exact find?_eq_none.mp answer asked (mem_reverse.mpr member)
        ((resolves_iff_whole sound _).mpr readable)
  | some chosen =>
    obtain ⟨member, resolved, highest⟩ := best_of_find sorted answer
    have chosenWhole := (resolves_iff_whole sound _).mp resolved
    constructor
    · rintro ⟨-, -, above⟩ record stands whole
      exact ⟨chosen, member, above record stands whole, chosenWhole⟩
    · intro answered
      refine ⟨stands chosen member, chosenWhole, fun other otherStands whole => ?_⟩
      obtain ⟨asked, isAsked, notBelow, readable⟩ := answered other otherStands whole
      exact UInt64.le_trans notBelow (highest asked isAsked
        ((resolves_iff_whole sound _).mpr readable))

section Asked

variable (ok : rootRecords store = .ok records) (sorting : Sorting)
include ok

theorem asked_stands {record : RootRecord}
    (member : record ∈ dedupGenerations (sorting.sort records)) : Stands store record :=
  (mem_rootRecords ok record).mp ((sorting.perm records).mem_iff.mp
    ((destutter_sublist _ _).subset member))

/-- Of each generation there is, one record is asked. -/
theorem exists_asked {record : RootRecord} (stands : Stands store record) :
    ∃ asked ∈ dedupGenerations (sorting.sort records), asked.generation = record.generation := by
  have sorted := (sorting.sorted records).imp UInt64.le_iff_toNat_le.mp
  refine (dedupGenerations_spec UInt64.le_iff_toNat_le.mpr sorted).1 record ?_
  exact (sorting.perm records).mem_iff.mpr ((mem_rootRecords ok record).mpr stands)

end Asked

variable (store)

/-- The place of a record, unresolved ones first in their generation. -/
def unresolvedKey (record : RootRecord) : Nat :=
  2 * record.generation.toNat + (resolves store record.root).toNat

theorem unresolvedKey_finer {left right : RootRecord}
    (before : unresolvedKey store left ≤ unresolvedKey store right) : older left right := by
  have := (resolves store right.root).toNat_le
  unfold unresolvedKey at before
  exact UInt64.le_iff_toNat_le.mpr (by omega)

/-- The sorting that puts unresolved records first in their generation. -/
def unresolvedFirst : Sorting := .keyed (unresolvedKey store) (unresolvedKey_finer store)

variable {store}

/-- A record that is asked first and resolves stands among such records only. -/
theorem resolves_of_unresolvedFirst
    {asked other : RootRecord}
    (isAsked : asked ∈ dedupGenerations ((unresolvedFirst store).sort records))
    (resolved : resolves store asked.root = true)
    (member : other ∈ records)
    (same : other.generation = asked.generation) : resolves store other.root = true := by
  have least := (dedupGenerations_spec (unresolvedKey_finer store)
    (pairwise_keyed (unresolvedKey store) records)).2 asked isAsked other
    (((unresolvedFirst store).perm records).mem_iff.mpr member) same
  rw [unresolvedKey, unresolvedKey, same, resolved] at least
  cases answer : resolves store other.root with
  | true => rfl
  | false => simp [answer] at least

/-- A mount that sorts another way finds the same store. -/
theorem mount_resorted
    {sorting : Sorting}
    {device : ZonedMemory g}
    {dataFrom : Nat}
    {found : Mounted}
    (ok : mount sorting device dataFrom = .ok (found, store))
    (other : Sorting) :
    ∃ answer, mount other device dataFrom = .ok (answer, store) := by
  revert ok
  fun_cases mount sorting device dataFrom with
  | case5 map remounted _ isMounted records candidates torn isTorn =>
    rintro ⟨⟩
    unfold rootCandidates at candidates
    split at candidates
    · cases candidates
    · rename_i all collected
      simp only [mount, remounted, isMounted, rootCandidates, collected, isTorn]
      exact ⟨_, rfl⟩
  | _ => nofun

/-- What a mount of any device answers, however it sorts the records, is the best root
there is exactly when no record without a whole tree is of the best one's generation. -/
theorem mount_answers_the_best_root_iff
    {sorting : Sorting}
    {device : ZonedMemory g}
    {dataFrom : Nat}
    {found : Mounted}
    {store : Store (ZoneMap g)}
    (ok : mount sorting device dataFrom = .ok (found, store)) :
    (∀ other answer, mount other device dataFrom = .ok (answer, store) →
        Best store answer.root) ↔ Unmasked store := by
  have sound := (mount_grounded ok).sound
  -- the answer of one sorting
  have answers {other : Sorting} {answer : Mounted}
      (mounted : mount other device dataFrom = .ok (answer, store)) :
      ∃ all, rootRecords store = .ok all ∧ (Best store answer.root ↔
        ∀ record, Stands store record → Whole store record.root →
          ∃ asked ∈ dedupGenerations (other.sort all),
            record.generation ≤ asked.generation ∧ Whole store asked.root) := by
    obtain ⟨-, records, torn, -, -, candidates, rfl⟩ := mount_steps mounted
    unfold rootCandidates at candidates
    split at candidates
    · cases candidates
    · rename_i all collected
      cases candidates
      exact ⟨all, collected, best_iff_asked sound
        ((other.sorted all).sublist (destutter_sublist _ _))
        fun _ => asked_stands collected other⟩
  constructor
  · intro best record stands whole
    obtain ⟨answer, mounted⟩ := mount_resorted ok (unresolvedFirst store)
    obtain ⟨all, collected, answered⟩ := answers mounted
    obtain ⟨asked, isAsked, notBelow, readable⟩ :=
      answered.mp (best _ answer mounted) record stands whole
    refine ⟨asked, notBelow, asked_stands collected _ isAsked, fun other stands same => ?_⟩
    exact (resolves_iff_whole sound _).mp (resolves_of_unresolvedFirst isAsked
      ((resolves_iff_whole sound _).mpr readable) ((mem_rootRecords collected _).mpr stands) same)
  · intro unmasked other answer mounted
    obtain ⟨all, collected, answered⟩ := answers mounted
    refine answered.mpr fun record stands whole => ?_
    obtain ⟨higher, notBelow, isHigher, wholes⟩ := unmasked record stands whole
    obtain ⟨asked, isAsked, same⟩ := exists_asked collected other isHigher
    exact ⟨asked, isAsked, same ▸ notBelow, wholes asked (asked_stands collected _ isAsked) same⟩

/-- The small device with an object of one chunk, and root records of some generations. -/
def rootedDevice (roots : List (UInt64 × Digest)) : ZonedMemory System.small :=
  let publish (store : Store (ZoneMap System.small)) (root : UInt64 × Digest) :=
    (appendRecord store 1
      (Publisher.sealRecord ⟨root.1, root.2, root.2, root.2, root.2, root.2⟩)).2
  (roots.foldl publish treeStore).device.device

/-- The newer of two roots names a blob that is not there. -/
def agedDevice : ZonedMemory System.small := rootedDevice [(1, treeRoot), (2, sha256 [2])]

/-- What a mount of that device finds. -/
def agedMount : Mounted × Store (ZoneMap System.small) :=
  (mount .stable agedDevice 3).toOption.get (by decide +kernel)

/-- The mount goes back to the older root. -/
theorem mount_answers_the_best_root_aged :
    agedMount.1.root.map (·.root) = some treeRoot ∧ agedMount.1.rootsRefusedUnresolved = 1 ∧
      ((∀ other answer, mount other agedDevice 3 = .ok (answer, agedMount.2) →
        Best agedMount.2 answer.root) ↔ Unmasked agedMount.2) := by
  have mounted : mount .stable agedDevice 3 = .ok (agedMount.1, agedMount.2) := by
    rw [Prod.mk.eta]
    exact Runs.eq_ok_get _
  exact ⟨by decide +kernel, by decide +kernel, mount_answers_the_best_root_iff mounted⟩

/-- Two records of one generation: a blob that is not there, then an object of one chunk. -/
def maskedDevice : ZonedMemory System.small := rootedDevice [(1, sha256 [2]), (1, treeRoot)]

/-- What a mount of that device finds. -/
def maskedMount : Mounted × Store (ZoneMap System.small) :=
  (mount .stable maskedDevice 3).toOption.get (by decide +kernel)

/-- The masked record is there and its tree is whole; the mount answers no root. -/
theorem mount_answers_none_of_a_masked_root :
    mount .stable maskedDevice 3 = .ok maskedMount ∧ maskedMount.1.root = none ∧
      ¬ Best maskedMount.2 maskedMount.1.root := by
  have mounted : mount .stable maskedDevice 3 = .ok maskedMount := Runs.eq_ok_get _
  have unanswered : maskedMount.1.root = none := by decide +kernel
  refine ⟨mounted, unanswered, ?_⟩
  rw [unanswered]
  intro best
  have second : ((rootRecords maskedMount.2).toOption.getD []).map (·.root) =
      [sha256 [2], treeRoot] := by decide +kernel
  cases collected : rootRecords maskedMount.2 with
  | error refusal =>
    rw [collected] at second
    cases second
  | ok all =>
    rw [collected] at second
    obtain ⟨record, member, root⟩ := List.mem_map.mp (second ▸ mem_cons_of_mem _ mem_cons_self)
    have resolved : resolves maskedMount.2 treeRoot = true := by decide +kernel
    refine best record ((mem_rootRecords collected record).mp member) ?_
    rw [root]
    exact (resolves_iff_whole (mount_grounded mounted).sound _).mp resolved

end Answer

end FSystem.Zone
