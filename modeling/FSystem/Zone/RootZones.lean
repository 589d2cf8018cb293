import Mathlib.Data.List.Induction
import FSystem.Zone.Journal

/-!
# The two root zones

Root records are appended to the root zone that holds the newest of them.  When that zone
runs short its last records are carried to the other zone, which is emptied first.  The
zone that is emptied holds only records that are not needed any more, so the last records
can be read at every moment.
-/

namespace FSystem.Zone

open Abi Hash Blob List

variable {g : Geometry} {block other zone : Nat} {op : Op} {ops : List Op} {source : Bytes}
  {publisher : Publisher} {roots : Roots} {record : RootRecord}

/-- The root record that some bytes are read as, if they verify. -/
def decoded (bytes : Bytes) : Option RootRecord :=
  let raw := bytes.take RootRecord.bytes
  (RootRecord.fromBytes raw (sha256 (raw.take RootRecord.checkedBytes))).toOption

/-- A record with its own check is read back. -/
theorem decoded_sealRecord (numbered : record.generation ≠ 0) (width : Nat) :
    decoded (rootBlock width (Publisher.sealRecord record)) =
      some (Publisher.sealRecord record) := by
  generalize isSealed : Publisher.sealRecord record = written
  have isNumbered : written.generation ≠ 0 := isSealed ▸ numbered
  have checked : written.check = sha256 written.checked := isSealed ▸ rfl
  have whole : (rootBlock width written).take RootRecord.bytes = written.toBytes :=
    take_left' written.length_toBytes
  have check : written.toBytes.take RootRecord.checkedBytes = written.checked :=
    take_left' written.length_checked
  simp [decoded, whole, check, ← checked, written.fromBytes_toBytes isNumbered, Except.toOption]

/-- What was read is read again from a block it is written to. -/
theorem decoded_rootBlock {bytes : Bytes} (found : decoded bytes = some record)
    (wide : RootRecord.bytes ≤ bytes.length) (width : Nat) :
    decoded (rootBlock width record) = some record := by
  have same : record.toBytes = bytes.take RootRecord.bytes := by
    cases answer : RootRecord.fromBytes (bytes.take RootRecord.bytes) (sha256
        ((bytes.take RootRecord.bytes).take RootRecord.checkedBytes)) with
    | error refusal => simp [decoded, answer, Except.toOption] at found
    | ok other =>
      simp only [decoded, answer, Except.toOption, Option.some.injEq] at found
      exact RootRecord.toBytes_fromBytes (length_take_of_le wide) (found ▸ answer)
  have whole : (rootBlock width record).take RootRecord.bytes = bytes.take RootRecord.bytes :=
    same ▸ take_left' record.length_toBytes
  simp only [decoded, whole]
  exact found

namespace ZonedMemory

/-- The root records in the written blocks of a zone, in the order they stand in. -/
def records (self : ZonedMemory g) (zone : Nat) : List RootRecord :=
  (range' (g.startOf zone) (self.written zone)).filterMap fun block => decoded (self.contents block)

variable {self after : ZonedMemory g}

/-- The written blocks of a zone are in it. -/
theorem inside_zone (member : block ∈ range' (g.startOf zone) (self.written zone)) :
    block / g.zoneBlocks = zone := by
  obtain ⟨position, below, rfl⟩ := mem_range'.mp member
  rw [one_mul]
  exact g.startOf_add_div zone position (below.trans_le (self.written_le zone))

theorem readable_written (inside : zone < g.zoneCount)
    (member : block ∈ range' (g.startOf zone) (self.written zone)) : self.Readable block := by
  obtain ⟨position, below, rfl⟩ := mem_range'.mp member
  have room := below.trans_le (self.written_le zone)
  rw [one_mul, Readable, g.startOf_add_div zone position room, g.startOf_add_mod zone position room]
  exact ⟨inside, .inr below⟩

theorem records_congr (written : after.written zone = self.written zone)
    (contents : ∀ block, block / g.zoneBlocks = zone → after.contents block = self.contents block) :
    after.records zone = self.records zone := by
  rw [records, records, written]
  refine filterMap_congr fun block member => ?_
  rw [contents block (inside_zone member)]

/-- An append adds its record. -/
theorem records_append (ok : self.append other source = .ok (block, after)) :
    after.records zone =
      if other = zone then self.records zone ++ (decoded source).toList else self.records zone := by
  have placed := (play_append ok).2
  obtain ⟨-, -, -, -, -, place, contents, written, -, -⟩ := append_ok ok
  split
  next same =>
    subst same
    rw [records, (congrFun written other).trans (if_pos rfl), range'_1_concat, filterMap_append,
      ← place]
    congr 1
    · refine filterMap_congr fun earlier member => ?_
      have below := (mem_range'_1.mp member).2
      rw [(congrFun contents earlier).trans (if_neg (by omega))]
    · simp only [filterMap_cons, contents, if_true, filterMap_nil]
      cases decoded source <;> rfl
  next apart =>
    refine records_congr ?_ fun held inside => ?_
    · exact (congrFun written zone).trans (if_neg (Ne.symm apart))
    · refine (congrFun contents held).trans (if_neg ?_)
      rintro rfl
      exact apart (placed.symm.trans inside)

/-- A reset empties its zone. -/
theorem records_reset (positive : 0 < g.zoneBlocks) (ok : self.reset other = .ok after) :
    after.records zone = if other = zone then [] else self.records zone := by
  obtain ⟨contents, written, -, -⟩ := reset_ok ok
  split
  next same =>
    rw [records, (congrFun written zone).trans (if_pos same.symm)]
    rfl
  next apart =>
    refine records_congr ?_ fun held inside => ?_
    · exact (congrFun written zone).trans (if_neg (Ne.symm apart))
    · refine (congrFun contents held).trans (if_neg ?_)
      rw [g.inZone_eq_true other held positive, inside]
      exact Ne.symm apart

/-- Only a reset loses a record, and only the zone an operation is on changes. -/
theorem records_play (positive : 0 < g.zoneBlocks) (sequential : zone ≠ 0) (op : Op) :
    (op ≠ .reset zone → self.records zone <+: (self.play op).records zone) ∧
      (op.zone g ≠ some zone → (self.play op).records zone = self.records zone) := by
  fun_cases play self op with
  | case1 _ _ _ ok =>
    obtain ⟨conventional, -, contents, written, -, -⟩ := write_ok ok
    have same : records _ zone = self.records zone := records_congr (congrFun written zone) ?_
    · exact ⟨fun _ => same ▸ prefix_rfl, fun _ => same⟩
    rintro held rfl
    refine (congrFun contents held).trans (if_neg ?_)
    rintro rfl
    exact sequential conventional
  | case3 _ _ _ _ ok =>
    rw [records_append ok]
    split
    next same => exact ⟨fun _ => prefix_append .., fun apart => absurd (congrArg some same) apart⟩
    next => exact ⟨fun _ => prefix_rfl, fun _ => rfl⟩
  | case5 _ _ ok =>
    obtain ⟨contents, written, -⟩ := finish_ok ok
    have same : records _ zone = self.records zone :=
      records_congr (congrFun written zone) fun held _ => congrFun contents held
    exact ⟨fun _ => same ▸ prefix_rfl, fun _ => same⟩
  | case7 _ _ ok =>
    rw [records_reset positive ok]
    split
    next same => exact ⟨fun keeps => absurd (congrArg Op.reset same) keeps,
      fun apart => absurd (congrArg some same) apart⟩
    next => exact ⟨fun _ => prefix_rfl, fun _ => rfl⟩
  | _ => exact ⟨fun _ => prefix_rfl, fun _ => rfl⟩

theorem records_replay_prefix (positive : 0 < g.zoneBlocks) (sequential : zone ≠ 0)
    (keeps : ∀ op ∈ ops, op ≠ .reset zone) :
    self.records zone <+: (self.replay ops).records zone := by
  induction ops generalizing self with
  | nil => exact prefix_rfl
  | cons op rest ih =>
    exact ((records_play positive sequential op).1 (keeps op mem_cons_self)).trans
      (ih fun later member => keeps later (mem_cons_of_mem _ member))

theorem records_replay (positive : 0 < g.zoneBlocks) (sequential : zone ≠ 0)
    (apart : ∀ op ∈ ops, op.zone g ≠ some zone) :
    (self.replay ops).records zone = self.records zone := by
  induction ops generalizing self with
  | nil => rfl
  | cons op rest ih =>
    exact (ih fun later member => apart later (mem_cons_of_mem _ member)).trans
      ((records_play positive sequential op).2 (apart op mem_cons_self))

end ZonedMemory

open ZonedMemory

/-- A store whose blocks are the device's and have room for a root record. -/
structure Fits (store : Store (ZoneMap g)) : Prop where
  sized : store.blockBytes = g.blockBytes
  roomy : RootRecord.bytes ≤ g.blockBytes

theorem Fits.of_superblock {before after : Store (ZoneMap g)} (fits : Fits before)
    (superblock : after.superblock = before.superblock) : Fits after := by
  refine ⟨?_, fits.roomy⟩
  rw [Store.blockBytes, superblock]
  exact fits.sized

/-- The highest generation among some records. -/
def top (records : List RootRecord) : Nat :=
  records.foldl (fun highest record => max highest record.generation.toNat) 0

theorem top_concat (records : List RootRecord) (record : RootRecord) :
    top (records ++ [record]) = max (top records) record.generation.toNat := by
  simp [top]

/-- Records below a bound have their highest generation below it. -/
theorem top_lt {records : List RootRecord} {bound : Nat} (positive : 0 < bound)
    (below : ∀ record ∈ records, record.generation.toNat < bound) : top records < bound := by
  induction records using List.reverseRecOn with
  | nil => exact positive
  | append_singleton rest record ih =>
    rw [top_concat]
    refine Nat.max_lt.2 ⟨ih fun earlier member => below earlier (mem_append_left _ member), ?_⟩
    exact below record mem_concat_self

/-- The last records of a list, as many as are carried. -/
def lastRecords (records : List RootRecord) : List RootRecord :=
  records.drop (records.length - rootCarry)

/-- An end of a list that is short enough is an end of its last records. -/
theorem lastRecords_suffix {records other : List RootRecord}
    (ends : lastRecords records <:+ other) :
    lastRecords records <:+ lastRecords other := by
  refine suffix_of_suffix_length_le ends (drop_suffix _ _) ?_
  have shorter := ends.length_le
  simp only [lastRecords, length_drop] at shorter ⊢
  omega

/-- The last records after one more are among those before it and that one. -/
theorem lastRecords_concat {records other : List RootRecord} (ends : lastRecords records <:+ other)
    (record : RootRecord) : lastRecords (records ++ [record]) <:+ other ++ [record] := by
  have fewer : records.drop (records.length + 1 - rootCarry) <:+ lastRecords records := by
    refine suffix_of_suffix_length_le (drop_suffix _ _) (drop_suffix _ _) ?_
    simp only [lastRecords, length_drop]
    omega
  obtain ⟨before, same⟩ := fewer.trans ends
  refine ⟨before, ?_⟩
  rw [lastRecords, length_append, length_singleton,
    drop_append_of_le_length (by unfold rootCarry; omega), ← append_assoc, same]

section Reading

variable {store : Store (ZoneMap g)}

theorem recordAt_eq (fits : Fits store) (block : Nat) :
    recordAt store block = if store.device.device.Readable block then
      decoded (store.device.device.contents block) else none := by
  unfold recordAt decoded
  rw [fits.sized, if_neg (Nat.not_lt.2 fits.roomy), read_eq]
  by_cases readable : store.device.device.Readable block
  · simp only [readable, if_true]
    cases RootRecord.fromBytes _ _ <;> rfl
  · simp [readable]

/-- A record of a zone stands in a block that can be read. -/
theorem exists_recordAt (fits : Fits store) (inside : zone < g.zoneCount)
    (member : record ∈ store.device.device.records zone) :
    ∃ block, block / g.zoneBlocks = zone ∧ recordAt store block = some record := by
  obtain ⟨block, written, found⟩ := mem_filterMap.mp member
  refine ⟨block, inside_zone written, ?_⟩
  rw [recordAt_eq fits, if_pos (readable_written inside written), found]

variable (fits : Fits store) (sequential : zone ≠ 0) (inside : zone < g.zoneCount)

include fits sequential inside

/-- What is read in a zone, whatever its report says. -/
theorem filterMap_writtenBlocks {report : Report}
    (reported : store.device.device.report zone = .ok report) :
    (writtenBlocks report).filterMap (recordAt store) = store.device.device.records zone := by
  obtain ⟨_, same, starts, ends⟩ := store.device.device.report_eq inside
  cases same.symm.trans reported
  have bound := store.device.device.filled_le zone
  have written : store.device.device.written zone ≤ store.device.device.filled zone := by
    unfold filled
    split
    · exact store.device.device.written_le zone
    · exact Nat.le_refl _
  obtain ⟨more, split⟩ := Nat.exists_eq_add_of_le written
  rw [writtenBlocks, starts, ends, Nat.add_sub_cancel_left, split, ← range'_append_1,
    filterMap_append, records]
  -- a sealed zone ends with blocks that were never written
  have unread : (range' (g.startOf zone + store.device.device.written zone) more).filterMap
      (recordAt store) = [] := by
    refine filterMap_eq_nil_iff.mpr fun block member => ?_
    obtain ⟨position, below, rfl⟩ := mem_range'.mp member
    have room : store.device.device.written zone + position < g.zoneBlocks := by omega
    rw [recordAt_eq fits, if_neg]
    rw [one_mul, Nat.add_assoc, Readable, g.startOf_add_div zone _ room,
      g.startOf_add_mod zone _ room]
    omega
  rw [unread, append_nil]
  exact filterMap_congr fun block member => by
    rw [recordAt_eq fits, if_pos (readable_written inside member)]

theorem highestIn_eq : highestIn store zone = .ok (top (store.device.device.records zone)) := by
  obtain ⟨report, reported, -⟩ := store.device.device.report_eq inside
  unfold highestIn recordsIn
  rw [reported]
  dsimp only
  rw [filterMap_writtenBlocks fits sequential inside reported]
  rfl

theorem carried_eq {report : Report} (reported : store.device.device.report zone = .ok report) :
    (carried store report).reverse = lastRecords (store.device.device.records zone) := by
  unfold carried
  rw [filterMap_reverse, filterMap_writtenBlocks fits sequential inside reported, take_reverse,
    reverse_reverse, lastRecords]

end Reading

section Appending

variable {store after : Store (ZoneMap g)} {zone : Nat}

section

variable {record : RootRecord} (ok : appendRecord store zone record = (.ok (), after))

include ok

/-- A root record that was appended went to the device. -/
theorem appendRecord_device :
    ∃ block, store.device.device.append zone (rootBlock store.blockBytes record) =
      .ok (block, after.device.device) := by
  unfold appendRecord ZoneMap.appendReserved ZoneMap.deviceAppend at ok
  by_cases managed : zone = 0 ∨ store.device.dataFrom ≤ zone
  · rw [if_pos managed] at ok
    cases congrArg Prod.fst ok
  rw [if_neg managed] at ok
  cases appended : store.device.device.append zone (rootBlock store.blockBytes record) with
  | error refusal =>
    rw [appended] at ok
    cases congrArg Prod.fst ok
  | ok result =>
    obtain ⟨block, device⟩ := result
    rw [appended] at ok
    cases ok
    exact ⟨block, rfl⟩

theorem appendRecord_superblock : after.superblock = store.superblock := by
  have aside := appendRecord_aside store zone record
  rw [ok] at aside
  exact aside.superblock

end

/-- Operations that empty no zone, a given one apart. -/
def Empties (only : Nat) (op : Op) : Prop := ∀ zone, op = .reset zone → zone = only

theorem empties_append (only block : Nat) (bytes : Bytes) : Empties only (.append block bytes) :=
  fun _ same => nomatch same

theorem empties_flush (only : Nat) : Empties only .flush :=
  fun _ same => nomatch same

/-- The records carried stand behind each other in their zone; no other zone changes, and none
is emptied. -/
theorem carry_records (fits : Fits store) {more : List RootRecord}
    (read : ∀ record ∈ more, decoded (rootBlock g.blockBytes record) = some record)
    (ok : carry zone more store = (.ok (), after)) :
    (∀ other, after.device.device.records other = store.device.device.records other ++
        if zone = other then more else []) ∧
      ∀ only, Ran (Empties only) store.device.device after.device.device := by
  revert ok
  fun_induction carry zone more store with
  | case1 =>
    rintro ⟨⟩
    exact ⟨fun other => by simp, fun _ => .refl _⟩
  | case2 => nofun
  | case3 record rest store next appended ih =>
    intro ok
    obtain ⟨here, later⟩ := forall_mem_cons.mp read
    obtain ⟨block, appends⟩ := appendRecord_device appended
    rw [fits.sized] at appends
    obtain ⟨behind, ran⟩ := ih (fits.of_superblock (appendRecord_superblock appended)) later ok
    refine ⟨fun other => ?_, fun only => ?_⟩
    · rw [behind, records_append appends, here]
      split <;> simp
    · exact (append_ran appends (empties_append only _ _)).trans (ran only)

end Appending

section Choosing

variable {store after : Store (ZoneMap g)} {active other zone : Nat}

/-- After a wrap the other zone holds the last records of the active one, and only it was
emptied. -/
theorem wrap_records (fits : Fits store) (sequential : active ≠ 0) (inside : active < g.zoneCount)
    (ok : wrap store active other = (.ok zone, after)) :
    zone = other ∧ Ran (Empties other) store.device.device after.device.device ∧
      ∀ third, after.device.device.records third =
        if other = third then lastRecords (store.device.device.records active)
        else store.device.device.records third := by
  have positive := store.device.zoneBlocks_pos
  revert ok
  fun_cases wrap store active other with
  | case6 destination reported short report isReport device emptied next carries => ?_
  | _ => rintro ⟨⟩
  rintro ⟨⟩
  rw [carried_eq fits sequential inside isReport] at carries
  have read : ∀ record ∈ lastRecords (store.device.device.records active),
      decoded (rootBlock g.blockBytes record) = some record := by
    intro record member
    obtain ⟨block, -, found⟩ := mem_filterMap.mp (mem_of_mem_drop member)
    refine decoded_rootBlock found ?_ _
    rw [store.device.device.length_contents]
    exact fits.roomy
  obtain ⟨behind, ran⟩ := carry_records (fits.of_superblock (show (onDevice store
    device).superblock = store.superblock from rfl)) read carries
  refine ⟨rfl, ?_, fun third => ?_⟩
  · have reset : Ran (Empties other) store.device.device device :=
      reset_ran emptied fun reached same => by cases same; rfl
    exact (reset.trans (ran other)).trans (flush_ran (empties_flush other))
  · refine (behind third).trans ?_
    rw [show (onDevice store device).device.device = device from rfl,
      records_reset positive emptied]
    split <;> simp

end Choosing

/-- What a commit that is not refused goes through. -/
theorem commit_steps {store : Store (ZoneMap g)} {record written : RootRecord}
    (ok : (publisher.commit store roots record).1 = .ok written) :
    ∃ zone ready next,
      rootZoneForTheNextRecord { store with device := store.device.flush } = (.ok zone, ready) ∧
      appendRecord ready zone (Publisher.sealRecord record) = (.ok (), next) ∧
      written = Publisher.sealRecord record ∧
      (publisher.commit store roots record).2.1 = { next with device := next.device.flush } := by
  revert ok
  fun_cases Publisher.commit publisher store roots record with
  | case6 _ _ _ _ barrier _ zone ready chosen next appended =>
    intro ok
    cases barrier
    exact ⟨zone, ready, next, chosen, appended, (Except.ok.inj ok).symm, rfl⟩
  | _ => rintro ⟨⟩

/-- A record was appended, so a block has room for one. -/
theorem appendRecord_roomy {store after : Store (ZoneMap g)}
    (appended : appendRecord store zone record = (.ok (), after)) :
    RootRecord.bytes ≤ g.blockBytes := by
  obtain ⟨block, appends⟩ := appendRecord_device appended
  have whole := (append_ok appends).1
  rw [rootBlock, Bytes.overwrite, length_append, record.length_toBytes] at whole
  omega

/-- A store whose two root zones are its own, and whose blocks take root records. -/
structure Sited (store : Store (ZoneMap g)) : Prop extends RootsReserved store, Fits store where
  apart : store.superblock.rootZoneA.toNat ≠ store.superblock.rootZoneB.toNat

theorem Sited.of_same {before after : Store (ZoneMap g)} (sited : Sited before)
    (superblock : after.superblock = before.superblock)
    (dataFrom : after.device.dataFrom = before.device.dataFrom) : Sited after := by
  refine ⟨sited.toRootsReserved.of_same superblock dataFrom,
    sited.toFits.of_superblock superblock, ?_⟩
  rw [superblock]
  exact sited.apart

/-- The active root zone ends with the last records committed, and holds only these and earlier
ones. -/
structure Rooted (store : Store (ZoneMap g)) (earlier committed : List RootRecord)
    (active other : Nat) : Prop where
  /-- The highest generation tells the active zone from the other one. -/
  roles :
    (active = store.superblock.rootZoneA.toNat ∧ other = store.superblock.rootZoneB.toNat ∧
      top (store.device.device.records other) ≤ top (store.device.device.records active)) ∨
    (active = store.superblock.rootZoneB.toNat ∧ other = store.superblock.rootZoneA.toNat ∧
      top (store.device.device.records other) < top (store.device.device.records active))
  recent : lastRecords committed <:+ store.device.device.records active
  past : ∀ record ∈ store.device.device.records active, record ∈ earlier ++ committed

namespace Rooted

variable {store after : Store (ZoneMap g)} {earlier committed : List RootRecord}
  {active other : Nat} (rooted : Rooted store earlier committed active other)

include rooted

/-- Both zones are reserved, and they are two. -/
theorem reserved (sited : Sited store) :
    Reserved store.device.dataFrom active ∧ Reserved store.device.dataFrom other ∧
      active ≠ other := by
  rcases rooted.roles with ⟨rfl, rfl, -⟩ | ⟨rfl, rfl, -⟩
  · exact ⟨sited.first, sited.second, sited.apart⟩
  · exact ⟨sited.second, sited.first, sited.apart.symm⟩

/-- The root zones are as they were while the records in them are. -/
theorem of_same (superblock : after.superblock = store.superblock)
    (same : ∀ zone, zone = active ∨ zone = other →
      after.device.device.records zone = store.device.device.records zone) :
    Rooted after earlier committed active other := by
  have sameActive := same active (.inl rfl)
  refine ⟨?_, sameActive ▸ rooted.recent, sameActive ▸ rooted.past⟩
  rw [superblock, sameActive, same other (.inr rfl)]
  exact rooted.roles

section

variable (sited : Sited store)

include sited

/-- The next record goes to the active zone, or to the other one after a wrap. -/
theorem rootZoneForTheNextRecord_cases :
    rootZoneForTheNextRecord store = (.ok active, store) ∨
      rootZoneForTheNextRecord store = Zone.wrap store active other := by
  obtain ⟨activeReserved, otherReserved, -⟩ := rooted.reserved sited
  have highest {zone : Nat} (reserved : Reserved store.device.dataFrom zone) :=
    highestIn_eq sited.toFits (Nat.ne_of_gt reserved.1)
      (reserved.2.trans store.device.dataFrom_lt)
  have topActive := highest activeReserved
  have topOther := highest otherReserved
  obtain ⟨report, isReport, -⟩ :=
    store.device.device.report_eq (activeReserved.2.trans store.device.dataFrom_lt)
  have chooses : rootZoneForTheNextRecord store =
      if report.state ≠ .full ∧ rootCarry ≤ report.blocks - (report.writePointer - report.start)
      then (.ok active, store) else Zone.wrap store active other := by
    unfold rootZoneForTheNextRecord
    rcases rooted.roles with ⟨rfl, rfl, order⟩ | ⟨rfl, rfl, order⟩
    · simp [topActive, topOther, if_neg (Nat.not_lt.2 order), isReport]
    · simp [topActive, topOther, if_pos order, isReport]
  rw [chooses]
  split
  · exact .inl rfl
  · exact .inr rfl

omit sited in
/-- A record that goes to the active zone. -/
theorem append (apart : active ≠ other) (superblock : after.superblock = store.superblock)
    (appended : ∀ zone, after.device.device.records zone =
      if active = zone then store.device.device.records zone ++ [record]
      else store.device.device.records zone) :
    Rooted after earlier (committed ++ [record]) active other := by
  have here := (appended active).trans (if_pos rfl)
  refine ⟨?_, ?_, ?_⟩
  · rw [superblock, here, (appended other).trans (if_neg apart), top_concat]
    exact rooted.roles.imp (fun ⟨first, second, order⟩ => ⟨first, second, le_max_of_le_left order⟩)
      fun ⟨first, second, order⟩ => ⟨first, second, lt_max_of_lt_left order⟩
  · exact here ▸ lastRecords_concat rooted.recent record
  · intro held member
    rw [here, mem_append] at member
    rw [← append_assoc, mem_append]
    exact member.imp_left (rooted.past held)

omit sited in
/-- After a wrap the zones have changed their roles: the records that were carried are
again enough of the last ones. -/
theorem wrap
    (superblock : after.superblock = store.superblock)
    (numbered : record.generation ≠ 0)
    (later : ∀ held ∈ earlier ++ committed, held.generation < record.generation)
    (kept : after.device.device.records active = store.device.device.records active)
    (appended : after.device.device.records other =
      lastRecords (store.device.device.records active) ++ [record]) :
    Rooted after earlier (committed ++ [record]) other active := by
  have positive : 0 < record.generation.toNat := by
    rw [Nat.pos_iff_ne_zero]
    exact fun zero => numbered (UInt64.toNat_inj.1 zero)
  have older : top (store.device.device.records active) < record.generation.toNat :=
    top_lt positive fun held member =>
      UInt64.lt_iff_toNat_lt.1 (later held (rooted.past held member))
  refine ⟨?_, ?_, ?_⟩
  · rw [superblock, kept, appended, top_concat]
    exact rooted.roles.elim
      (fun ⟨first, second, _⟩ => .inr ⟨second, first, lt_max_of_lt_right older⟩)
      fun ⟨first, second, _⟩ => .inl ⟨second, first, (lt_max_of_lt_right older).le⟩
  · exact appended ▸ lastRecords_concat (lastRecords_suffix rooted.recent) record
  · intro held member
    rw [appended, mem_append] at member
    rw [← append_assoc, mem_append]
    exact member.imp_left fun carried => rooted.past held (mem_of_mem_drop carried)

/-- The step lemma for a commit: the zone that was active is not emptied, and the root
zones hold the new record behind the others. -/
theorem commit {record written : RootRecord} (numbered : record.generation ≠ 0)
    (later : ∀ held ∈ earlier ++ committed, held.generation < record.generation)
    (ok : (publisher.commit store roots record).1 = .ok written) :
    Ran (Empties other) store.device.device
        (publisher.commit store roots record).2.1.device.device ∧
      ∃ active other, Rooted (publisher.commit store roots record).2.1 earlier
        (committed ++ [written]) active other := by
  obtain ⟨activeReserved, otherReserved, apart⟩ := rooted.reserved sited
  obtain ⟨zone, ready, next, chosen, appended, rfl, result⟩ := commit_steps ok
  rw [result]
  -- a flush changes no record
  have flushed : Ran (Empties other) store.device.device store.device.flush.device :=
    flush_ran (empties_flush other)
  have flushedRooted : Rooted { store with device := store.device.flush } earlier committed active
      other := rooted.of_same rfl fun _ _ => rfl
  have flushedSited : Sited { store with device := store.device.flush } := sited.of_same rfl rfl
  obtain ⟨block, appends⟩ := appendRecord_device appended
  have superblock := appendRecord_superblock appended
  have grown (third : Nat) : next.device.device.records third =
      if zone = third then ready.device.device.records third ++ [Publisher.sealRecord record]
      else ready.device.device.records third := by
    rw [records_append appends, decoded_sealRecord numbered]
    rfl
  have more :=
    (append_ran appends (empties_append other _ _)).trans (flush_ran (empties_flush other))
  rcases flushedRooted.rootZoneForTheNextRecord_cases flushedSited with stays | wraps
  · cases stays.symm.trans chosen
    exact ⟨flushed.trans more, _, _, flushedRooted.append apart superblock grown⟩
  · have wrapped := wraps.symm.trans chosen
    have aside := wrap_aside { store with device := store.device.flush } active otherReserved
    rw [wrapped] at aside
    obtain ⟨rfl, ran, carried⟩ := wrap_records flushedSited.toFits (Nat.ne_of_gt activeReserved.1)
      (activeReserved.2.trans store.device.dataFrom_lt) wrapped
    refine ⟨(flushed.trans ran).trans more, _, _,
      flushedRooted.wrap (superblock.trans aside.superblock) numbered later ?_ ?_⟩
    · exact (grown active).trans ((if_neg apart.symm).trans
        ((carried active).trans (if_neg apart.symm)))
    · exact (grown zone).trans ((if_pos rfl).trans (by rw [carried, if_pos rfl]))

/-- The last records can be read wherever the active zone still has its records. -/
theorem found {device : ZonedMemory g}
    (kept : store.device.device.records active <+: device.records active)
    (member : record ∈ lastRecords committed) :
    ∃ block, (block / g.zoneBlocks = store.superblock.rootZoneA.toNat ∨
        block / g.zoneBlocks = store.superblock.rootZoneB.toNat) ∧
      recordAt (onDevice store device) block = some record := by
  obtain ⟨activeReserved, -⟩ := rooted.reserved sited
  obtain ⟨block, inZone, read⟩ := @exists_recordAt g _ record (onDevice store device)
    (sited.toFits.of_superblock rfl) (activeReserved.2.trans store.device.dataFrom_lt)
    (kept.subset (rooted.recent.subset member))
  refine ⟨block, ?_, read⟩
  rw [inZone]
  exact rooted.roles.imp And.left And.left

end

end Rooted

end FSystem.Zone
