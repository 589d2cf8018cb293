import FSystem.Index.Replay

/-!
# The log and the map agree

A mounted index is the map of the entries its sealed blocks hold and of those in the
block being filled.  Every call keeps that, refused or not, as long as the rest of the
region reads as padding; a barrier empties the block being filled, so a fresh mount then
finds the map.
-/

namespace FSystem.Index

open Abi Blob Hash

variable {D : Type} [Device D] {entry : Entry} {blocks first : Nat}

section Cases

variable {index next : Index D} {answer : Except Refusal Unit}

/-- What a seal can do: nothing, a write that was refused, or the block it seals. -/
theorem seal_cases (sealed_ : index.seal_ = (answer, next)) :
    (next = index ∧ (answer = .ok () → index.pending = [])) ∨
      (∃ refusal device, answer = .error refusal ∧
        Device.write index.device (index.first + index.used) index.sealedBlock =
          (.error refusal, device) ∧
        next = { index with device := device }) ∨
      (∃ device, answer = .ok () ∧ index.pending ≠ [] ∧ index.used < index.blocks ∧
        Device.write index.device (index.first + index.used) index.sealedBlock = (.ok (), device) ∧
        next = { index with device := device, used := index.used + 1, pending := [] }) := by
  revert sealed_
  fun_cases seal_ index with
  | case1 empty =>
    rintro ⟨⟩
    exact .inl ⟨rfl, fun _ => empty⟩
  | case2 empty full =>
    rintro ⟨⟩
    exact .inl ⟨rfl, nofun⟩
  | case3 empty full refusal device written =>
    rintro ⟨⟩
    exact .inr (.inl ⟨refusal, device, rfl, written, rfl⟩)
  | case4 empty full device written =>
    rintro ⟨⟩
    exact .inr (.inr ⟨device, rfl, empty, by omega, written, rfl⟩)

theorem seal_pending (sealed_ : index.seal_ = (.ok (), next)) : next.pending = [] := by
  rcases seal_cases sealed_ with ⟨rfl, empty⟩ | ⟨_, _, refused, _⟩ | ⟨_, _, _, _, _, rfl⟩
  · exact empty rfl
  · cases refused
  · rfl

omit [Device D] in
theorem place_cases
    {width : Nat}
    (encoded : entry.encodedBytes = .ok width)
    (namespace_ : Ns.known entry.namespace_ = true)
    (op : Op.known entry.op = true)
    (placed : index.place entry width = (answer, next)) :
    ((∃ refusal, answer = .error refusal) ∧ next = index) ∨
      (answer = .ok () ∧ entry.Valid ∧ width = entry.toBytes.length ∧
        next = { index with pending := index.pending ++ entry.toBytes }) := by
  have valid : entry.Valid := by
    unfold Entry.encodedBytes entryBytes at encoded
    split at encoded
    · cases encoded
    · next bounds => exact ⟨by omega, by omega, namespace_, op⟩
  rw [valid.encodedBytes_eq] at encoded
  cases encoded
  unfold place at placed
  by_cases full : index.blocks ≤ index.used
  · rw [if_pos full] at placed
    cases placed
    exact .inl ⟨⟨_, rfl⟩, rfl⟩
  · rw [if_neg full, valid.toSlice_eq] at placed
    cases placed
    exact .inr ⟨rfl, valid, (Entry.length_toBytes entry).symm, rfl⟩

/-- An append keeps what a seal does; the entry is the last one, or was refused. -/
theorem append_keeps
    {log : List (List Entry)}
    {tail : List Entry}
    (Keeps : Index D → List (List Entry) → List Entry → Prop)
    (seals : ∀ {answer next}, index.seal_ = (answer, next) → next.entries = index.entries ∧
      ∃ log' tail', log'.flatten ++ tail' = log.flatten ++ tail ∧ Keeps next log' tail' ∧
        (answer = .ok () → tail' = []))
    (push : ∀ {middle log' tail'}, Keeps middle log' tail' → entry.Valid →
      (middle.pending = [] ∨ middle.pending.length + entry.toBytes.length ≤ middle.blockBytes) →
      Keeps { middle with pending := middle.pending ++ entry.toBytes } log' (tail' ++ [entry]))
    (kept : Keeps index log tail)
    (op : Op.known entry.op = true)
    (appended : index.append entry = (answer, next)) :
    next.entries = index.entries ∧ ∃ log' tail', Keeps next log' tail' ∧
      ((answer = .ok () ∧ log'.flatten ++ tail' = log.flatten ++ tail ++ [entry]) ∨
        ((∃ refusal, answer = .error refusal) ∧ log'.flatten ++ tail' = log.flatten ++ tail)) := by
  revert appended
  fun_cases append index entry with
  | case1 | case2 =>
    rintro ⟨⟩
    exact ⟨rfl, log, tail, kept, .inr ⟨⟨_, rfl⟩, rfl⟩⟩
  | case3 width encoded known tight refusal next sealed_ =>
    rintro ⟨⟩
    obtain ⟨same, log', tail', order, kept, -⟩ := seals sealed_
    exact ⟨same, log', tail', kept, .inr ⟨⟨_, rfl⟩, order⟩⟩
  | case4 width encoded known tight middle sealed_ =>
    intro placed
    obtain ⟨same, log', tail', order, kept, -⟩ := seals sealed_
    rcases place_cases encoded (not_not.1 known) op placed with
      ⟨refused, rfl⟩ | ⟨rfl, valid, -, rfl⟩
    · exact ⟨same, log', tail', kept, .inr ⟨refused, order⟩⟩
    · exact ⟨same, log', tail' ++ [entry], push kept valid (.inl (seal_pending sealed_)),
        .inl ⟨rfl, by rw [← order, List.append_assoc]⟩⟩
  | case5 width encoded known loose =>
    intro placed
    rcases place_cases encoded (not_not.1 known) op placed with
      ⟨refused, rfl⟩ | ⟨rfl, valid, rfl, rfl⟩
    · exact ⟨rfl, log, tail, kept, .inr ⟨refused, rfl⟩⟩
    · exact ⟨rfl, log, tail ++ [entry], push kept valid (.inr (by omega)),
        .inl ⟨rfl, (List.append_assoc ..).symm⟩⟩

end Cases

section Packed

variable [LawfulDevice D]

open LawfulDevice

/-- A region an index can be mounted in. -/
structure Mountable (device : D) (first blocks : Nat) : Prop where
  wide : entryMaxBytes ≤ Device.blockBytes device
  some_ : blocks ≠ 0
  addressable : first + blocks < 2 ^ 64
  inside : first + blocks ≤ Device.blocks device

variable {device : D}

omit [LawfulDevice D] in
/-- Only the shape of the device matters. -/
theorem Mountable.same {other : D} (region : Mountable device first blocks)
    (sameBytes : Device.blockBytes other = Device.blockBytes device)
    (sameBlocks : Device.blocks other = Device.blocks device) : Mountable other first blocks :=
  ⟨sameBytes ▸ region.wide, region.some_, region.addressable, sameBlocks ▸ region.inside⟩

omit [LawfulDevice D] in
theorem mount_eq (region : Mountable device first blocks) :
    mount device first blocks = (blank device first blocks).replay blocks := by
  have some_ := region.some_
  have addressable := region.addressable
  have inside := region.inside
  unfold mount
  rw [if_neg (not_lt.2 region.wide), if_neg (by omega)]

omit [LawfulDevice D] in
theorem mountable_of_mount {index : Index D} (mounted : mount device first blocks = .ok index) :
    Mountable device first blocks := by
  revert mounted
  fun_cases mount device first blocks with
  | case1 | case2 => nofun
  | case3 wide bounds => exact fun _ => ⟨by omega, by omega, by omega, by omega⟩

/-- The sealed blocks hold some entries, the block being filled others; the rest is padding. -/
structure Packed (first blocks : Nat) (index : Index D)
    (log : List (List Entry)) (tail : List Entry) : Prop where
  device : Valid index.device
  starts : index.first = first
  spans : index.blocks = blocks
  region : Mountable index.device first blocks
  used : index.used = log.length
  bounded : log.length ≤ blocks
  sealed_ : ∀ position entries, log[position]? = some entries →
    entriesAt index.device (first + position) = .ok (some entries)
  clean : ∀ position, log.length ≤ position → position < blocks →
    entriesAt index.device (first + position) = .ok none
  pending : index.pending = encode tail
  valid : ∀ entry ∈ tail, entry.Valid
  fits : (encode tail).length ≤ index.blockBytes

/-- A packed index whose map is that of its entries. -/
structure Logged (first blocks : Nat) (index : Index D)
    (log : List (List Entry)) (tail : List Entry) : Prop
    extends Packed first blocks index log tail where
  map : index.entries = mapOf (log.flatten ++ tail)

variable {first blocks : Nat} {index next : Index D} {log : List (List Entry)}
  {tail : List Entry} {answer : Except Refusal Unit}

/-- A mount finds the entries of the sealed blocks. -/
theorem Packed.mount (packed : Packed first blocks index log tail) :
    Index.mount index.device first blocks =
      .ok ⟨index.device, first, blocks, log.length, [], mapOf log.flatten⟩ := by
  have found : replayed index.device blocks (first + 0) = .ok log :=
    replayed_eq packed.sealed_ packed.bounded (fun below => packed.clean _ le_rfl below)
  rw [mount_eq packed.region, replay_eq]
  simp only [blank, found, Except.map, Nat.zero_add]
  rfl

/-- The blocks of a region that no sealed block has reached read as padding. -/
def Clean (index : Index D) : Prop :=
  ∀ position, index.used ≤ position → position < index.blocks →
    ∃ block, index.readBlock position = .ok block ∧ paddingAt block 0 = true

/-- An index as it is mounted is logged, when the rest of its region is padding. -/
theorem logged_of_mount (valid : Valid device)
    (mounted : Index.mount device first blocks = .ok index) (clean : index.Clean) :
    ∃ log, Logged first blocks index log [] := by
  have region := mountable_of_mount mounted
  rw [mount_eq region, replay_eq] at mounted
  cases found : replayed device blocks (first + 0) with
  | error refusal =>
    simp only [blank, found] at mounted
    cases mounted
  | ok log =>
    simp only [blank, found, Except.map, Except.ok.injEq, Nat.zero_add] at mounted
    obtain ⟨bounded, held⟩ := entriesAt_of_replayed found
    subst mounted
    refine ⟨log, ⟨⟨valid, rfl, rfl, region, rfl, bounded, held, ?_, rfl, by simp, ?_⟩, ?_⟩⟩
    · intro position reached below
      obtain ⟨block, read, padding⟩ := clean position reached below
      exact entriesAt_padding read padding
    · exact Nat.zero_le _
    · simp [mapOf]

/-- A device of the same shape that reads the same keeps an index packed. -/
theorem Packed.reads
    (packed : Packed first blocks index log tail)
    (valid : Valid device)
    (blockBytes : Device.blockBytes device = index.blockBytes)
    (count : Device.blocks device = Device.blocks index.device)
    (read : ∀ block, Device.read device block index.blockBytes =
      Device.read index.device block index.blockBytes) :
    Packed first blocks { index with device := device } log tail := { packed with
  device := valid
  region := packed.region.same blockBytes count
  sealed_ := fun position entries held =>
    (entriesAt_congr blockBytes (read _)).trans (packed.sealed_ position entries held)
  clean := fun position reached below =>
    (entriesAt_congr blockBytes (read _)).trans (packed.clean position reached below)
  fits := packed.fits.trans_eq blockBytes.symm }

/-- A block that was sealed joins the log. -/
theorem Packed.written (packed : Packed first blocks index log tail) (some_ : tail ≠ [])
    (room : index.used < index.blocks)
    (written : Device.write index.device (index.first + index.used) index.sealedBlock =
      (.ok (), device)) :
    Packed first blocks { index with device := device, used := index.used + 1, pending := [] }
      (log ++ [tail]) [] := by
  have after : device =
      (Device.write index.device (index.first + index.used) index.sealedBlock).2 := by
    rw [written]
  have sameBytes : Device.blockBytes device = index.blockBytes := by
    rw [after]
    exact blockBytes_write _ _ _
  have sameBlocks : Device.blocks device = Device.blocks index.device := by
    rw [after]
    exact blocks_write _ _ packed.device
  have other : ∀ position, position ≠ log.length →
      entriesAt device (first + position) = entriesAt index.device (first + position) := by
    intro position apart
    refine entriesAt_congr sameBytes ?_
    rw [after]
    refine read_write_other _ packed.device ?_
    rw [packed.starts, packed.used]
    omega
  rw [packed.used, packed.spans] at room
  constructor
  · rw [after]
    exact valid_write _ _ packed.device
  · exact packed.starts
  · exact packed.spans
  · exact packed.region.same sameBytes sameBlocks
  · simp [packed.used]
  · rw [List.length_append, List.length_singleton]
    exact room
  · intro position entries held
    by_cases last : position = log.length
    · subst last
      rw [List.getElem?_concat_length] at held
      cases held
      have read := read_write_same packed.device written
      rw [packed.starts, packed.used, sealedBlock, packed.pending, ← sameBytes] at read
      exact entriesAt_sealed some_ packed.valid (sameBytes ▸ packed.fits) (sameBytes ▸ read)
    · rw [other position last]
      have earlier := (List.getElem?_eq_some_iff.1 held).1
      rw [List.length_append, List.length_singleton] at earlier
      rw [List.getElem?_append_left (by omega)] at held
      exact packed.sealed_ position entries held
  · intro position reached below
    rw [List.length_append, List.length_singleton] at reached
    rw [other position (by omega)]
    exact packed.clean position (by omega) below
  · rfl
  · exact fun entry member => absurd member (List.not_mem_nil)
  · exact Nat.zero_le _

section

variable (packed : Packed first blocks index log tail)

include packed

/-- A seal moves the entries of the block being filled to the log, or nothing. -/
theorem Packed.seal (sealed_ : index.seal_ = (answer, next)) :
    next.entries = index.entries ∧ ∃ log' tail',
      log'.flatten ++ tail' = log.flatten ++ tail ∧
      Packed first blocks next log' tail' ∧ (answer = .ok () → tail' = []) := by
  have nothing : index.pending = [] → tail = [] := by
    intro empty
    by_contra some_
    exact encode_ne_nil some_ (packed.pending.symm.trans empty)
  rcases seal_cases sealed_ with ⟨rfl, empty⟩ | ⟨refusal, device, rfl, refused, rfl⟩ |
    ⟨device, rfl, filled, room, written, rfl⟩
  · exact ⟨rfl, log, tail, rfl, packed, fun accepted => nothing (empty accepted)⟩
  · have after : device =
        (Device.write index.device (index.first + index.used) index.sealedBlock).2 := by
      rw [refused]
    refine ⟨rfl, log, tail, rfl, packed.reads ?_ ?_ ?_ ?_, fun accepted => nomatch accepted⟩
    · rw [after]
      exact valid_write _ _ packed.device
    · rw [after]
      exact blockBytes_write _ _ _
    · rw [after]
      exact blocks_write _ _ packed.device
    · exact read_write_refused packed.device refused
  · refine ⟨rfl, log ++ [tail], [], by simp, packed.written ?_ room written, fun _ => rfl⟩
    rintro rfl
    exact filled packed.pending

/-- An entry the block being filled has room for joins it. -/
theorem Packed.push (valid : entry.Valid)
    (room : index.pending = [] ∨ index.pending.length + entry.toBytes.length ≤ index.blockBytes) :
    Packed first blocks { index with pending := index.pending ++ entry.toBytes } log
      (tail ++ [entry]) := { packed with
  pending := by simp [packed.pending]
  valid := by
    intro other member
    rcases List.mem_append.1 member with earlier | last
    · exact packed.valid other earlier
    · rw [List.mem_singleton.1 last]
      exact valid
  fits := by
    have fits : (encode tail).length + entry.toBytes.length ≤ index.blockBytes := by
      rw [← packed.pending]
      rcases room with empty | fits
      · have bounded := valid.bounded
        have wide : entryMaxBytes ≤ index.blockBytes := packed.region.wide
        rw [empty, List.length_nil, Nat.zero_add, Entry.length_toBytes]
        unfold entryMaxBytes at wide
        omega
      · exact fits
    simpa using fits }

end

section

variable (logged : Logged first blocks index log tail)

include logged

/-- A change keeps the log and the map in step. -/
theorem Logged.record (op : Op.known entry.op = true) :
    ∃ log' tail', Logged first blocks (index.record entry).2 log' tail' := by
  unfold Index.record
  rcases appended : index.append entry with ⟨answer, next⟩
  obtain ⟨same, log', tail', packed, outcome⟩ := append_keeps (Packed first blocks)
    logged.toPacked.seal Packed.push logged.toPacked op appended
  refine ⟨log', tail', ?_⟩
  rcases outcome with ⟨rfl, order⟩ | ⟨⟨-, rfl⟩, order⟩
  · dsimp only
    refine ⟨{ packed with }, ?_⟩
    rw [order, mapOf_append, ← logged.map, ← same]
    rfl
  · exact ⟨packed, by rw [order, same, logged.map]⟩

/-- A barrier keeps the log and the map in step, and leaves no entry out of the log when
it is not refused. -/
theorem Logged.barrier :
    ∃ log' tail', Logged first blocks index.barrier.2 log' tail' ∧
      (index.barrier.1 = .ok () → tail' = []) := by
  unfold Index.barrier
  rcases sealed_ : index.seal_ with ⟨answer, next⟩
  obtain ⟨same, log', tail', order, packed, emptied⟩ := logged.toPacked.seal sealed_
  refine ⟨log', tail', ?_⟩
  have map : next.entries = mapOf (log'.flatten ++ tail') := by rw [order, same, logged.map]
  cases answer with
  | error refusal => exact ⟨⟨packed, map⟩, fun accepted => nomatch accepted⟩
  | ok done =>
    refine ⟨⟨packed.reads ?_ ?_ ?_ ?_, map⟩, fun _ => emptied rfl⟩
    · exact valid_flush packed.device
    · exact blockBytes_flush _
    · exact blocks_flush _
    · exact fun block => read_flush _ _ _

/-- The step lemma. -/
theorem Logged.answered (call : Call) :
    ∃ log' tail', Logged first blocks (index.answer call).2 log' tail' := by
  cases call with
  | set namespace_ name hash | remove namespace_ name => exact logged.record rfl
  | barrier =>
    obtain ⟨log', tail', after, -⟩ := logged.barrier
    exact ⟨log', tail', after⟩

/-- The run lemma. -/
theorem Logged.run (calls : List Call) :
    ∃ log' tail', Logged first blocks (index.run calls) log' tail' := by
  induction calls generalizing index log tail with
  | nil => exact ⟨log, tail, logged⟩
  | cons call rest ih =>
    obtain ⟨log', tail', after⟩ := logged.answered call
    exact ih after

end

/-- In a region whose unsealed blocks read as padding, whatever calls were made and
however they were answered, a fresh mount behind a barrier finds the map in memory. -/
theorem log_and_map_agree
    {device : D}
    (valid : Valid device)
    (mounted : Index.mount device first blocks = .ok index)
    (clean : index.Clean)
    (calls : List Call)
    {after : Index D}
    (flushed : (index.run calls).barrier = (.ok (), after)) :
    ∃ fresh, Index.mount after.device first blocks = .ok fresh ∧ fresh.entries = after.entries := by
  obtain ⟨log, logged⟩ := logged_of_mount valid mounted clean
  obtain ⟨log, tail, logged⟩ := logged.run calls
  obtain ⟨log, tail, logged, emptied⟩ := logged.barrier
  rw [flushed] at logged emptied
  cases emptied rfl
  refine ⟨_, logged.toPacked.mount, ?_⟩
  rw [logged.map, List.append_nil]

end Packed

section Samples

/-- A region of two zeroed blocks. -/
def zeroed : Memory := Memory.new 512 2 (by decide)

/-- An entry that names the empty digest. -/
def sample : Entry := ⟨Ns.path, Op.set, Digest.zero, [1]⟩

/-- A region whose first block was lost and whose second was not. -/
def holed : Memory :=
  (zeroed.write 1 (sample.toBytes ++ Bytes.zeros (512 - sample.toBytes.length))).2

/-- A mount finds nothing in a region that begins with a zeroed block. -/
theorem mount_blank {device : D} (region : Mountable device first blocks)
    (read : Device.read device first (Device.blockBytes device) =
      .ok (Bytes.zeros (Device.blockBytes device))) :
    mount device first blocks = .ok (blank device first blocks) := by
  have ends : entriesAt device first = .ok none := entriesAt_padding read (paddingAt_zeros _)
  have found : replayed device blocks first = .ok [] :=
    replayed_eq (fun _ _ absent => by simp at absent) (Nat.zero_le _) (fun _ => ends)
  rw [mount_eq region, replay_eq]
  simp only [blank, Nat.add_zero, found]
  rfl

/-- Two names are set and one of them is removed; a call without a name is refused. -/
def mixedCalls : List Call :=
  [.set Ns.path [1] Digest.zero, .set Ns.path [] Digest.zero, .set Ns.path [2] Digest.zero,
    .remove Ns.path [1]]

theorem log_and_map_agree_mixed :
    ∃ index after fresh : Index Memory, mount zeroed 0 2 = .ok index ∧ index.Clean ∧
      ((index.run (mixedCalls.take 1)).set Ns.path [] Digest.zero).1 ≠ .ok () ∧
      (index.run mixedCalls).barrier = (.ok (), after) ∧
      mount after.device 0 2 = .ok fresh ∧ fresh.entries = after.entries := by
  have region : Mountable zeroed 0 2 := ⟨by decide, by decide, by decide, by decide +kernel⟩
  have zeros : ∀ position < 2, (blank zeroed 0 2).readBlock position =
      .ok (Bytes.zeros 512) := by decide +kernel
  have mounted := mount_blank region (zeros 0 (by decide))
  have clean : (blank zeroed 0 2).Clean := fun position _ below =>
    ⟨_, zeros position below, paddingAt_zeros 512⟩
  have refused : (((blank zeroed 0 2).run (mixedCalls.take 1)).set Ns.path [] Digest.zero).1 ≠
      .ok () := by decide +kernel
  have flushed : ((blank zeroed 0 2).run mixedCalls).barrier.1 = .ok () := by decide +kernel
  obtain ⟨fresh, remounted, same⟩ := @log_and_map_agree Memory _ _ _ _ _ _ trivial mounted clean
    mixedCalls _ (Prod.fst_eq_iff.1 flushed)
  exact ⟨_, _, fresh, mounted, clean, refused, Prod.fst_eq_iff.1 flushed, remounted, same⟩

/-- A block that was lost hides the one behind it until its place is filled again: the
map in memory then knows nothing of the entry a fresh mount replays. -/
theorem stale_block_returns :
    ∃ index after fresh : Index Memory, mount holed 0 2 = .ok index ∧
      (index.run [.set Ns.path [1] (Digest.ofBytes [1])]).barrier = (.ok (), after) ∧
      mount after.device 0 2 = .ok fresh ∧
      after.get Ns.path [1] = some (Digest.ofBytes [1]) ∧
      fresh.get Ns.path [1] = some Digest.zero := by
  have region : Mountable holed 0 2 := ⟨by decide +kernel, by decide, by decide, by decide +kernel⟩
  have mounted := mount_blank region (by decide +kernel)
  have flushed : ((blank holed 0 2).run [.set Ns.path [1] (Digest.ofBytes [1])]).barrier.1 =
      .ok () := by decide +kernel
  have held : ((blank holed 0 2).run [.set Ns.path [1] (Digest.ofBytes [1])]).barrier.2.get
      Ns.path [1] = some (Digest.ofBytes [1]) := by decide +kernel
  have overridden : ((mount ((blank holed 0 2).run
      [.set Ns.path [1] (Digest.ofBytes [1])]).barrier.2.device 0 2).toOption.bind
        (·.get Ns.path [1])) = some Digest.zero := by decide +kernel
  obtain ⟨fresh, remounted, stale⟩ := Option.bind_eq_some_iff.1 overridden
  refine ⟨_, _, fresh, mounted, Prod.fst_eq_iff.1 flushed, ?_, held, stale⟩
  cases again : mount ((blank holed 0 2).run
      [.set Ns.path [1] (Digest.ofBytes [1])]).barrier.2.device 0 2 with
  | error refusal =>
    rw [again] at remounted
    cases remounted
  | ok other =>
    rw [again] at remounted
    cases remounted
    rfl

end Samples

end FSystem.Index
