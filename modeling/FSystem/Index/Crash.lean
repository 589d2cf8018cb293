import FSystem.Index.Agreement
import FSystem.Index.Disk

/-!
# The index across power cuts

An index on a disk that loses power: calls, cuts and mounts in any order.  Next to the
machine stand the changes it accepted and has not lost, and how many of them a barrier
has promised to keep.  While every cut lands the sealed blocks in order and tears none of
them inside a name, each mount is refused or finds a beginning of those changes that has
every promised one.
-/

namespace FSystem.Index

open Abi Blob Hash Bytes Writeback List

/-- The entry a call appends. -/
def Call.entry : Call → Option Entry
  | .set namespace_ name hash => some ⟨namespace_, Op.set, hash, name⟩
  | .remove namespace_ name => some ⟨namespace_, Op.remove, Digest.zero, name⟩
  | .barrier => none

/-- What can happen to an index. -/
inductive Event where
  | call (call : Call)
  | cut (lengths : List Nat)
  | mount

/-- A mounted index, or a disk that is not mounted. -/
inductive Phase where
  | live (index : Index Disk)
  | down (disk : Disk)

/-- The index, and what it has been asked to keep. -/
structure Machine where
  phase : Phase
  /-- The changes that were accepted and that no cut has lost. -/
  issued : List Entry
  /-- How many of them a barrier has promised to keep. -/
  promised : Nat

namespace Machine

/-- The disk, mounted or not. -/
def disk (self : Machine) : Disk :=
  match self.phase with
  | .live index => index.device
  | .down disk => disk

/-- A disk nothing has been written to. -/
def start (disk : Disk) : Machine := ⟨.down disk, [], 0⟩

/-- Answer a call on a mounted index. -/
def call (self : Machine) (index : Index Disk) (call : Call) : Machine :=
  match index.answer call, call.entry with
  | (.ok (), next), some entry =>
    { self with phase := .live next, issued := self.issued ++ [entry] }
  | (.ok (), next), none => { self with phase := .live next, promised := self.issued.length }
  | (.error _, next), _ => { self with phase := .live next }

/-- The entries a mount finds. -/
def found (disk : Disk) (first blocks : Nat) : List Entry :=
  match replayed disk blocks first with
  | .ok log => log.flatten
  | .error _ => []

/-- What an event does; what a mount does not find is lost. -/
def step (first blocks : Nat) (self : Machine) : Event → Machine
  | .call call =>
    match self.phase with
    | .live index => self.call index call
    | .down _ => self
  | .cut lengths => { self with phase := .down (self.disk.cut lengths) }
  | .mount =>
    match Index.mount self.disk first blocks with
    | .ok index => { self with phase := .live index, issued := found self.disk first blocks }
    | .error _ => { self with phase := .down self.disk }

/-- The machine after some events. -/
def run (first blocks : Nat) (self : Machine) (events : List Event) : Machine :=
  events.foldl (step first blocks) self

end Machine

/-- Whether some bytes of a block end inside an entry, behind its first forty bytes. -/
def Tears (block : Bytes) (length : Nat) : Prop :=
  ∃ (entries : List Entry) (entry : Entry) (rest : Bytes), (∀ other ∈ entries, other.Valid) ∧
    entry.Valid ∧ block = encode entries ++ (entry.toBytes ++ rest) ∧ (encode entries).length + 40 <
    length ∧ length < (encode entries).length + entry.toBytes.length

/-- A cut that lands the writes in order, the last perhaps in part, with no entry torn behind
its first forty bytes. -/
def Disk.Gentle (disk : Disk) (lengths : List Nat) : Prop :=
  ∃ whole, (∀ position < whole, disk.blockBytes ≤ lengths.getD position 0) ∧
    (∀ position, whole < position → lengths.getD position 0 = 0) ∧
    ∀ write, disk.queue[whole]? = some write → ¬Tears write.2 (lengths.getD whole 0)

/-- A cut that lands nothing tears nothing. -/
theorem Disk.gentle_nil (disk : Disk) : disk.Gentle [] := by
  refine ⟨0, fun _ below => absurd below (by omega), fun _ _ => rfl, ?_⟩
  exact nofun

namespace Machine

/-- Every cut of a run is gentle. -/
def Careful (first blocks : Nat) : Machine → List Event → Prop
  | _, [] => True
  | self, event :: rest =>
    (∀ lengths, event = .cut lengths → self.disk.Gentle lengths) ∧
      Careful first blocks (self.step first blocks event) rest

end Machine

/-- A block as it is sealed over some entries. -/
def sealOver (width : Nat) (entries : List Entry) : Bytes :=
  encode entries ++ zeros (width - (encode entries).length)

/-- Entries a block of some width can be sealed over. -/
structure Sealable (width : Nat) (entries : List Entry) : Prop where
  some_ : entries ≠ []
  valid : ∀ entry ∈ entries, entry.Valid
  fits : (encode entries).length ≤ width

variable {entries kept : List Entry} {width : Nat}

theorem Sealable.length_sealOver (sealable : Sealable width entries) :
    (sealOver width entries).length = width := by
  have fits := sealable.fits
  simp only [sealOver, length_append, length_zeros]
  omega

theorem Sealable.of_prefix (sealable : Sealable width entries) (beginning : kept <+: entries)
    (some_ : kept ≠ []) : Sealable width kept := by
  obtain ⟨more, rfl⟩ := beginning
  have fits := sealable.fits
  rw [encode_append, length_append] at fits
  refine ⟨some_, ?_, by omega⟩
  exact fun entry member => sealable.valid entry (mem_append_left _ member)

/-- Some bytes of encoded entries end behind them all or inside one of them. -/
theorem encode_split (entries : List Entry) (length : Nat) :
    (encode entries).length ≤ length ∨
      ∃ before entry after, entries = before ++ entry :: after ∧
        (encode before).length ≤ length ∧
        length < (encode before).length + entry.toBytes.length := by
  induction entries generalizing length with
  | nil => exact .inl (Nat.zero_le _)
  | cons entry rest ih =>
    by_cases inside : length < entry.toBytes.length
    · exact .inr ⟨[], entry, rest, rfl, Nat.zero_le _, by simpa using inside⟩
    rcases ih (length - entry.toBytes.length) with
      past | ⟨before, other, after, rfl, reached, short⟩
    · refine .inl ?_
      rw [encode_cons, length_append]
      omega
    · refine .inr ⟨entry :: before, other, after, rfl, ?_, ?_⟩
      · rw [encode_cons, length_append]
        omega
      · rw [encode_cons, length_append]
        omega

/-- A sealed block written in part over zeros is a block sealed over fewer entries, or tears one. -/
theorem overlay_cases (sealable : Sealable width entries) (length : Nat) :
    (∃ kept, kept <+: entries ∧
      overlay (zeros width) (sealOver width entries) length = sealOver width kept) ∨
    (∃ (before : List Entry) (entry : Entry) (kept lost : Nat), (∀ other ∈ before, other.Valid) ∧ 0
      < kept ∧ kept ≤ 40 ∧ headBytes ≤ kept + lost ∧ width = (encode before).length + kept + lost ∧
      overlay (zeros width) (sealOver width entries) length = encode before ++ (entry.toBytes.take
      kept ++ zeros lost)) ∨
    Tears (sealOver width entries) length := by
  have fits := sealable.fits
  rcases encode_split entries length with past | ⟨before, entry, after, rfl, reached, short⟩
  · refine .inl ⟨entries, prefix_rfl, ?_⟩
    simp only [overlay, sealOver, zeros, drop_replicate, take_append, take_replicate,
      take_of_length_le past, append_assoc, replicate_append_replicate]
    congr 2
    omega
  · rw [encode_append, encode_cons, length_append, length_append] at fits
    have wide := Entry.length_toBytes entry
    obtain ⟨kept, rfl⟩ := Nat.exists_eq_add_of_le reached
    have left : overlay (zeros width)
        (sealOver width (before ++ entry :: after)) ((encode before).length + kept) =
        encode before ++ (entry.toBytes.take kept ++
          zeros (width - ((encode before).length + kept))) := by
      simp only [overlay, sealOver, zeros, drop_replicate, encode_append,
        encode_cons, append_assoc, take_length_add_append]
      rw [take_append_of_le_length (by omega)]
    by_cases none_ : kept = 0
    · subst none_
      refine .inl ⟨before, prefix_append _ _, ?_⟩
      rw [left, sealOver, take_zero, nil_append, Nat.add_zero]
    by_cases early : kept ≤ 40
    · refine .inr (.inl ⟨before, entry, kept, width - ((encode before).length + kept), ?_,
        by omega, early, by omega, by omega, left⟩)
      exact fun other member => sealable.valid other (mem_append_left _ member)
    · refine .inr (.inr ⟨before, entry, encode after ++ zeros
        (width - (encode (before ++ entry :: after)).length), ?_, ?_, ?_, by omega, by omega⟩)
      · exact fun other member => sealable.valid other (mem_append_left _ member)
      · exact sealable.valid entry (by simp)
      · simp [sealOver, encode_append, encode_cons]

/-- A region's blocks on the media, those behind them held back, and zeros in the rest. -/
structure Layout (first blocks : Nat) (disk : Disk)
    (durable fresh : List (List Entry)) : Prop where
  region : Mountable disk first blocks
  bounded : durable.length + fresh.length ≤ blocks
  sealable : ∀ entries ∈ durable ++ fresh, Sealable disk.blockBytes entries
  media : ∀ position entries, durable[position]? = some entries →
    disk.media (first + position) = sealOver disk.blockBytes entries
  blank : ∀ position, durable.length ≤ position → position < blocks →
    disk.media (first + position) = zeros disk.blockBytes
  queue : disk.queue = consecutive (first + durable.length) (fresh.map (sealOver disk.blockBytes))

namespace Layout

variable {first blocks : Nat} {disk : Disk} {durable fresh : List (List Entry)}

/-- A barrier is a cut that lands every write whole. -/
theorem flush_eq_cut (disk : Disk) :
    disk.flush = disk.cut (replicate disk.queue.length disk.blockBytes) := by
  simp only [Disk.flush, Disk.cut, Disk.seen, settle_eq_land disk.length_media disk.length_queue]

variable {lengths : List Nat} {whole position : Nat}

/-- A cell of the region after so many bytes of each write reached it. -/
theorem land_held (layout : Layout first blocks disk durable fresh)
    (held : fresh[position]? = some entries) (lengths : List Nat) :
    land disk.media disk.queue lengths (first + (durable.length + position)) =
      overlay (zeros disk.blockBytes) (sealOver disk.blockBytes entries)
        (lengths.getD position 0) := by
  have below := (List.getElem?_eq_some_iff.1 held).1
  have bounded := layout.bounded
  rw [layout.queue, ← Nat.add_assoc,
    land_consecutive lengths (by rw [List.getElem?_map, held]; rfl), Nat.add_assoc,
    layout.blank _ (by omega) (by omega)]

theorem land_other (layout : Layout first blocks disk durable fresh)
    (outside : position < durable.length ∨ durable.length + fresh.length ≤ position)
    (lengths : List Nat) :
    land disk.media disk.queue lengths (first + position) = disk.media (first + position) := by
  rw [layout.queue]
  apply land_consecutive_outside
  rw [length_map]
  omega

/-- A write that reached its cell whole. -/
theorem overlay_whole {length : Nat} (sealable : Sealable width entries) (whole : width ≤ length) :
    overlay (zeros width) (sealOver width entries) length = sealOver width entries :=
  overlay_of_le (sealable.length_sealOver.trans_le whole) ((length_zeros width).trans_le whole)

section

variable (layout : Layout first blocks disk durable fresh)

include layout

/-- The blocks a cut landed whole. -/
theorem media_cut_before (landed : ∀ position < whole, disk.blockBytes ≤ lengths.getD position 0)
    (held : (durable ++ fresh.take whole)[position]? = some entries) :
    (disk.cut lengths).media (first + position) = sealOver disk.blockBytes entries := by
  change land disk.media disk.queue lengths (first + position) = _
  by_cases early : position < durable.length
  · rw [List.getElem?_append_left early] at held
    rw [layout.land_other (.inl early)]
    exact layout.media position entries held
  obtain ⟨offset, rfl⟩ := Nat.exists_eq_add_of_le (not_lt.1 early)
  rw [List.getElem?_append_right (by omega), Nat.add_sub_cancel_left] at held
  have below := (List.getElem?_eq_some_iff.1 held).1
  rw [length_take] at below
  rw [List.getElem?_take_of_lt (by omega)] at held
  have member := mem_append_right durable (mem_of_getElem? held)
  rw [layout.land_held held]
  exact overlay_whole (layout.sealable entries member) (landed offset (by omega))

/-- The blocks a cut did not land. -/
theorem media_cut_after (lost : ∀ position, whole < position → lengths.getD position 0 = 0)
    (past : durable.length + whole < position ∨ durable.length + fresh.length ≤ position)
    (inside : durable.length ≤ position) (below : position < blocks) :
    (disk.cut lengths).media (first + position) = zeros disk.blockBytes := by
  change land disk.media disk.queue lengths (first + position) = _
  by_cases outside : durable.length + fresh.length ≤ position
  · rw [layout.land_other (.inr outside)]
    exact layout.blank position inside below
  · obtain ⟨offset, rfl⟩ := Nat.exists_eq_add_of_le inside
    have held := List.getElem?_eq_getElem (show offset < fresh.length by omega)
    rw [layout.land_held held, lost offset (by omega), overlay_zero]

/-- The region once a beginning of its blocks is all it holds. -/
theorem cut_of_media
    {kept : List (List Entry)}
    (bounded : kept.length ≤ blocks)
    (sealable : ∀ entries ∈ kept, Sealable disk.blockBytes entries)
    (media : ∀ position entries, kept[position]? = some entries →
      (disk.cut lengths).media (first + position) = sealOver disk.blockBytes entries)
    (blank : ∀ position, kept.length ≤ position → position < blocks →
      (disk.cut lengths).media (first + position) = zeros disk.blockBytes) :
    Layout first blocks (disk.cut lengths) kept [] where
  region := layout.region.same rfl rfl
  bounded := by simpa using bounded
  sealable := by
    rw [append_nil]
    exact sealable
  media := media
  blank := blank
  queue := rfl

/-- What a mount reads after a cut is on the media. -/
theorem read_cut (lengths : List Nat) (below : position < blocks) :
    Device.read (disk.cut lengths) (first + position) disk.blockBytes =
      .ok ((disk.cut lengths).media (first + position)) := by
  have inside : first + blocks ≤ disk.blocks := layout.region.inside
  exact @Disk.read_eq (disk.cut lengths) _ (show first + position < disk.blocks by omega)

omit layout in
theorem length_take_whole (inside : whole < fresh.length) :
    (durable ++ fresh.take whole).length = durable.length + whole := by
  rw [length_append, length_take, Nat.min_eq_left (by omega)]

theorem sealable_take (member : entries ∈ durable ++ fresh.take whole) :
    Sealable disk.blockBytes entries := by
  apply layout.sealable
  rcases List.mem_append.1 member with early | late
  · exact mem_append_left _ early
  · exact mem_append_right _ (mem_of_mem_take late)

omit layout in
/-- The entries of a region where some blocks landed, one of them in part. -/
theorem flatten_split (held : fresh[whole]? = some entries) :
    (durable ++ fresh).flatten =
      (durable ++ fresh.take whole).flatten ++ (entries ++ (fresh.drop (whole + 1)).flatten) := by
  conv_lhs => rw [← take_append_drop whole fresh, drop_eq_getElem?_toList_append, held]
  simp

omit layout in
theorem prefix_take (durable fresh : List (List Entry)) (whole : Nat) :
    durable.flatten <+: (durable ++ fresh.take whole).flatten := by
  rw [flatten_append]
  exact prefix_append _ _

section

variable (landed : ∀ position < whole, disk.blockBytes ≤ lengths.getD position 0)
include landed

/-- A block of the region that is refused refuses the mount. -/
theorem mount_refused (inside : whole < fresh.length) {refusal : Refusal}
    (refused : entriesAt (disk.cut lengths) (first + (durable.length + whole)) = .error refusal) :
    Index.mount (disk.cut lengths) first blocks = .error refusal := by
  have bounded := layout.bounded
  have count : (durable ++ fresh.take whole).length = _ := length_take_whole inside
  have region : Mountable (disk.cut lengths) first blocks := layout.region.same rfl rfl
  have replays : replayed (disk.cut lengths) blocks first = .error refusal := by
    refine replayed_error ?_ (show (durable ++ fresh.take whole).length < blocks by omega) ?_
    · intro position entries held
      have below := (List.getElem?_eq_some_iff.1 held).1
      have sealable := layout.sealable_take (mem_of_getElem? held)
      have read := layout.read_cut lengths (show position < blocks by omega)
      rw [layout.media_cut_before landed held] at read
      exact entriesAt_sealed sealable.some_ sealable.valid sealable.fits read
    · rw [count]
      exact refused
  rw [mount_eq region, replay_eq]
  simp only [Index.blank, Nat.add_zero, replays]
  rfl

variable (lost : ∀ position, whole < position → lengths.getD position 0 = 0)
include lost

/-- A cut that lands so many blocks, and nothing of the next, leaves those. -/
theorem cut_whole (at_ : whole < fresh.length →
      (disk.cut lengths).media (first + (durable.length + whole)) = zeros disk.blockBytes) :
    Layout first blocks (disk.cut lengths) (durable ++ fresh.take whole) [] := by
  have bounded := layout.bounded
  have count : (durable ++ fresh.take whole).length = durable.length + min whole fresh.length := by
    rw [length_append, length_take]
  apply layout.cut_of_media
  · omega
  · exact fun _ => layout.sealable_take
  · exact fun _ _ => layout.media_cut_before landed
  · intro position past below
    by_cases last : position = durable.length + whole ∧ whole < fresh.length
    · rw [last.1, at_ last.2]
    · exact layout.media_cut_after lost (by omega) (by omega) below

/-- A cut that lands a block as if it was sealed over fewer entries leaves those. -/
theorem cut_part (inside : whole < fresh.length) (sealable : Sealable disk.blockBytes kept)
    (at_ : (disk.cut lengths).media (first + (durable.length + whole)) =
      sealOver disk.blockBytes kept) :
    Layout first blocks (disk.cut lengths) (durable ++ fresh.take whole ++ [kept]) [] := by
  have bounded := layout.bounded
  have count : (durable ++ fresh.take whole).length = _ := length_take_whole inside
  apply layout.cut_of_media
  · rw [length_append, count, length_singleton]
    omega
  · intro others member
    rcases List.mem_append.1 member with early | last
    · exact layout.sealable_take early
    · rw [List.mem_singleton.1 last]
      exact sealable
  · intro position others held
    by_cases last : position = durable.length + whole
    · rw [last, ← count, List.getElem?_concat_length] at held
      cases held
      rw [last, at_]
    · have below := (List.getElem?_eq_some_iff.1 held).1
      rw [length_append, count, length_singleton] at below
      rw [List.getElem?_append_left (by omega)] at held
      exact layout.media_cut_before landed held
  · intro position past below
    rw [length_append, count, length_singleton] at past
    exact layout.media_cut_after lost (.inl (by omega)) (by omega) below

end

/-- A barrier makes every block durable. -/
theorem flush : Layout first blocks disk.flush (durable ++ fresh) [] := by
  have count : disk.queue.length = fresh.length := by
    rw [layout.queue, length_consecutive, length_map]
  have all : fresh.take disk.queue.length = fresh := take_of_length_le count.ge
  rw [flush_eq_cut, ← all]
  refine layout.cut_whole (fun position below => ?_) (fun position past => ?_)
    fun inside => absurd count inside.ne
  · rw [getD_eq_getElem?_getD, List.getElem?_replicate, if_pos below]
    exact le_rfl
  · rw [getD_eq_getElem?_getD, List.getElem?_replicate, if_neg past.asymm]
    rfl

/-- A read sees the blocks that are held back behind those on the media. -/
theorem seen (held : (durable ++ fresh)[position]? = some entries) :
    disk.seen (first + position) = sealOver disk.blockBytes entries :=
  layout.flush.media position entries held

theorem seen_blank (past : durable.length + fresh.length ≤ position) (below : position < blocks) :
    disk.seen (first + position) = zeros disk.blockBytes :=
  layout.flush.blank position (length_append.trans_le past) below

theorem read (below : position < blocks) :
    Device.read disk (first + position) disk.blockBytes = .ok (disk.seen (first + position)) := by
  have inside : first + blocks ≤ disk.blocks := layout.region.inside
  exact Disk.read_eq (by omega)

/-- An index whose blocks are all sealed is packed over such a region. -/
theorem packed (entries : Names) :
    Packed first blocks ⟨disk, first, blocks, (durable ++ fresh).length, [], entries⟩
      (durable ++ fresh) [] where
  device := trivial
  starts := rfl
  spans := rfl
  region := layout.region
  used := rfl
  bounded := by
    rw [length_append]
    exact layout.bounded
  sealed_ := by
    intro position others held
    have below := (List.getElem?_eq_some_iff.1 held).1
    have sealable := layout.sealable others (mem_of_getElem? held)
    have bounded := layout.bounded
    rw [length_append] at below
    have read := layout.read (show position < blocks by omega)
    rw [layout.seen held] at read
    exact entriesAt_sealed sealable.some_ sealable.valid sealable.fits read
  clean := by
    intro position past below
    rw [length_append] at past
    have read := layout.read below
    rw [layout.seen_blank past below] at read
    exact entriesAt_padding read (paddingAt_zeros _)
  pending := rfl
  valid := fun _ member => absurd member not_mem_nil
  fits := Nat.zero_le _

/-- A mount finds the blocks of the region. -/
theorem mount :
    Index.mount disk first blocks = .ok ⟨disk, first, blocks, (durable ++ fresh).length, [],
      mapOf (durable ++ fresh).flatten⟩ :=
  (layout.packed ∅).mount

/-- What is found is what was sealed. -/
theorem found : Machine.found disk first blocks = (durable ++ fresh).flatten := by
  have packed := layout.packed ∅
  have replays : replayed disk blocks first = .ok (durable ++ fresh) :=
    replayed_eq packed.sealed_ packed.bounded (fun below => packed.clean _ le_rfl below)
  unfold Machine.found
  rw [replays]

/-- A block that is sealed is held back behind the others. -/
theorem hold (sealable : Sealable disk.blockBytes entries)
    (room : durable.length + fresh.length < blocks) :
    Layout first blocks (disk.hold (first + (durable.length + fresh.length))
      (sealOver disk.blockBytes entries) sealable.length_sealOver)
      durable (fresh ++ [entries]) where
  region := layout.region.same rfl rfl
  bounded := by
    rw [length_append, length_singleton]
    omega
  sealable := by
    intro others member
    rw [← append_assoc] at member
    rcases List.mem_append.1 member with earlier | last
    · exact layout.sealable others earlier
    · rw [List.mem_singleton.1 last]
      exact sealable
  media := layout.media
  blank := layout.blank
  queue := by
    change disk.queue ++ _ = _
    rw [layout.queue, map_append, consecutive_append, length_map, Nat.add_assoc]
    rfl

/-- A gentle cut leaves a beginning of the blocks, with every durable one, or a region
that cannot be mounted. -/
theorem cut (gentle : disk.Gentle lengths) :
    (∃ kept, Layout first blocks (disk.cut lengths) kept [] ∧
      durable.flatten <+: kept.flatten ∧ kept.flatten <+: (durable ++ fresh).flatten) ∨
    ∃ refusal, Index.mount (disk.cut lengths) first blocks = .error refusal := by
  obtain ⟨whole, landed, lost, untorn⟩ := gentle
  have keeps := prefix_take durable fresh whole
  by_cases all : fresh.length ≤ whole
  · refine .inl ⟨_, layout.cut_whole landed lost fun inside => absurd all (not_le.2 inside), keeps,
      ?_⟩
    simp only [take_of_length_le all, prefix_rfl]
  have inside := not_le.1 all
  obtain ⟨entries, held⟩ : ∃ entries, fresh[whole]? = some entries :=
    ⟨_, List.getElem?_eq_getElem inside⟩
  have at_ : (disk.cut lengths).media (first + (durable.length + whole)) =
      overlay (zeros disk.blockBytes) (sealOver disk.blockBytes entries)
        (lengths.getD whole 0) := layout.land_held held lengths
  have sealable := layout.sealable entries (mem_append_right durable (mem_of_getElem? held))
  rcases overlay_cases sealable (lengths.getD whole 0) with
    ⟨kept, beginning, left⟩ |
    ⟨before, entry, kept, missing, valid, some_, short, room, width, left⟩ | torn
  · rw [left] at at_
    refine .inl ?_
    rw [flatten_split held]
    by_cases nothing : kept = []
    · subst nothing
      exact ⟨_, layout.cut_whole landed lost fun _ => at_, keeps, prefix_append _ _⟩
    refine ⟨_, layout.cut_part landed lost inside (sealable.of_prefix beginning nothing) at_,
      ?_, ?_⟩
    · rw [flatten_append]
      exact keeps.trans (prefix_append _ _)
    · rw [flatten_append, flatten_singleton, prefix_append_right_inj]
      exact beginning.trans (prefix_append _ _)
  · have bounded := layout.bounded
    have read := layout.read_cut lengths (show durable.length + whole < blocks by omega)
    rw [at_, left] at read
    obtain ⟨refusal, refused⟩ : ∃ refusal, entriesAt (disk.cut lengths) (first + (durable.length +
      whole)) = .error refusal := entriesAt_torn valid some_ short room width read
    exact .inr ⟨refusal, layout.mount_refused landed inside refused⟩
  · refine absurd torn (untorn (first + durable.length + whole, _) ?_)
    rw [layout.queue, getElem?_consecutive, List.getElem?_map, held]
    rfl

end

end Layout

end FSystem.Index
