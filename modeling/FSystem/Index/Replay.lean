import FSystem.Index.Log

/-!
# What a mount replays

The entries a mount finds in a region, apart from the map it applies them to.  A mount
yields the map of exactly those entries, and a sealed block holds exactly the entries
that were put into it.
-/

namespace FSystem.Index

open Abi Blob Hash List

/-- The entries of one block, from a cursor on. -/
def entriesIn (blockBytes : Nat) (block : Bytes) :
    Nat → Nat → Except Refusal (List Entry)
  | 0, _ => .ok []
  | fuel + 1, cursor =>
    if cursor + headBytes ≤ blockBytes ∧ paddingAt block cursor = false then
      match Entry.fromSlice (block.drop cursor) with
      | .error refusal => .error refusal
      | .ok entry =>
        match entry.encodedBytes with
        | .error refusal => .error refusal
        | .ok width => (entriesIn blockBytes block fuel (cursor + width)).map (entry :: ·)
    else .ok []

/-- The map some entries leave. -/
def mapOf (entries : List Entry) : Names := entries.foldl apply ∅

@[simp] theorem mapOf_append (before after : List Entry) :
    mapOf (before ++ after) = after.foldl apply (mapOf before) :=
  foldl_append

/-- What an entry says its name means. -/
def Entry.meaning (entry : Entry) : Option Digest :=
  if entry.op = Op.remove then none else some entry.hash

/-- Whether an entry is about a name of a namespace. -/
def Entry.Concerns (entry : Entry) (namespace_ : UInt8) (name : Bytes) : Prop :=
  entry.namespace_ = namespace_ ∧ entry.name = name

instance (entry : Entry) (namespace_ : UInt8) (name : Bytes) :
    Decidable (entry.Concerns namespace_ name) :=
  inferInstanceAs (Decidable (_ ∧ _))

/-- An entry says what its own name means and nothing of any other. -/
theorem lookup_apply (entries : Names) (entry : Entry) (namespace_ : UInt8) (name : Bytes) :
    lookup (apply entries entry) namespace_ name =
      if entry.Concerns namespace_ name then entry.meaning
      else lookup entries namespace_ name := by
  unfold lookup apply Entry.meaning Entry.Concerns
  by_cases space : entry.namespace_ = namespace_
  · subst space
    by_cases removes : entry.op = Op.remove
    · simp only [removes, if_true, true_and]
      cases held : entries[entry.namespace_]? with
      | none => simp [held]
      | some names => simp [Std.TreeMap.getElem?_erase]
    · simp only [removes, if_false, true_and]
      rw [Std.TreeMap.getElem?_insert_self, Std.TreeMap.getD_eq_getD_getElem?]
      dsimp only
      rw [Std.TreeMap.getElem?_insert]
      cases held : entries[entry.namespace_]? with
      | none | some names => simp
  · simp only [space, false_and, if_false]
    by_cases removes : entry.op = Op.remove
    · simp only [removes, if_true]
      cases held : entries[entry.namespace_]? with
      | none => rfl
      | some names => simp [Std.TreeMap.getElem?_insert, space]
    · simp [removes, Std.TreeMap.getElem?_insert, space]

/-- Entries about other names leave a name as it is. -/
theorem lookup_foldl
    {namespace_ : UInt8}
    {name : Bytes}
    {others : List Entry}
    (apart : ∀ other ∈ others, ¬other.Concerns namespace_ name)
    (names : Names) :
    lookup (others.foldl apply names) namespace_ name = lookup names namespace_ name := by
  induction others generalizing names with
  | nil => rfl
  | cons other rest ih =>
    rw [foldl_cons,
      ih fun later member => apart later (mem_cons_of_mem _ member),
      lookup_apply, if_neg (apart other mem_cons_self)]

/-- The last entry about a name is what the map says of it. -/
theorem lookup_mapOf {before after : List Entry} {entry : Entry}
    (last : ∀ other ∈ after, ¬other.Concerns entry.namespace_ entry.name) :
    lookup (mapOf (before ++ entry :: after)) entry.namespace_ entry.name = entry.meaning := by
  rw [mapOf_append, foldl_cons, lookup_foldl last, lookup_apply, if_pos ⟨rfl, rfl⟩]

theorem replayBlock_eq (blockBytes : Nat) (block : Bytes) (fuel cursor : Nat) (names : Names) :
    replayBlock blockBytes block fuel cursor names =
      (entriesIn blockBytes block fuel cursor).map (foldl apply names) := by
  induction fuel generalizing cursor names with
  | zero => rfl
  | succ fuel ih =>
    unfold replayBlock entriesIn
    split
    · cases Entry.fromSlice (block.drop cursor) with
      | error refusal => rfl
      | ok entry =>
        dsimp only
        cases entry.encodedBytes with
        | error refusal => rfl
        | ok width =>
          dsimp only
          rw [ih]
          cases entriesIn blockBytes block fuel (cursor + width) with
          | error refusal | ok rest => rfl
    · rfl

section Region

variable {D : Type} [Device D]

/-- The entries of one block of a device, or nothing where the log ends. -/
def entriesAt (device : D) (block : Nat) : Except Refusal (Option (List Entry)) :=
  match Device.read device block (Device.blockBytes device) with
  | .error refusal => .error refusal
  | .ok bytes =>
    if paddingAt bytes 0 then .ok none
    else
      (entriesIn (Device.blockBytes device) bytes (Device.blockBytes device + 1) 0).map some

/-- The entries a replay finds in at most so many blocks, block by block. -/
def replayed (device : D) : Nat → Nat → Except Refusal (List (List Entry))
  | 0, _ => .ok []
  | left + 1, block =>
    match entriesAt device block with
    | .error refusal => .error refusal
    | .ok none => .ok []
    | .ok (some entries) => (replayed device left (block + 1)).map (entries :: ·)

/-- A replay counts the blocks it finds and applies their entries in order. -/
theorem replay_eq (left : Nat) (index : Index D) :
    index.replay left = (replayed index.device left (index.first + index.used)).map fun blocks =>
      { index with
        used := index.used + blocks.length
        entries := blocks.flatten.foldl apply index.entries } := by
  induction left generalizing index with
  | zero => rfl
  | succ left ih =>
    unfold replay replayed entriesAt
    dsimp only [readBlock, blockBytes]
    cases Device.read index.device (index.first + index.used) (Device.blockBytes index.device) with
    | error refusal => rfl
    | ok block =>
      by_cases padding : paddingAt block 0 = true
      · simp only [padding, if_true]
        rfl
      simp only [padding, if_false, Bool.false_eq_true]
      rw [replayBlock_eq]
      cases entriesIn (Device.blockBytes index.device) block
          (Device.blockBytes index.device + 1) 0 with
      | error refusal => rfl
      | ok entries =>
        simp only [Except.map]
        rw [ih]
        cases replayed index.device left (index.first + index.used + 1) with
        | error refusal => rfl
        | ok rest =>
          simp only [Except.map, length_cons, flatten_cons, foldl_append]
          rw [Nat.add_assoc, Nat.add_comm 1]

variable {found : List (List Entry)} {left block : Nat}

/-- What a replay finds is in the blocks it read. -/
theorem entriesAt_of_replayed {device : D} (replays : replayed device left block = .ok found) :
    found.length ≤ left ∧ ∀ position entries, found[position]? = some entries →
      entriesAt device (block + position) = .ok (some entries) := by
  revert replays
  fun_induction replayed device left block generalizing found with
  | case1 | case3 =>
    rintro ⟨⟩
    exact ⟨Nat.zero_le _, fun _ _ absent => by simp at absent⟩
  | case2 => nofun
  | case4 left block entries at_ ih =>
    cases later : replayed device left (block + 1) with
    | error refusal => nofun
    | ok rest => ?_
    rintro ⟨⟩
    obtain ⟨bounded, held⟩ := ih later
    refine ⟨Nat.succ_le_succ bounded, fun position others at_position => ?_⟩
    cases position with
    | zero =>
      cases at_position
      exact at_
    | succ position =>
      rw [← Nat.add_assoc, Nat.add_right_comm]
      exact held position others at_position

section

variable {device : D} (held : ∀ position entries, found[position]? = some entries →
  entriesAt device (block + position) = .ok (some entries))
include held

/-- A replay finds what the first blocks hold, and goes on after them. -/
theorem replayed_held :
    replayed device (found.length + left) block =
      (replayed device left (block + found.length)).map (found ++ ·) := by
  induction found generalizing block with
  | nil =>
    rw [length_nil, Nat.zero_add, Nat.add_zero]
    cases replayed device left block <;> rfl
  | cons entries rest ih =>
    have here := held 0 entries rfl
    rw [Nat.add_zero] at here
    rw [length_cons, Nat.succ_add, replayed, here, ih, Nat.add_assoc, Nat.add_comm 1]
    · cases replayed device left (block + (rest.length + 1)) <;> rfl
    · intro position others at_position
      rw [Nat.add_assoc, Nat.add_comm 1]
      exact held (position + 1) others at_position

/-- A replay finds what the blocks it reads hold. -/
theorem replayed_eq (bounded : found.length ≤ left)
    (ends : found.length < left → entriesAt device (block + found.length) = .ok none) :
    replayed device left block = .ok found := by
  obtain ⟨more, rfl⟩ := Nat.exists_eq_add_of_le bounded
  rw [replayed_held held]
  cases more with
  | zero => exact congrArg Except.ok (append_nil found)
  | succ more =>
    rw [replayed, ends (by omega)]
    exact congrArg Except.ok (append_nil found)

/-- A block that is refused, behind blocks that are not, refuses the replay. -/
theorem replayed_error {refusal : Refusal} (inside : found.length < left)
    (refused : entriesAt device (block + found.length) = .error refusal) :
    replayed device left block = .error refusal := by
  obtain ⟨more, rfl⟩ := Nat.exists_eq_add_of_lt inside
  rw [Nat.add_assoc, replayed_held held, replayed, refused]
  rfl

end

end Region

section Packing

/-- Entries as a block holds them, one behind the other. -/
def encode (entries : List Entry) : Bytes := entries.flatMap Entry.toBytes

@[simp] theorem encode_nil : encode [] = [] := rfl

@[simp] theorem encode_cons (entry : Entry) (rest : List Entry) :
    encode (entry :: rest) = entry.toBytes ++ encode rest := rfl

@[simp] theorem encode_append (entries rest : List Entry) :
    encode (entries ++ rest) = encode entries ++ encode rest :=
  flatMap_append

/-- Every entry takes at least one byte. -/
theorem length_le_encode (entries : List Entry) : entries.length ≤ (encode entries).length := by
  induction entries with
  | nil => exact Nat.zero_le _
  | cons entry rest ih =>
    simp only [length_cons, encode_cons, length_append, Entry.length_toBytes, headBytes]
    omega

variable {entries : List Entry}

theorem encode_ne_nil (some_ : entries ≠ []) : encode entries ≠ [] := by
  intro empty
  have bound := length_le_encode entries
  rw [empty] at bound
  exact some_ (List.length_eq_zero_iff.1 (Nat.le_zero.1 bound))

theorem paddingAt_append (before rest : Bytes) :
    paddingAt (before ++ rest) before.length = paddingAt rest 0 := by
  unfold paddingAt
  rw [Bytes.slice_append_right _ _ _ _ le_rfl, Nat.sub_self, length_append]
  by_cases room : 4 ≤ rest.length
  · rw [if_pos (by omega), if_pos (by omega)]
  · rw [if_neg (by omega), if_neg (by omega)]

theorem paddingAt_zeros (length : Nat) : paddingAt (Bytes.zeros length) 0 = true := by
  unfold paddingAt
  split
  · next room =>
      rw [Bytes.length_zeros] at room
      simp only [Bytes.slice, Bytes.zeros, drop_zero, take_replicate, beq_iff_eq]
      rw [Nat.min_eq_left (by omega)]
  · rfl

/-- A block that begins with an entry is not where the log ends. -/
theorem paddingAt_encode (some_ : entries ≠ []) (rest : Bytes) :
    paddingAt (encode entries ++ rest) 0 = false := by
  obtain ⟨-, -, rfl⟩ := exists_cons_of_ne_nil some_
  rw [encode_cons, append_assoc]
  exact Entry.paddingAt_toBytes _

section

variable {entries : List Entry} (valid : ∀ entry ∈ entries, entry.Valid)

include valid

/-- Entries that are encoded in a block are found, and then whatever follows them. -/
theorem entriesIn_encode (before rest : Bytes) {blockBytes : Nat}
    (inside : before.length + (encode entries).length ≤ blockBytes) (fuel : Nat) :
    entriesIn blockBytes (before ++ (encode entries ++ rest)) (fuel + entries.length)
        before.length =
      (entriesIn blockBytes (before ++ (encode entries ++ rest)) fuel
        (before.length + (encode entries).length)).map (entries ++ ·) := by
  induction entries generalizing before with
  | nil =>
    simp only [encode_nil, nil_append, length_nil, Nat.add_zero]
    cases entriesIn blockBytes (before ++ rest) fuel before.length with
    | error refusal | ok found => rfl
  | cons entry others ih =>
    have first := valid entry mem_cons_self
    have remaining := ih
      (fun other member => valid other (mem_cons_of_mem _ member))
      (before ++ entry.toBytes) (by
        simp only [encode_cons, length_append] at inside ⊢
        omega)
    have same : before ++ entry.toBytes ++ (encode others ++ rest) =
        before ++ (encode (entry :: others) ++ rest) := by
      simp [encode_cons]
    rw [same, length_append, Entry.length_toBytes] at remaining
    rw [length_cons, ← Nat.add_assoc, entriesIn, if_pos, ← same, append_assoc,
      drop_left, Entry.Valid.fromSlice_toBytes first]
    · dsimp only
      rw [first.encodedBytes_eq]
      dsimp only
      rw [← append_assoc, same, remaining, encode_cons, length_append,
        Entry.length_toBytes, Nat.add_assoc _ _ (encode others).length]
      cases entriesIn blockBytes (before ++ (entry.toBytes ++ encode others ++ rest)) fuel
          (before.length + (headBytes + entry.name.length + (encode others).length)) with
      | error refusal => rfl
      | ok found => rfl
    · constructor
      · simp only [encode_cons, length_append, Entry.length_toBytes] at inside
        omega
      · rw [paddingAt_append, encode_cons, append_assoc]
        exact Entry.paddingAt_toBytes _

/-- A block that was sealed over some entries holds exactly those. -/
theorem entriesIn_sealed {blockBytes : Nat} (inside : (encode entries).length ≤ blockBytes) :
    entriesIn blockBytes
        (encode entries ++ Bytes.zeros (blockBytes - (encode entries).length))
        (blockBytes + 1) 0 = .ok entries := by
  have count := length_le_encode entries
  have split : blockBytes + 1 = (blockBytes - entries.length + 1) + entries.length := by omega
  have found := entriesIn_encode valid [] (Bytes.zeros (blockBytes - (encode entries).length))
    (by simpa using inside) (blockBytes - entries.length + 1)
  rw [← split] at found
  simp only [nil_append, length_nil, Nat.zero_add] at found
  rw [found, entriesIn, if_neg]
  · simp [Except.map]
  · intro guard
    rw [paddingAt_append, paddingAt_zeros] at guard
    exact Bool.noConfusion guard.2

/-- A block whose last entry was cut short within its first forty bytes is refused. -/
theorem entriesIn_torn
    {entry : Entry}
    {kept lost : Nat}
    (some_ : 0 < kept)
    (short : kept ≤ 40)
    (room : headBytes ≤ kept + lost) :
    ∃ refusal, entriesIn ((encode entries).length + kept + lost)
      (encode entries ++ (entry.toBytes.take kept ++ Bytes.zeros lost))
      ((encode entries).length + kept + lost + 1) 0 = .error refusal := by
  obtain ⟨refusal, refused⟩ := @Entry.fromSlice_torn entry kept lost some_ short room
  have count := length_le_encode entries
  have split : (encode entries).length + kept + lost + 1 =
      ((encode entries).length + kept + lost - entries.length + 1) + entries.length := by omega
  have found := entriesIn_encode valid [] (entry.toBytes.take kept ++ Bytes.zeros lost)
    (show [].length + (encode entries).length ≤ (encode entries).length + kept + lost by
      simp only [length_nil]
      omega)
    ((encode entries).length + kept + lost - entries.length + 1)
  rw [← split] at found
  simp only [nil_append, length_nil, Nat.zero_add] at found
  refine ⟨refusal, ?_⟩
  rw [found, entriesIn, if_pos, drop_left, refused]
  · rfl
  · constructor
    · omega
    · rw [paddingAt_append]
      exact Entry.paddingAt_torn some_ room

end

variable {D : Type} [Device D]

variable {block : Nat}

theorem entriesAt_padding {device : D} {bytes : Bytes}
    (read : Device.read device block (Device.blockBytes device) = .ok bytes)
    (padding : paddingAt bytes 0 = true) : entriesAt device block = .ok none := by
  unfold entriesAt
  rw [read]
  exact if_pos padding

/-- A block that reads as sealed over some entries holds exactly those. -/
theorem entriesAt_sealed
    {device : D}
    (some_ : entries ≠ [])
    (valid : ∀ entry ∈ entries, entry.Valid)
    (inside : (encode entries).length ≤ Device.blockBytes device)
    (read : Device.read device block (Device.blockBytes device) =
      .ok (encode entries ++ Bytes.zeros (Device.blockBytes device - (encode entries).length))) :
    entriesAt device block = .ok (some entries) := by
  unfold entriesAt
  rw [read]
  dsimp only
  rw [paddingAt_encode some_, if_neg Bool.false_ne_true, entriesIn_sealed valid inside]
  rfl

/-- A block whose last entry was cut short within its first forty bytes is refused. -/
theorem entriesAt_torn
    {device : D}
    (valid : ∀ entry ∈ entries, entry.Valid)
    {entry : Entry}
    {kept lost : Nat}
    (some_ : 0 < kept)
    (short : kept ≤ 40)
    (room : headBytes ≤ kept + lost)
    (width : Device.blockBytes device = (encode entries).length + kept + lost)
    (read : Device.read device block (Device.blockBytes device) =
      .ok (encode entries ++ (entry.toBytes.take kept ++ Bytes.zeros lost))) :
    ∃ refusal, entriesAt device block = .error refusal := by
  obtain ⟨refusal, refused⟩ := @entriesIn_torn entries valid entry kept lost some_ short room
  have begun : paddingAt (encode entries ++ (entry.toBytes.take kept ++ Bytes.zeros lost)) 0 =
      false := by
    by_cases none_ : entries = []
    · subst none_
      exact Entry.paddingAt_torn some_ room
    · exact paddingAt_encode none_ _
  refine ⟨refusal, ?_⟩
  unfold entriesAt
  rw [read]
  dsimp only
  rw [begun, if_neg Bool.false_ne_true, width, refused]
  rfl

/-- What a block holds depends on what it reads as. -/
theorem entriesAt_congr {device other : D}
    (blockBytes : Device.blockBytes other = Device.blockBytes device)
    (read : Device.read other block (Device.blockBytes device) =
      Device.read device block (Device.blockBytes device)) :
    entriesAt other block = entriesAt device block := by
  unfold entriesAt
  rw [blockBytes, read]

end Packing

end FSystem.Index
