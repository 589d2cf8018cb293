import FSystem.Blob.Holdings

/-!
# An extent is an array of bytes

An extent represents an array when its pieces are the hashes of the array's blocks and the
store holds the blocks.  A read of such an extent is a read of the array, and a write
replaces the blocks it meets, one after another, by those of the written array.
-/

namespace FSystem.Blob

open Abi Hash Bytes List Nat

/-- A read of an array of bytes. -/
def arrayRead (array : Bytes) (start length : Nat) : Except Refusal Bytes :=
  if array.length < start + length then .error .address else .ok (slice array start length)

section DivCeil

variable {width : Nat}

/-- The rounded quotient counts the multiples below the dividend. -/
theorem lt_divCeil (positive : 0 < width) (length index : Nat) :
    index < divCeil length width ↔ index * width < length := by
  have whole := div_add_mod' length width
  rw [divCeil]
  split
  next left =>
    have apart : index * width ≠ length := by
      rintro rfl
      exact left.ne' (mul_mod_left index width)
    rw [Nat.lt_succ_iff, le_div_iff_mul_le positive]
    omega
  next none =>
    rw [← Nat.mul_lt_mul_right positive]
    omega

theorem le_divCeil_mul (positive : 0 < width) (length : Nat) :
    length ≤ divCeil length width * width :=
  Nat.le_of_not_lt ((lt_divCeil positive length _).not.mp (lt_irrefl _))

variable {length : Nat}

theorem divCeil_eq_one (some : 0 < length) (short : length ≤ width) : divCeil length width = 1 := by
  have positive : 0 < width := lt_of_lt_of_le some short
  apply le_antisymm
  · apply Nat.le_of_not_lt
    rw [lt_divCeil positive]
    omega
  · apply succ_le_of_lt
    rw [lt_divCeil positive]
    omega

/-- Where some bytes begin and end, counted in pieces. -/
theorem div_pieces (positive : 0 < width) (some : 0 < length) (start : Nat) :
    start / width ≤ (start + length - 1) / width ∧ start / width * width ≤ start ∧
      start < (start / width + 1) * width :=
  ⟨Nat.div_le_div_right (by omega), div_mul_le_self start width,
    (div_lt_iff_lt_mul positive).mp (lt_succ_self _)⟩

/-- A width cut down to the dividend has the same rounded quotient. -/
theorem divCeil_min (some : 0 < length) :
    divCeil length (min length width) = divCeil length width := by
  rcases le_total length width with short | long
  · rw [min_eq_left short, divCeil_eq_one some short, divCeil_eq_one some (le_refl length)]
  · rw [min_eq_right long]

end DivCeil

variable {index : Nat}

section Blocks

variable {width : Nat} (array bytes : Bytes) {start : Nat}

theorem length_block (index : Nat) :
    (block width array index).length = min (array.length - index * width) width := by
  rw [block, slice, length_take, length_drop, min_comm]

/-- The array after some of a write's bytes have reached it. -/
def partway (start : Nat) (bytes : Bytes) (count : Nat) : Bytes :=
  splice array start (bytes.take count)

theorem partway_of_le {count : Nat} (all : bytes.length ≤ count) :
    partway array start bytes count = splice array start bytes := by
  rw [partway, take_of_length_le all]

theorem partway_zero : partway array start bytes 0 = array := by
  simp [partway, splice]

/-- Blocks that agree byte by byte are equal. -/
theorem block_congr {first second : Bytes}
    (same : ∀ offset < width, first[index * width + offset]? = second[index * width + offset]?) :
    block width first index = block width second index := by
  apply ext_getElem?
  intro offset
  rw [block, block, getElem?_slice, getElem?_slice]
  by_cases inside : offset < width
  · rw [if_pos inside, if_pos inside]
    exact same offset inside
  · rw [if_neg inside, if_neg inside]

section

variable (fits : start + bytes.length ≤ array.length)

include fits

theorem length_partway (count : Nat) : (partway array start bytes count).length = array.length := by
  apply length_splice
  rw [length_take]
  omega

theorem getElem?_partway (count index : Nat) :
    (partway array start bytes count)[index]? =
      if start ≤ index ∧ index < start + min count bytes.length then bytes[index - start]?
      else array[index]? := by
  rw [partway, getElem?_splice _ _ _ (by omega), length_take]
  by_cases within : start ≤ index ∧ index < start + min count bytes.length
  · rw [if_pos within, if_pos within, getElem?_take, if_pos (by omega)]
  · rw [if_neg within, if_neg within]

/-- A whole write over a part of it. -/
theorem splice_partway (count : Nat) :
    splice (partway array start bytes count) start bytes = splice array start bytes := by
  apply ext_getElem?
  intro index
  rw [getElem?_splice _ _ _ (by rw [length_partway array bytes fits]; omega),
    getElem?_splice _ _ _ (by omega), getElem?_partway array bytes fits]
  by_cases within : start ≤ index ∧ index < start + bytes.length
  · rw [if_pos within, if_pos within]
  · rw [if_neg within, if_neg within, if_neg (by omega)]

variable {array bytes} {index : Nat}

omit fits in
theorem getElem?_block_splice (inside : start ≤ array.length) (offset : Nat) :
    (block width (splice array start bytes) index)[offset]? =
      if offset < width then
        if start ≤ index * width + offset ∧ index * width + offset < start + bytes.length then
          bytes[index * width + offset - start]?
        else array[index * width + offset]?
      else none := by
  rw [block, getElem?_slice, getElem?_splice _ _ _ inside]

/-- A block that a write covers is the block's share of the bytes. -/
theorem block_splice_covered (begins : start ≤ index * width)
    (ends : min array.length (index * width + width) ≤ start + bytes.length) :
    block width (splice array start bytes) index =
      slice bytes (index * width - start) (min (array.length - index * width) width) := by
  apply ext_getElem?
  intro offset
  rw [getElem?_block_splice (by omega), getElem?_slice]
  by_cases within : offset < min (array.length - index * width) width
  · rw [if_pos (by omega), if_pos (by omega), if_pos within]
    congr 1
    omega
  · rw [if_neg within]
    by_cases inside : offset < width
    · rw [if_pos inside, if_neg (by omega), getElem?_eq_none (by omega)]
    · rw [if_neg inside]

/-- A block a write meets is the old block with its share of the bytes over it. -/
theorem block_splice_met
    {first last : Nat}
    (near : start < index * width + width)
    (far : index * width < start + bytes.length)
    (isFirst : first = max start (index * width) - index * width)
    (isLast : last = min (start + bytes.length)
      (index * width + min (array.length - index * width) width) - index * width) :
    block width (splice array start bytes) index =
      splice (block width array index) first
        (slice bytes (index * width + first - start) (last - first)) := by
  apply ext_getElem?
  intro offset
  rw [getElem?_block_splice (by omega), getElem?_splice _ _ _ (by
      rw [length_block]
      omega),
    length_slice _ _ _ (by omega), getElem?_slice, block,
    getElem?_slice]
  by_cases within : first ≤ offset ∧ offset < first + (last - first)
  · rw [if_pos (by omega), if_pos (by omega), if_pos within, if_pos (by omega)]
    congr 1
    omega
  · rw [if_neg within]
    by_cases inside : offset < width
    · rw [if_pos inside, if_pos inside, if_neg (by omega)]
    · rw [if_neg inside, if_neg inside]

/-- What has reached a block is all the write does to it. -/
theorem block_partway_after :
    block width (partway array start bytes ((index + 1) * width - start)) index =
      block width (splice array start bytes) index := by
  rw [← partway_of_le array bytes (le_refl _)]
  apply block_congr
  intro offset inside
  rw [getElem?_partway array bytes fits, getElem?_partway array bytes fits, succ_mul]
  exact if_congr (by omega) rfl rfl

/-- What reaches one block changes no other. -/
theorem block_partway_other {other : Nat} (apart : other ≠ index) :
    block width (partway array start bytes ((index + 1) * width - start)) other =
      block width (partway array start bytes (index * width - start)) other := by
  have outside : (other + 1) * width ≤ index * width ∨ (index + 1) * width ≤ other * width := by
    rcases lt_or_gt_of_ne apart with below | above
    · exact .inl (mul_le_mul_right width below)
    · exact .inr (mul_le_mul_right width above)
  rw [succ_mul, succ_mul] at outside
  apply block_congr
  intro offset inside
  rw [getElem?_partway array bytes fits, getElem?_partway array bytes fits, succ_mul]
  exact if_congr (by omega) rfl rfl

end

end Blocks

/-- An extent's pieces are the array's blocks, and the store holds them. -/
structure Represents {D : Type} [Device D] (store : Store D) (extent : Extent)
    (array : Bytes) : Prop where
  length : array.length = extent.extentBytes
  short : array.length < 2 ^ 64
  few : extent.pieces.length ≤ piecesMax
  named : ∀ index < extent.pieces.length,
    extent.piece index = sha256 (block extent.pieceBytes array index)
  held : ∀ index < extent.pieces.length,
    ∃ kind, store.Holds kind (block extent.pieceBytes array index)

namespace Represents

variable {D : Type} [Device D] {store after : Store D} {extent : Extent}
  {array : Bytes}

section

variable (represents : Represents store extent array)

include represents

theorem grows (grows : store.Grows after) : Represents after extent array := by
  refine { represents with held := ?_ }
  intro index inside
  obtain ⟨kind, holds⟩ := represents.held index inside
  exact ⟨kind, grows _ _ holds⟩

/-- There is a piece at every offset inside the array. -/
theorem lt_pieces (inside : index * extent.pieceBytes < array.length) :
    index < extent.pieces.length := by
  rw [extent.tiled, lt_divCeil extent.positive, ← represents.length]
  exact inside

theorem get_piece [LawfulDevice D] (sound : store.Sound)
    (inside : index * extent.pieceBytes < array.length) :
    store.get (extent.piece index) extent.pieceBytes =
      .ok (block extent.pieceBytes array index) := by
  have isPiece := represents.lt_pieces inside
  obtain ⟨kind, holds⟩ := represents.held index isPiece
  rw [represents.named index isPiece]
  apply holds.get_ok sound
  rw [length_block]
  exact min_le_right _ _

end

/-- Replacing one piece replaces that block of the array. -/
theorem setPiece
    (represents : Represents store extent array)
    {kind : Kind}
    {written : Bytes}
    (length : written.length = array.length)
    (others : ∀ other, other ≠ index → block extent.pieceBytes written other =
      block extent.pieceBytes array other)
    (holds : store.Holds kind (block extent.pieceBytes written index)) :
    Represents store
      (extent.setPiece index (sha256 (block extent.pieceBytes written index))) written := by
  have sameCount : ∀ hash, (extent.setPiece index hash).pieces.length =
      extent.pieces.length := fun hash => length_set
  refine ⟨length.trans represents.length, length ▸ represents.short, ?_, ?_, ?_⟩
  · rw [sameCount]
    exact represents.few
  · intro other inside
    rw [sameCount] at inside
    rw [Extent.piece, Extent.setPiece, getD_eq_getElem?_getD, getElem?_set]
    by_cases same : index = other
    · rw [if_pos same, if_pos (same ▸ inside), same, Option.getD_some]
    · rw [if_neg same, others other (Ne.symm same), ← represents.named other inside,
        Extent.piece, getD_eq_getElem?_getD]
  · intro other inside
    rw [sameCount] at inside
    by_cases same : other = index
    · rw [same]
      exact ⟨kind, holds⟩
    · obtain ⟨kind, held⟩ := represents.held other inside
      refine ⟨kind, ?_⟩
      have sameBlock := others other same
      exact sameBlock ▸ held

/-- An extent with the same pieces and a width that cuts the same blocks. -/
theorem of_pieces
    (represents : Represents store extent array)
    {opened : Extent}
    (length : array.length = opened.extentBytes)
    (pieces : opened.pieces = extent.pieces)
    (sameBlocks : ∀ index < extent.pieces.length,
      block opened.pieceBytes array index = block extent.pieceBytes array index) :
    Represents store opened array := by
  refine ⟨length, represents.short, pieces ▸ represents.few, ?_, ?_⟩
  · intro index inside
    rw [pieces] at inside
    rw [Extent.piece, pieces, sameBlocks index inside]
    exact represents.named index inside
  · intro index inside
    rw [pieces] at inside
    rw [sameBlocks index inside]
    exact represents.held index inside

section Reading

variable [LawfulDevice D] {start stop : Nat}

/-- The share of a read in one piece. -/
theorem slice_block
    {width pieceAt pieceLen : Nat}
    (isAt : pieceAt = index * width)
    (isLen : pieceLen = (block width array index).length)
    (fits : stop ≤ array.length)
    (near : start < pieceAt + width)
    (far : pieceAt < stop) :
    slice (block width array index) (max start pieceAt - pieceAt)
        (min stop (pieceAt + pieceLen) - pieceAt - (max start pieceAt - pieceAt)) =
      slice array (max start pieceAt) (min stop (pieceAt + width) - max start pieceAt) := by
  rw [length_block, ← isAt] at isLen
  rw [block, ← isAt, slice_slice]
  congr 1
  · omega
  · omega

/-- The pieces from one on hold the rest of a read. -/
theorem readFrom_eq
    (represents : Represents store extent array)
    (sound : store.Sound)
    (fits : stop ≤ array.length)
    (some : start < stop)
    (steps index : Nat)
    (last : index + steps = (stop - 1) / extent.pieceBytes + 1)
    (near : start < (index + 1) * extent.pieceBytes) :
    extent.readFrom store start stop steps index =
      .ok (slice array (max start (index * extent.pieceBytes))
        (stop - max start (index * extent.pieceBytes))) := by
  induction steps generalizing index with
  | zero =>
    have past : stop - 1 < index * extent.pieceBytes := by
      rw [← div_lt_iff_lt_mul extent.positive]
      omega
    rw [Extent.readFrom, show stop - max start (index * extent.pieceBytes) = 0 by omega,
      slice, take_zero]
  | succ steps ih =>
    have reached : index * extent.pieceBytes ≤ stop - 1 := by
      rw [← le_div_iff_mul_le extent.positive]
      omega
    have later := ih (index + 1) (by omega) (lt_of_lt_of_le near (mul_le_mul_right _ (le_succ _)))
    rw [Extent.readFrom]
    rw [represents.get_piece sound (by omega), later]
    dsimp only
    rw [succ_mul] at near later ⊢
    rw [slice_block rfl rfl fits near (by omega)]
    congr 1
    by_cases ends : stop ≤ index * extent.pieceBytes + extent.pieceBytes
    · rw [min_eq_left ends,
        show stop - max start (index * extent.pieceBytes + extent.pieceBytes) = 0 by omega,
        slice, slice, take_zero, append_nil]
    rw [min_eq_right (by omega)]
    have joined := slice_append_slice array (max start (index * extent.pieceBytes))
      (index * extent.pieceBytes + extent.pieceBytes - max start (index * extent.pieceBytes))
    rw [show max start (index * extent.pieceBytes + extent.pieceBytes) =
      index * extent.pieceBytes + extent.pieceBytes by omega]
    rw [show max start (index * extent.pieceBytes) +
      (index * extent.pieceBytes + extent.pieceBytes -
        max start (index * extent.pieceBytes)) =
          index * extent.pieceBytes + extent.pieceBytes by omega] at joined
    rw [joined]
    congr 1
    omega

/-- A read of the extent is a read of the array. -/
theorem read_eq (represents : Represents store extent array) (sound : store.Sound)
    (start length : Nat) : extent.read store start length = arrayRead array start length := by
  have short := represents.short
  rw [Extent.read, arrayRead, ← represents.length]
  dsimp only
  by_cases outside : array.length < start + length
  · rw [if_pos (.inr outside), if_pos outside]
  rw [if_neg (by omega), if_neg outside]
  by_cases nothing : length = 0
  · rw [if_pos nothing, nothing, slice, take_zero]
  obtain ⟨ordered, before, near⟩ := div_pieces extent.positive (pos_of_ne_zero nothing) start
  rw [if_neg nothing, represents.readFrom_eq sound (by omega) (by omega) _ _
    (by omega) near, max_eq_left before, Nat.add_sub_cancel_left]
  dsimp only
  rw [length_slice _ _ _ (by omega), if_neg (not_not.mpr rfl)]

end Reading

section Writing

variable [LawfulDevice D] {known : Bytes → Prop} {start : Nat} {bytes : Bytes} {index : Nat}

/-- A piece that a write meets is rewritten to the block of the written array. -/
theorem rewritten_eq
    (represents : Represents store extent array)
    (sound : store.Sound)
    (fits : start + bytes.length ≤ array.length)
    (near : start < index * extent.pieceBytes + extent.pieceBytes)
    (far : index * extent.pieceBytes < start + bytes.length) :
    extent.rewritten store start (start + bytes.length) bytes index =
      .ok (block extent.pieceBytes (splice array start bytes) index) := by
  rw [Extent.rewritten, ← represents.length, represents.get_piece sound (by omega)]
  dsimp only
  rw [length_block, if_neg (not_not.mpr rfl)]
  by_cases whole : max start (index * extent.pieceBytes) - index * extent.pieceBytes = 0 ∧
      min (start + bytes.length) (index * extent.pieceBytes +
        min (array.length - index * extent.pieceBytes) extent.pieceBytes) -
          index * extent.pieceBytes =
        min (array.length - index * extent.pieceBytes) extent.pieceBytes
  · rw [if_pos whole, block_splice_covered fits (by omega) (by omega), whole.1, add_zero]
  · rw [if_neg whole, block_splice_met fits near far rfl rfl]

/-- What a write leaves: a store that keeps what it held, and the written array, or a beginning
of the write if the store refused. -/
structure Wrote (known : Bytes → Prop) (before : Store D) (array : Bytes) (start : Nat)
    (bytes : Bytes) (result : Except Refusal Cost × Extent × Store D) : Prop where
  filled : result.2.2.Filled known
  grows : before.Grows result.2.2
  ok : ∀ cost, result.1 = .ok cost → Represents result.2.2 result.2.1 (splice array start bytes)
  error : ∀ refusal, result.1 = .error refusal →
    ∃ count, Represents result.2.2 result.2.1 (partway array start bytes count)

theorem Wrote.of_grows {before middle : Store D} {result : Except Refusal Cost × Extent × Store D}
    (grows : before.Grows middle) (wrote : Wrote known middle array start bytes result) :
    Wrote known before array start bytes result :=
  { wrote with grows := grows.trans wrote.grows }

/-- Rewriting the pieces from one on brings what is left of a write to the array. -/
theorem writeFrom_wrote
    (collisionFree : CollisionFree known)
    (fits : start + bytes.length ≤ array.length)
    (some : 0 < bytes.length)
    (width steps index : Nat)
    (represents : Represents store extent
      (partway array start bytes (index * extent.pieceBytes - start)))
    (isWidth : width = extent.pieceBytes)
    (filled : store.Filled known)
    (last : index + steps = (start + bytes.length - 1) / width + 1)
    (near : start < (index + 1) * width)
    (areKnown : ∀ later, index ≤ later → later ≤ (start + bytes.length - 1) / width →
      known (block width (splice array start bytes) later))
    (cost : Cost) :
    Wrote known store array start bytes
      (Extent.writeFrom start (start + bytes.length) bytes steps index extent store cost) := by
  induction steps generalizing index extent store cost with
  | zero =>
    have past : start + bytes.length - 1 < index * width := by
      rw [← div_lt_iff_lt_mul (isWidth ▸ extent.positive)]
      omega
    refine ⟨filled, Store.Grows.refl store, fun _ _ => ?_, nofun⟩
    rw [← isWidth, partway_of_le _ _ (by omega)] at represents
    exact represents
  | succ steps ih =>
    subst isWidth
    have reached : index * extent.pieceBytes ≤ start + bytes.length - 1 := by
      rw [← le_div_iff_mul_le extent.positive]
      omega
    have nearNext : start < (index + 1 + 1) * extent.pieceBytes :=
      lt_of_lt_of_le near (mul_le_mul_right _ (le_succ _))
    rw [succ_mul] at near
    have sameLength := length_partway array bytes fits
    have content : extent.rewritten store start (start + bytes.length) bytes index =
        .ok (block extent.pieceBytes (splice (partway array start bytes
          (index * extent.pieceBytes - start)) start bytes) index) := by
      apply represents.rewritten_eq filled.sound _ near
      · omega
      · rw [sameLength]
        exact fits
    rw [splice_partway array bytes fits] at content
    have isKnown := areKnown index (le_refl _) (by omega)
    have isShort : (block extent.pieceBytes (splice array start bytes)
        index).length < 2 ^ 64 := by
      have short := represents.short
      rw [sameLength] at short
      rw [length_block, length_splice _ _ _ fits]
      omega
    rw [Extent.writeFrom, content]
    dsimp only
    have filledNext := filled.put Kind.chunk.code isKnown isShort
    have growsNext := Store.put_grows filled.sound Kind.chunk.code
      (block extent.pieceBytes (splice array start bytes) index)
    rcases stored : store.put Kind.chunk.code (block extent.pieceBytes
      (splice array start bytes) index) with ⟨_ | hash, next⟩
    · rw [stored] at filledNext growsNext
      exact ⟨filledNext, growsNext, nofun, fun _ _ => ⟨_, represents.grows growsNext⟩⟩
    rw [stored] at filledNext growsNext
    obtain ⟨same, kind, holds⟩ := filled.put_holds collisionFree isKnown isShort stored
    have replaced : Represents next (extent.setPiece index (sha256 (block
        extent.pieceBytes (partway array start bytes
          ((index + 1) * extent.pieceBytes - start)) index)))
        (partway array start bytes ((index + 1) * extent.pieceBytes - start)) := by
      apply (represents.grows growsNext).setPiece
      · rw [sameLength, sameLength]
      · exact fun other apart => block_partway_other fits apart
      · rw [block_partway_after fits]
        exact holds
    rw [block_partway_after fits, ← same] at replaced
    apply Wrote.of_grows growsNext
    apply ih (index + 1) replaced rfl filledNext (by omega) nearNext
    intro later after inside
    exact areKnown later (by omega) inside

omit [LawfulDevice D] in
/-- A write past the end is refused, and changes nothing. -/
theorem write_refused (represents : Represents store extent array)
    (outside : array.length < start + bytes.length) :
    extent.write store start bytes = (.error .address, extent, store) := by
  rw [Extent.write, ← represents.length]
  exact if_pos (.inr outside)

/-- A write inside the array writes the array, or a beginning of it. -/
theorem write_wrote
    (represents : Represents store extent array)
    (collisionFree : CollisionFree known)
    (filled : store.Filled known)
    (fits : start + bytes.length ≤ array.length)
    (areKnown : bytes ≠ [] → ∀ index content, start / extent.pieceBytes ≤ index → index ≤ (start +
      bytes.length - 1) / extent.pieceBytes → extent.rewritten store start (start + bytes.length)
      bytes index = .ok content → known content) :
    Wrote known store array start bytes (extent.write store start bytes) := by
  have short := represents.short
  rw [Extent.write, ← represents.length]
  rw [if_neg (by omega)]
  by_cases nothing : bytes = []
  · rw [if_pos nothing]
    refine ⟨filled, Store.Grows.refl store, fun _ _ => ?_, nofun⟩
    have none : bytes.length ≤ 0 := le_of_eq (List.length_eq_zero_iff.mpr nothing)
    rw [← partway_of_le array bytes none, partway_zero]
    exact represents
  · have some : 0 < bytes.length := length_pos_of_ne_nil nothing
    obtain ⟨ordered, before, near⟩ := div_pieces extent.positive some start
    rw [if_neg nothing]
    apply writeFrom_wrote collisionFree fits some extent.pieceBytes _ _ _ rfl filled (by omega) near
    · intro later after inside
      have reached : later * extent.pieceBytes ≤ start + bytes.length - 1 :=
        (le_div_iff_mul_le extent.positive).mp inside
      have within : (start / extent.pieceBytes + 1) * extent.pieceBytes ≤
          (later + 1) * extent.pieceBytes := mul_le_mul_right _ (succ_le_succ after)
      apply areKnown nothing later _ after inside
      apply represents.rewritten_eq filled.sound fits
      · rw [← succ_mul]
        exact lt_of_lt_of_le near within
      · omega
    · rw [Nat.sub_eq_zero_of_le before, partway_zero]
      exact represents

end Writing

section Creating

variable {known : Bytes → Prop} {bytes : Bytes}

/-- Pieces that are the hashes of held blocks represent what the blocks are cut from. -/
theorem of_blocks
    (length : bytes.length = extent.extentBytes)
    (short : bytes.length < 2 ^ 64)
    (few : extent.pieces.length ≤ piecesMax)
    (pieces : extent.pieces = (blocks extent.pieceBytes bytes extent.pieces.length).map sha256)
    (held : ∀ block ∈ blocks extent.pieceBytes bytes extent.pieces.length,
      ∃ kind, store.Holds kind block) :
    Represents store extent bytes := by
  refine ⟨length, short, few, ?_, ?_⟩
  · intro index inside
    rw [Extent.piece, pieces, getD_eq_getElem?_getD, getElem?_map, blocks,
      getElem?_map, getElem?_range inside]
    rfl
  · intro index inside
    exact held _ (mem_map_of_mem (List.mem_range.mpr inside))

variable [LawfulDevice D]

/-- Storing the blocks of some bytes keeps the store, and gives an extent of the bytes. -/
theorem ofPieces_represents
    (collisionFree : CollisionFree known)
    (filled : store.Filled known)
    {width : Nat}
    (positive : 0 < width)
    {chunks : List Bytes}
    (tiled : chunks.length = divCeil bytes.length width)
    (cut : chunks = blocks width bytes chunks.length)
    (short : bytes.length < 2 ^ 64)
    (few : chunks.length ≤ piecesMax)
    (areKnown : ∀ block ∈ chunks, known block) :
    (Extent.ofPieces store bytes.length width positive chunks tiled).2.Filled known ∧
      store.Grows (Extent.ofPieces store bytes.length width positive chunks tiled).2 ∧
      ∀ extent, (Extent.ofPieces store bytes.length width positive chunks tiled).1 = .ok extent →
        Represents (Extent.ofPieces store bytes.length width positive chunks tiled).2
          extent bytes := by
  have areShort : ∀ block ∈ chunks, block.length < 2 ^ 64 := by
    rw [cut]
    intro block member
    obtain ⟨index, -, isBlock⟩ := List.mem_map.mp member
    rw [← isBlock, length_block]
    omega
  obtain ⟨filledNext, growsNext, stored⟩ := filled.putChunks collisionFree areKnown areShort
  rw [Extent.ofPieces]
  split
  next refusal after refused =>
    rw [refused] at filledNext growsNext
    exact ⟨filledNext, growsNext, nofun⟩
  next hashes after ok =>
    rw [ok] at filledNext growsNext stored
    obtain ⟨same, held⟩ := stored hashes rfl
    have count : hashes.length = chunks.length := by rw [same, length_map]
    refine ⟨filledNext, growsNext, ?_⟩
    intro extent created
    cases created
    apply of_blocks rfl short
    · rw [count]
      exact few
    · rw [count, ← cut]
      exact same
    · rw [count, ← cut]
      exact held

/-- A creation keeps the store, and a new extent represents its bytes. -/
theorem create_represents (collisionFree : CollisionFree known) (filled : store.Filled known)
    (areKnown : ∀ block ∈ blocks extentBytes bytes (divCeil bytes.length extentBytes),
      known block) :
    (Extent.create store bytes).2.Filled known ∧
      store.Grows (Extent.create store bytes).2 ∧
      ∀ extent, (Extent.create store bytes).1 = .ok extent →
        Represents (Extent.create store bytes).2 extent bytes := by
  have positive : 0 < extentBytes := by decide
  rw [Extent.create]
  by_cases many : piecesMax < divCeil bytes.length extentBytes
  · rw [if_pos many]
    exact ⟨filled, Store.Grows.refl store, nofun⟩
  rw [if_neg many]
  have length : bytes.length < 2 ^ 64 := by
    have whole := le_divCeil_mul positive bytes.length
    have most := mul_le_mul_right extentBytes (Nat.le_of_not_lt many)
    exact lt_of_le_of_lt (whole.trans most) (by decide)
  apply ofPieces_represents collisionFree filled positive _ _ length _ areKnown
  · rw [length_blocks]
  · rw [length_blocks]
    exact Nat.le_of_not_lt many

end Creating

section Publishing

variable [LawfulDevice D] {known : Bytes → Prop}

/-- A snapshot keeps the store; if it is not refused, and no record of the content has another
kind, the store holds the content as an extent. -/
theorem snapshot_holds (collisionFree : CollisionFree known) (filled : store.Filled known)
    (isKnown : known extent.content) (short : extent.content.length < 2 ^ 64) :
    (extent.snapshot store).2.Filled known ∧ store.Grows (extent.snapshot store).2 ∧
      ∀ hash cost, (extent.snapshot store).1 = .ok (hash, cost) →
        (∀ header, store.head (sha256 extent.content) = .ok header → header.kind = .extent) →
        hash = sha256 extent.content ∧ (extent.snapshot store).2.Holds .extent extent.content := by
  rw [Extent.snapshot]
  by_cases many : 2 ^ 32 ≤ extent.pieces.length
  · rw [if_pos many]
    exact ⟨filled, Store.Grows.refl store, nofun⟩
  rw [if_neg many]
  have flushed := filled.barrier
  have flushedGrows := store.barrier_grows
  have sameHead := store.head_barrier (sha256 extent.content)
  rcases first : store.barrier with ⟨_ | _, next⟩
  · rw [first] at flushed flushedGrows
    exact ⟨flushed, flushedGrows, nofun⟩
  rw [first] at flushed flushedGrows sameHead
  dsimp only
  have filledNext := flushed.put Kind.extent.code isKnown short
  have growsNext := flushedGrows.trans
    (Store.put_grows flushed.sound Kind.extent.code extent.content)
  rcases stored : next.put Kind.extent.code extent.content with ⟨_ | hash, last⟩
  · rw [stored] at filledNext growsNext
    exact ⟨filledNext, growsNext, nofun⟩
  rw [stored] at filledNext growsNext
  dsimp only
  have filledLast := filledNext.barrier
  have growsLast := last.barrier_grows
  rcases second : last.barrier with ⟨_ | _, done⟩
  · rw [second] at filledLast growsLast
    exact ⟨filledLast, growsNext.trans growsLast, nofun⟩
  · rw [second] at filledLast growsLast
    refine ⟨filledLast, growsNext.trans growsLast, ?_⟩
    rintro _ _ ⟨⟩ unclaimed
    obtain ⟨same, holds⟩ := flushed.put_holds_kind collisionFree isKnown short
      (fun header found => unclaimed header (sameHead ▸ found)) stored
    exact ⟨same, growsLast _ _ holds⟩

section

variable (represents : Represents store extent array)

include represents

omit [LawfulDevice D] in
/-- The content of an extent is its head, then its pieces. -/
theorem head_content :
    ∃ head : ExtentHead, head.extentBytes.toNat = array.length ∧
      head.pieces.toNat = extent.pieces.length ∧ head.toBytes.length = headBytes ∧
      ExtentHead.fromBytes head.toBytes = .ok head ∧
      extent.content = head.toBytes ++ extent.pieces.flatMap Digest.bytes := by
  have few : extent.pieces.length < 2 ^ 32 := lt_of_le_of_lt represents.few (by decide)
  have short : extent.extentBytes < 2 ^ 64 := represents.length ▸ represents.short
  have lengthRead := UInt64.toNat_ofNat_of_lt' short
  have countRead := UInt32.toNat_ofNat_of_lt' few
  refine ⟨_, lengthRead.trans represents.length.symm, countRead, by
    simp [ExtentHead.toBytes, headBytes], ?_, rfl⟩
  rw [ExtentHead.fromBytes, ExtentHead.toBytes, headFromBytes_encoded]
  · rw [countRead]
    exact represents.few
  · have tiles := lt_divCeil extent.positive extent.extentBytes 0
    rw [← extent.tiled, zero_mul] at tiles
    rw [← UInt64.toNat_inj, ← UInt32.toNat_inj, lengthRead, countRead]
    change extent.extentBytes = 0 ↔ extent.pieces.length = 0
    omega

omit [LawfulDevice D] in
theorem content_short : extent.content.length < 2 ^ 64 := by
  obtain ⟨head, -, -, width, -, content⟩ := represents.head_content
  rw [content, length_append, width, length_flatMap_bytes]
  exact lt_of_le_of_lt
    (Nat.add_le_add_left (mul_le_mul_right 32 represents.few) headBytes) (by decide)

/-- The first piece's length is a width that tiles the array into the same blocks. -/
theorem granularity (sound : store.Sound) :
    ∃ width, (extent.pieces.head?.elim (.ok extentBytes) fun first =>
        (store.head first).map fun header => header.contentBytes.toNat) = .ok width ∧
      (0 < width ∧ extent.pieces.length = divCeil array.length width) ∧
      ∀ index < extent.pieces.length,
        block width array index = block extent.pieceBytes array index := by
  have tiles := lt_divCeil extent.positive extent.extentBytes
  rw [← extent.tiled, ← represents.length] at tiles
  rcases Nat.eq_zero_or_pos extent.pieces.length with none | some
  · have nothing : array.length = 0 := by
      have first := tiles 0
      omega
    rw [List.length_eq_zero_iff.mp none]
    refine ⟨extentBytes, rfl, ⟨by decide, by rw [nothing]; rfl⟩, ?_⟩
    intro index inside
    cases inside
  · have length : 0 < array.length := by
      have first := tiles 0
      omega
    obtain ⟨kind, holds⟩ := represents.held 0 some
    have first : extent.pieces.head? = .some (sha256 (block extent.pieceBytes array 0)) := by
      rw [← represents.named 0 some, Extent.piece, head?_eq_getElem?,
        getD_eq_getElem?_getD, getElem?_eq_getElem some, Option.getD_some]
    have width : (block extent.pieceBytes array 0).length =
        min array.length extent.pieceBytes := by
      rw [length_block, zero_mul, Nat.sub_zero]
    refine ⟨min array.length extent.pieceBytes, ?_, ⟨?_, ?_⟩, ?_⟩
    · rw [first, Option.elim_some, holds.head_eq sound]
      exact congrArg Except.ok ((Store.contentBytes_headerOf kind holds.short).trans width)
    · exact Nat.lt_min.mpr ⟨length, extent.positive⟩
    · rw [divCeil_min length, extent.tiled, represents.length]
    intro index inside
    rcases le_total array.length extent.pieceBytes with single | several
    · have only : index = 0 := by
        have second := tiles 1
        omega
      rw [only, min_eq_left single, block, block, zero_mul, zero_mul, slice, slice, drop_zero,
        take_of_length_le (le_refl _), take_of_length_le single]
    · rw [min_eq_right several]

/-- A published extent opens, and represents the array it was published with. -/
theorem openAt_represents (sound : store.Sound) (holds : store.Holds .extent extent.content) :
    ∃ opened, Extent.openAt store (sha256 extent.content) = .ok opened ∧
      Represents store opened array := by
  obtain ⟨head, lengthRead, countRead, width, decoded, content⟩ := represents.head_content
  have contentLength : extent.content.length = headBytes + extent.pieces.length * 32 := by
    rw [content, length_append, width, length_flatMap_bytes]
  have front : extent.content.take headBytes = head.toBytes := by rw [content, ← width, take_left]
  have hashes : hashesAfter extent.content headBytes head.pieces.toNat = extent.pieces := by
    rw [content, countRead]
    exact hashesAfter_append width extent.pieces
  obtain ⟨width, first, tiled, sameBlocks⟩ := represents.granularity sound
  rw [← hashes] at first
  rw [← lengthRead, ← hashes] at tiled
  have isExtent : ¬(Store.headerOf .extent extent.content).kind ≠ .extent := not_not.mpr rfl
  rw [Extent.openAt, holds.head_eq sound]
  dsimp only
  rw [if_neg isExtent, Store.contentBytes_headerOf _ holds.short, holds.get_ok sound (le_refl _)]
  dsimp only
  rw [if_neg (by omega), front, decoded]
  dsimp only
  rw [if_neg (by rw [ExtentHead.bytes, countRead, contentLength]; exact not_not.mpr rfl), first]
  dsimp only
  rw [dif_pos tiled]
  exact ⟨_, rfl, represents.of_pieces lengthRead.symm hashes sameBlocks⟩

end

end Publishing

end Represents

end FSystem.Blob
