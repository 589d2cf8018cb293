import FSystem.Blob.Cuts

/-!
# Chunk boundaries resynchronise

The register forgets a byte after sixty-four more, so the candidates of a stream are those of
its suffix.  A position that is accepted by the content starts a chunk, or lies less than the
smallest chunk behind a cut; in both cases the next accepted position, if it is near enough
for no cut to be forced in between, is a cut.  There the chunker's state is a function of
the suffix alone, and so is every later cut.
-/

namespace FSystem.Blob

open Bytes List

section Register

/-- The register after some bytes. -/
def rolled (register : UInt64) (bytes : Bytes) : UInt64 := bytes.foldl roll register

variable (register : UInt64)

theorem rolled_concat (bytes : Bytes) (byte : UInt8) :
    rolled register (bytes ++ [byte]) = roll (rolled register bytes) byte := by
  rw [rolled, foldl_append]
  rfl

/-- Rolling a byte in doubles what was in the register. -/
theorem roll_eq (byte : UInt8) : roll register byte = register * 2 + roll 0 byte := by
  have doubled : ∀ value : UInt64, value <<< 1 = value * 2 := by
    intro value
    apply UInt64.toNat_inj.mp
    rw [UInt64.toNat_shiftLeft, UInt64.toNat_mul, Nat.shiftLeft_eq]
    rfl
  rw [roll, roll, doubled, doubled, UInt64.zero_mul, UInt64.zero_add]

theorem rolled_eq (bytes : Bytes) :
    rolled register bytes = register * 2 ^ bytes.length + rolled 0 bytes := by
  induction bytes generalizing register with
  | nil =>
    rw [length_nil, UInt64.pow_zero, UInt64.mul_one]
    exact (UInt64.add_zero register).symm
  | cons byte rest ih =>
    change rolled (roll register byte) rest = _ + rolled (roll 0 byte) rest
    rw [ih (roll register byte), ih (roll 0 byte), roll_eq, length_cons, UInt64.pow_succ]
    grind

theorem two_pow_eq_zero (more : Nat) : (2 : UInt64) ^ (64 + more) = 0 := by
  induction more with
  | zero => decide +kernel
  | succ more ih => rw [← Nat.add_assoc, UInt64.pow_succ, ih, UInt64.zero_mul]

/-- Sixty-four bytes decide the register. -/
theorem rolled_forgets (first second : UInt64) {bytes : Bytes} (long : 64 ≤ bytes.length) :
    rolled first bytes = rolled second bytes := by
  obtain ⟨more, isMore⟩ := Nat.exists_eq_add_of_le long
  rw [rolled_eq first, rolled_eq second, isMore, two_pow_eq_zero, UInt64.mul_zero, UInt64.mul_zero]

end Register

variable {byte : UInt8} {position : Nat}

namespace Chunker

section Feeding

variable (self : Chunker) (bytes : Bytes)

/-- The chunker after some bytes. -/
def fed (bytes : Bytes) : Chunker := bytes.foldl (fun chunker byte => (chunker.step byte).2) self

theorem fed_append (first second : Bytes) :
    self.fed (first ++ second) = (self.fed first).fed second :=
  foldl_append

theorem fed_concat (byte : UInt8) :
    self.fed (bytes ++ [byte]) = ((self.fed bytes).step byte).2 := by
  rw [fed_append]
  rfl

theorem register_fed : (self.fed bytes).register = rolled self.register bytes := by
  induction bytes generalizing self with
  | nil => rfl
  | cons byte rest ih =>
    have later := ih (self.step byte).2
    rw [step_eq] at later
    rw [fed, foldl_cons, step_eq]
    exact later

/-- The cuts of a stream are those of its first part, then those of the rest. -/
theorem feed_append (position : Nat) (first second : Bytes) :
    (self.feed position (first ++ second)).1 =
      (self.feed position first).1 ++
        ((self.fed first).feed (position + first.length) second).1 := by
  induction first generalizing self position with
  | nil => rfl
  | cons byte rest ih =>
    rw [cons_append, feed, feed, ih, length_cons,
      show position + 1 + rest.length = position + (rest.length + 1) by omega]
    split
    next => rfl
    next => rfl

/-- Every cut lies behind the first byte that was fed and not behind the last. -/
theorem mem_feed_bounds {bytes : Bytes} {cut : Nat} (member : cut ∈ (self.feed position bytes).1) :
    position < cut ∧ cut ≤ position + bytes.length := by
  induction bytes generalizing self position with
  | nil => cases member
  | cons byte rest ih =>
    rw [feed] at member
    rw [length_cons]
    split at member
    next =>
      rcases mem_cons.mp member with here | later
      · omega
      · have := ih _ later
        omega
    next =>
      have := ih _ member
      omega

/-- Where the bytes stand in their stream moves the cuts and nothing else. -/
theorem mem_feed_shift (first second offset : Nat) :
    first + offset ∈ (self.feed first bytes).1 ↔ second + offset ∈ (self.feed second bytes).1 := by
  induction bytes generalizing self first second offset with
  | nil => exact iff_of_false not_mem_nil not_mem_nil
  | cons byte rest ih =>
    cases offset with
    | zero =>
      have behind : ∀ position, position + 0 ∉ (self.feed position (byte :: rest)).1 :=
        fun position member => absurd (self.mem_feed_bounds member).1 (Nat.lt_irrefl _)
      exact iff_of_false (behind first) (behind second)
    | succ offset =>
      have later := ih (self.step byte).2 (first + 1) (second + 1) offset
      rw [Nat.add_right_comm, Nat.add_right_comm second] at later
      rw [feed, feed]
      split
      next =>
        rw [mem_cons, mem_cons]
        exact or_congr (by omega) later
      next => exact later

/-- A chunk ends with the last byte that was fed. -/
theorem mem_feed_last {bytes : Bytes} (position : Nat) (ends : (self.fed bytes).Ends byte) :
    position + (bytes.length + 1) ∈ (self.feed position (bytes ++ [byte])).1 := by
  rw [feed_append, feed, step_eq]
  rw [decide_eq_true ends, if_pos rfl]
  exact mem_append_right _ mem_cons_self

end Feeding

end Chunker

section Windows

variable (stream : Bytes)

/-- A position of a stream where the register is a candidate. -/
def Candidate (position : Nat) : Prop :=
  0 < position ∧ position ≤ stream.length ∧ IsCandidate (rolled 0 (stream.take position))

instance (position : Nat) : Decidable (Candidate stream position) :=
  inferInstanceAs (Decidable (_ ∧ _ ∧ _))

/-- A candidate with no other candidate at most `reach` bytes before it. -/
def WindowAccepted (reach position : Nat) : Prop :=
  Candidate stream position ∧
    ∀ earlier, position - reach ≤ earlier → earlier < position → ¬Candidate stream earlier

/-- A candidate behind the distance the chunker asks for. -/
abbrev Accepted : Nat → Prop := WindowAccepted stream (chunkMinBytes - 1)

end Windows

namespace Chunker

section Suffix

variable (self : Chunker) {suffix : Bytes} {first second : Nat}

theorem since_le : self.since ≤ self.sinceCandidate + 1 := by
  unfold since
  split <;> omega

theorem le_since : min chunkMinBytes (self.sinceCandidate + 1) ≤ self.since := by
  unfold since
  split <;> omega

/-- What the byte before a position does, in terms of the suffix's candidates. -/
structure Steps (before : Chunker) (suffix : Bytes) (position : Nat) (byte : UInt8)
    (after : Chunker) : Prop where
  last : suffix.take (position + 1) = suffix.take position ++ [byte]
  register : after.register = rolled 0 (suffix.take (position + 1))
  sinceCandidate : after.sinceCandidate =
    if Candidate suffix (position + 1) then 0 else before.since
  sinceCut : after.sinceCut = if before.Ends byte then 0 else before.sinceCut + 1
  accepts : before.Accepts byte ↔ Candidate suffix (position + 1) ∧
    chunkMinBytes ≤ before.since ∧ chunkMinBytes ≤ before.sinceCut + 1

theorem fed_steps (suffix : Bytes) (position : Nat) (inside : position < suffix.length)
    (deep : 63 ≤ position) :
    ∃ byte, Steps (self.fed (suffix.take position)) suffix position byte
      (self.fed (suffix.take (position + 1))) := by
  have last := take_append_getElem inside
  have length : (suffix.take (position + 1)).length = position + 1 := by
    rw [length_take]
    omega
  have register : roll (self.fed (suffix.take position)).register suffix[position] =
      rolled 0 (suffix.take (position + 1)) := by
    rw [register_fed, ← rolled_concat, last]
    exact rolled_forgets _ _ (by omega)
  have isCandidate : IsCandidate (roll (self.fed (suffix.take position)).register
      suffix[position]) ↔ Candidate suffix (position + 1) := by
    rw [register]
    exact ⟨fun candidate => ⟨Nat.succ_pos _, inside, candidate⟩, fun candidate => candidate.2.2⟩
  have stepped : self.fed (suffix.take (position + 1)) =
      ((self.fed (suffix.take position)).step suffix[position]).2 := by
    rw [← last, fed_concat]
  rw [stepped, step_eq]
  exact ⟨suffix[position], last.symm, register, if_congr isCandidate rfl rfl, rfl,
    and_congr_left' isCandidate⟩

/-- While there is no candidate the candidate count grows. -/
theorem le_sinceCandidate (deep : 63 ≤ first) (count : Nat) (inside : first + count ≤ suffix.length)
    (quiet : ∀ position, first < position → position ≤ first + count → ¬Candidate suffix position) :
    min chunkMinBytes count ≤ (self.fed (suffix.take (first + count))).sinceCandidate := by
  induction count with
  | zero => exact Nat.min_le_right _ _ |>.trans (Nat.zero_le _)
  | succ count ih =>
    have earlier := ih (by omega) fun position after before => quiet position after (by omega)
    obtain ⟨byte, steps⟩ := self.fed_steps suffix (first + count) (by omega) (by omega)
    have grown := (self.fed (suffix.take (first + count))).le_since
    rw [← Nat.add_assoc, steps.sinceCandidate, if_neg (quiet _ (by omega) (by omega))]
    omega

/-- Behind a candidate the candidate count is no larger than the distance to it. -/
theorem sinceCandidate_le (candidate : Candidate suffix first) (deep : 64 ≤ first) (count : Nat)
    (inside : first + count ≤ suffix.length) :
    (self.fed (suffix.take (first + count))).sinceCandidate ≤ count := by
  induction count with
  | zero =>
    obtain ⟨previous, isPrevious⟩ := Nat.exists_eq_add_of_lt candidate.1
    rw [Nat.zero_add] at isPrevious
    subst isPrevious
    obtain ⟨byte, steps⟩ := self.fed_steps suffix previous (by omega) (by omega)
    rw [Nat.add_zero, steps.sinceCandidate, if_pos candidate]
  | succ count ih =>
    obtain ⟨byte, steps⟩ := self.fed_steps suffix (first + count) (by omega) (by omega)
    have grown := (self.fed (suffix.take (first + count))).since_le
    rw [← Nat.add_assoc, steps.sinceCandidate]
    split <;> omega

section

variable {position : Nat} (deep : chunkMinBytes + 63 ≤ position)

include deep

/-- At an accepted position the candidate count is as large as asked. -/
theorem since_of_accepted (accepted : Accepted suffix (position + 1)) :
    chunkMinBytes ≤ (self.fed (suffix.take position)).since := by
  have inside := accepted.1.2.1
  have positive : 0 < chunkMinBytes := by decide
  have grown : min chunkMinBytes (chunkMinBytes - 1) ≤ (self.fed (suffix.take
      (position + 1 - chunkMinBytes + (chunkMinBytes - 1)))).sinceCandidate := by
    apply self.le_sinceCandidate (by omega) _ (by omega)
    intro earlier after before
    exact accepted.2 earlier (by omega) (by omega)
  rw [show position + 1 - chunkMinBytes + (chunkMinBytes - 1) = position by omega] at grown
  have counted := (self.fed (suffix.take position)).le_since
  omega

/-- The content accepts a cut only at window-accepted positions. -/
theorem accepted_of_accepts {after : Chunker} (inside : position < suffix.length)
    (steps : Steps (self.fed (suffix.take position)) suffix position byte after)
    (accepts : (self.fed (suffix.take position)).Accepts byte) :
    Accepted suffix (position + 1) := by
  obtain ⟨candidate, counted, -⟩ := steps.accepts.mp accepts
  refine ⟨candidate, ?_⟩
  intro earlier near before isCandidate
  have few := self.sinceCandidate_le isCandidate (by omega) (position - earlier) (by omega)
  rw [Nat.add_sub_cancel' (by omega)] at few
  have bound := (self.fed (suffix.take position)).since_le
  omega

/-- An accepted position starts a chunk, or is close behind a cut. -/
theorem sinceCut_of_accepted (accepted : Accepted suffix (position + 1)) :
    (self.fed (suffix.take (position + 1))).sinceCut < chunkMinBytes := by
  obtain ⟨byte, steps⟩ := self.fed_steps suffix position accepted.1.2.1 (by omega)
  have counted := self.since_of_accepted deep accepted
  rw [steps.sinceCut]
  by_cases ends : (self.fed (suffix.take position)).Ends byte
  · rw [if_pos ends]
    decide
  · rw [if_neg ends]
    by_contra long
    exact ends (.inl (steps.accepts.mpr ⟨accepted.1, counted, Nat.le_of_not_lt long⟩))

end

/-- Between accepted positions no chunk ends, below the largest chunk. -/
theorem sinceCut_between
    (deep : chunkMinBytes + 64 ≤ first)
    (accepted : Accepted suffix first)
    (count : Nat)
    (inside : first + count ≤ suffix.length)
    (near : count + chunkMinBytes ≤ chunkMaxBytes)
    (quiet : ∀ position, first < position → position ≤ first + count →
      ¬Accepted suffix position) :
    (self.fed (suffix.take (first + count))).sinceCut =
      (self.fed (suffix.take first)).sinceCut + count := by
  induction count with
  | zero => rfl
  | succ count ih =>
    have earlier := ih (by omega) (by omega)
      fun position after before => quiet position after (by omega)
    obtain ⟨byte, steps⟩ := self.fed_steps suffix (first + count) (by omega) (by omega)
    have started : (self.fed (suffix.take first)).sinceCut < chunkMinBytes := by
      obtain ⟨previous, isPrevious⟩ := Nat.exists_eq_add_of_lt accepted.1.1
      subst isPrevious
      exact self.sinceCut_of_accepted (by omega) accepted
    have continues : ¬(self.fed (suffix.take (first + count))).Ends byte := by
      rintro (accepts | full)
      · exact quiet _ (by omega) (by omega)
          (self.accepted_of_accepts (by omega) (by omega) steps accepts)
      · omega
    rw [← Nat.add_assoc, steps.sinceCut, if_neg continues, earlier]
    omega

/-- The second of two consecutive accepted positions is a cut, with a state the suffix
determines. -/
theorem fed_accepted
    (deep : chunkMinBytes + 64 ≤ first)
    (ordered : first < position + 1)
    (near : position + 1 - first ≤ chunkMaxBytes - chunkMinBytes)
    (firstAccepted : Accepted suffix first)
    (secondAccepted : Accepted suffix (position + 1))
    (quiet : ∀ between, first < between → between < position + 1 →
      ¬Accepted suffix between) :
    ∃ byte, suffix.take (position + 1) = suffix.take position ++ [byte] ∧
      (self.fed (suffix.take position)).Ends byte ∧
      self.fed (suffix.take (position + 1)) = ⟨rolled 0 (suffix.take (position + 1)), 0, 0⟩ := by
  have inside := secondAccepted.1.2.1
  obtain ⟨byte, steps⟩ := self.fed_steps suffix position (by omega) (by omega)
  have counted := self.since_of_accepted (by omega) secondAccepted
  -- the first position is a candidate, so it is outside the second one's window
  have apart : chunkMinBytes ≤ position + 1 - first := by
    by_contra close
    exact secondAccepted.2 first (by omega) ordered firstAccepted.1
  have long := self.sinceCut_between deep firstAccepted (position - first) (by omega) (by omega)
    fun between after before => quiet between after (by omega)
  rw [Nat.add_sub_cancel' (by omega)] at long
  have accepts : (self.fed (suffix.take position)).Accepts byte :=
    steps.accepts.mpr ⟨secondAccepted.1, counted, by omega⟩
  have sinceCandidate := steps.sinceCandidate
  have sinceCut := steps.sinceCut
  rw [if_pos secondAccepted.1] at sinceCandidate
  rw [if_pos (.inl accepts)] at sinceCut
  refine ⟨byte, steps.last, .inl accepts, ?_⟩
  exact (mk.injEq ..).mpr ⟨steps.register, sinceCandidate, sinceCut⟩

end Suffix

end Chunker

/-- The positions of a stream after which a chunk ends. -/
def boundaries (stream : Bytes) : List Nat := (Chunker.new.feed 0 stream).1

section Resynchronise

variable {suffix : Bytes} {first second : Nat} {reach : Nat}

/-- A position that is accepted with a window of one byte more is accepted. -/
theorem WindowAccepted.narrow (accepted : WindowAccepted suffix (reach + 1) position) :
    WindowAccepted suffix reach position :=
  ⟨accepted.1, fun earlier near before => accepted.2 earlier (by omega) before⟩

/-- The last accepted position before another one begins a pair with nothing accepted between. -/
theorem exists_last_accepted (ordered : first < second)
    (accepted : WindowAccepted suffix reach first) :
    ∃ last, first ≤ last ∧ last < second ∧ WindowAccepted suffix reach last ∧
      ∀ between, last < between → between < second → ¬WindowAccepted suffix reach between := by
  classical
  have inside : first ≤ second - 1 := by omega
  refine ⟨Nat.findGreatest (WindowAccepted suffix reach) (second - 1),
    Nat.le_findGreatest inside accepted, ?_, Nat.findGreatest_spec inside accepted, ?_⟩
  · have bound : Nat.findGreatest (WindowAccepted suffix reach) (second - 1) ≤ second - 1 :=
      Nat.findGreatest_le (second - 1)
    omega
  · intro between after before
    exact Nat.findGreatest_is_greatest after (by omega)

/-- Two streams with a common suffix agree after two consecutive accepted positions of it, and
cut there. -/
theorem resynchronised
    (chunker : Chunker)
    (deep : chunkMinBytes + 64 ≤ first)
    (ordered : first < second)
    (near : second - first ≤ chunkMaxBytes - chunkMinBytes)
    (firstAccepted : Accepted suffix first)
    (secondAccepted : Accepted suffix second)
    (position later : Nat) :
    position + second ∈ (chunker.feed position suffix).1 ∧
      (second < later → (position + later ∈ (chunker.feed position suffix).1 ↔
        position + later ∈ (Chunker.feed ⟨rolled 0 (suffix.take second), 0, 0⟩
          (position + second) (suffix.drop second)).1)) := by
  obtain ⟨last, after, before, lastAccepted, quiet⟩ := exists_last_accepted ordered firstAccepted
  obtain ⟨previous, isPrevious⟩ := Nat.exists_eq_add_of_lt secondAccepted.1.1
  rw [Nat.zero_add] at isPrevious
  subst isPrevious
  have inside := secondAccepted.1.2.1
  obtain ⟨byte, front, ends, state⟩ := chunker.fed_accepted (by omega) before (by omega)
    lastAccepted secondAccepted quiet
  have length : (suffix.take (previous + 1)).length = previous + 1 := by
    rw [length_take]
    omega
  have parts := chunker.feed_append position (suffix.take (previous + 1))
    (suffix.drop (previous + 1))
  rw [take_append_drop, length, state] at parts
  have cut := chunker.mem_feed_last position ends
  rw [← front, length_take, Nat.min_eq_left (by omega)] at cut
  rw [parts]
  refine ⟨mem_append_left _ cut, ?_⟩
  intro beyond
  rw [mem_append]
  refine or_iff_right ?_
  intro member
  have bounds := (chunker.mem_feed_bounds member).2
  omega

/-- The boundaries inside a suffix are those its own bytes give the chunker at its start. -/
theorem mem_boundaries_append (before suffix : Bytes) {offset : Nat} (inside : 0 < offset) :
    before.length + offset ∈ boundaries (before ++ suffix) ↔
      before.length + offset ∈ ((Chunker.new.fed before).feed before.length suffix).1 := by
  rw [boundaries, Chunker.feed_append, Nat.zero_add, mem_append]
  refine or_iff_right ?_
  intro member
  have bounds := (Chunker.new.mem_feed_bounds member).2
  omega

/-- Chunk boundaries resynchronise: if two streams end in a common suffix, the later of two
window-accepted positions of the suffix that are near enough is a boundary of both, and
behind it their boundaries coincide.  The window reaches over the distance the chunker asks
for, with or without the byte at that distance. -/
theorem boundaries_resynchronise
    (before other suffix : Bytes)
    (first second reach : Nat)
    (isReach : reach = chunkMinBytes - 1 ∨ reach = chunkMinBytes)
    (deep : chunkMinBytes + 64 ≤ first)
    (ordered : first < second)
    (near : second - first ≤ chunkMaxBytes - chunkMinBytes)
    (firstAccepted : WindowAccepted suffix reach first)
    (secondAccepted : WindowAccepted suffix reach second) :
    before.length + second ∈ boundaries (before ++ suffix) ∧
      other.length + second ∈ boundaries (other ++ suffix) ∧
      ∀ later, second < later →
        (before.length + later ∈ boundaries (before ++ suffix) ↔
          other.length + later ∈ boundaries (other ++ suffix)) := by
  have narrowed : ∀ position, WindowAccepted suffix reach position →
      WindowAccepted suffix (chunkMinBytes - 1) position := by
    intro position accepted
    rcases isReach with same | wider
    · rw [← same]
      exact accepted
    · have whole : chunkMinBytes - 1 + 1 = reach := by
        rw [wider]
        decide
      exact WindowAccepted.narrow (whole ▸ accepted)
  have agree := fun (chunker : Chunker) (position later : Nat) =>
    resynchronised chunker deep ordered near (narrowed first firstAccepted)
      (narrowed second secondAccepted) position later
  refine ⟨?_, ?_, ?_⟩
  · rw [mem_boundaries_append before suffix (by omega)]
    exact (agree _ _ second).1
  · rw [mem_boundaries_append other suffix (by omega)]
    exact (agree _ _ second).1
  intro later behind
  rw [mem_boundaries_append before suffix (by omega),
    mem_boundaries_append other suffix (by omega), (agree _ _ later).2 behind,
    (agree _ _ later).2 behind]
  obtain ⟨more, isMore⟩ := Nat.exists_eq_add_of_lt behind
  rw [isMore, show before.length + (second + more + 1) =
      before.length + second + (more + 1) by omega,
    show other.length + (second + more + 1) = other.length + second + (more + 1) by omega]
  exact Chunker.mem_feed_shift _ _ _ _ _

end Resynchronise

section Zeros

/-- The register in a long run of zeros. -/
def stationary : UInt64 := rolled 0 (zeros 64)

/-- A long run of zeros brings the register to a value it stays at. -/
theorem rolled_zeros (register : UInt64) {length : Nat} (long : 64 ≤ length) :
    rolled register (zeros length) = stationary := by
  have stays : ∀ more, rolled stationary (zeros more) = stationary := by
    intro more
    induction more with
    | zero => exact foldl_nil
    | succ more ih =>
      have fixed : roll stationary 0 = stationary := by decide +kernel
      rw [zeros, replicate_succ', rolled_concat]
      rw [zeros] at ih
      rw [ih, fixed]
  rw [rolled_forgets register stationary (by simpa using long), stays]

/-- No position in a run of zeros is a candidate; two bytes behind it one is accepted. -/
theorem accepted_behind_zeros (lead rest : Bytes) :
    WindowAccepted (lead ++ (zeros 16448 ++ ([63, 200] ++ rest))) chunkMinBytes
      (lead.length + 16450) := by
  have width := length_zeros 16448
  have register : ∀ (length : Nat) (behind : Bytes), 64 ≤ length →
      rolled 0 (lead ++ (zeros length ++ behind)) = rolled stationary behind := by
    intro length behind long
    rw [rolled, foldl_append, foldl_append]
    exact congrArg (rolled · behind) (rolled_zeros (rolled 0 lead) long)
  refine ⟨⟨by omega, ?_, ?_⟩, ?_⟩
  · simp only [length_append, width, length_cons, length_nil]
    omega
  · have front : (lead ++ (zeros 16448 ++ ([63, 200] ++ rest))).take
        (lead.length + 16450) = lead ++ (zeros 16448 ++ [63, 200]) := by
      rw [take_length_add_append, take_append, width, take_of_length_le (by omega)]
      rfl
    rw [front, register _ _ (by decide)]
    decide +kernel
  · rintro earlier near before ⟨-, -, candidate⟩
    have minimum : chunkMinBytes = 16384 := rfl
    obtain ⟨offset, isOffset⟩ := Nat.exists_eq_add_of_le (show lead.length ≤ earlier by omega)
    subst isOffset
    rw [take_length_add_append, take_append, width] at candidate
    rcases Nat.lt_or_ge 16448 offset with behind | within
    · have only : offset - 16448 = 1 := by omega
      have begun : ¬IsCandidate (rolled stationary [63]) := by decide +kernel
      rw [take_of_length_le (by omega), only, register _ _ (by decide)] at candidate
      exact begun candidate
    · rw [Nat.sub_eq_zero_of_le within, take_zero, zeros, take_replicate,
        Nat.min_eq_left within, ← zeros, register _ _ (by omega)] at candidate
      revert candidate
      decide +kernel

/-- Two runs of zeros, each with the same two bytes behind it. -/
def spaced : Bytes :=
  zeros 16448 ++ ([63, 200] ++ (zeros 16448 ++ ([63, 200] ++ [7])))

theorem boundaries_resynchronise_spaced :
    1 + 32900 ∈ boundaries ([5] ++ spaced) ∧ 0 + 32900 ∈ boundaries ([] ++ spaced) ∧
      ∀ later, 32900 < later →
        (1 + later ∈ boundaries ([5] ++ spaced) ↔ 0 + later ∈ boundaries ([] ++ spaced)) := by
  have first := accepted_behind_zeros [] (zeros 16448 ++ ([63, 200] ++ [7]))
  have second := accepted_behind_zeros (zeros 16448 ++ [63, 200]) [7]
  rw [length_append, length_zeros, append_assoc] at second
  exact boundaries_resynchronise [5] [] spaced 16450 32900 chunkMinBytes (.inr rfl)
    (by decide) (by decide) (by decide) first second

end Zeros

end FSystem.Blob
