import FSystem.Blob.Resynchronise
import Mathlib.Data.List.PeriodicityLemma

/-!
# Feeding the chunker

A caller feeds a stream in pieces and takes the cuts of each piece from an iterator, which
scans the rest of the piece when it is dropped.  So the cuts are those of the stream, and the
chunks between them are neither too short nor too long; where the stream is periodic they are
as long as a chunk may be.
-/

namespace FSystem.Blob

open List

/-- The chunker, how many bytes of a piece were scanned, and those left. -/
structure Cuts where
  chunker : Chunker
  scanned : Nat
  rest : Bytes

namespace Cuts

/-- Scan to the next cut. -/
def nextIn (chunker : Chunker) (scanned : Nat) : Bytes → Option Nat × Cuts
  | [] => (none, ⟨chunker, scanned, []⟩)
  | byte :: rest =>
    let stepped := chunker.step byte
    if stepped.1 then (some (scanned + 1), ⟨stepped.2, scanned + 1, rest⟩)
    else nextIn stepped.2 (scanned + 1) rest

/-- The next cut. -/
def next (self : Cuts) : Option Nat × Cuts := nextIn self.chunker self.scanned self.rest

/-- Scan what is left. -/
def drop (self : Cuts) : Chunker := self.chunker.fed self.rest

/-- Ask for a cut `count` times, or until there is none. -/
def taken : Nat → Cuts → List Nat × Cuts
  | 0, self => ([], self)
  | count + 1, self =>
    match self.next with
    | (none, self) => ([], self)
    | (some cut, self) => (cut :: (taken count self).1, (taken count self).2)

end Cuts

namespace Chunker

/-- Feed a piece, ask its iterator for `count` cuts and drop it. -/
def call (self : Chunker) (piece : Bytes) (count : Nat) : List Nat × Chunker :=
  let taken := Cuts.taken count ⟨self, 0, piece⟩
  (taken.1, taken.2.drop)

/-- Feed pieces one after another: the cuts of each iterator, and the chunker afterwards. -/
def calls (self : Chunker) : Nat → List (Bytes × Nat) → List (List Nat) × Chunker
  | _, [] => ([], self)
  | position, (piece, count) :: rest =>
    let one := self.call piece count
    let later := one.2.calls (position + piece.length) rest
    (one.1.map (position + ·) :: later.1, later.2)

/-- The cuts of each piece of a stream. -/
def cutsOf (self : Chunker) : Nat → List Bytes → List (List Nat)
  | _, [] => []
  | position, piece :: rest =>
    (self.feed position piece).1 :: (self.fed piece).cutsOf (position + piece.length) rest

section Calls

variable (self : Chunker) (position : Nat)

theorem feed_fed (bytes : Bytes) : (self.feed position bytes).2 = self.fed bytes := by
  induction bytes generalizing self position with
  | nil => rfl
  | cons byte rest ih => exact ih _ _

/-- Where a piece stands moves its cuts. -/
theorem feed_map (position scanned : Nat) (bytes : Bytes) :
    (self.feed (position + scanned) bytes).1 = (self.feed scanned bytes).1.map (position + ·) := by
  induction bytes generalizing self scanned with
  | nil => rfl
  | cons byte rest ih =>
    have later := ih (self.step byte).2 (scanned + 1)
    rw [feed, feed, Nat.add_assoc]
    dsimp only
    rw [later]
    split
    next => rfl
    next => rfl

/-- An iterator answers the cuts in order, dries up at the end, and drops nothing. -/
theorem nextIn_spec (scanned : Nat) (rest : Bytes) :
    let next := Cuts.nextIn self scanned rest
    next.2.drop = self.fed rest ∧ (next.1 = none → next.2.rest = []) ∧
      (self.feed scanned rest).1 =
        next.1.toList ++ (next.2.chunker.feed next.2.scanned next.2.rest).1 := by
  induction rest generalizing self scanned with
  | nil => exact ⟨rfl, fun _ => rfl, rfl⟩
  | cons byte rest ih =>
    rw [Cuts.nextIn, feed]
    dsimp only
    split
    next => exact ⟨rfl, fun ends => absurd ends (Option.some_ne_none _), rfl⟩
    next => exact ih _ _

/-- However many cuts are asked for, the chunker goes on from the piece's end. -/
theorem taken_spec (count : Nat) (cuts : Cuts) :
    (Cuts.taken count cuts).1 = (cuts.chunker.feed cuts.scanned cuts.rest).1.take count ∧
      (Cuts.taken count cuts).2.drop = cuts.drop := by
  induction count generalizing cuts with
  | zero => exact ⟨rfl, rfl⟩
  | succ count ih =>
    obtain ⟨dropped, ended, answered⟩ := cuts.chunker.nextIn_spec cuts.scanned cuts.rest
    rw [answered, Cuts.taken, Cuts.next]
    generalize Cuts.nextIn cuts.chunker cuts.scanned cuts.rest = next at dropped ended
    obtain ⟨_ | cut, after⟩ := next
    · refine ⟨?_, dropped⟩
      rw [show after.rest = [] from ended rfl]
      rfl
    · obtain ⟨first, last⟩ := ih after
      refine ⟨?_, last.trans dropped⟩
      dsimp only
      rw [first]
      rfl

theorem call_eq (piece : Bytes) (count : Nat) :
    self.call piece count = ((self.feed 0 piece).1.take count, self.fed piece) := by
  obtain ⟨first, last⟩ := taken_spec count ⟨self, 0, piece⟩
  exact Prod.ext first last

theorem calls_eq (fed : List (Bytes × Nat)) :
    self.calls position fed =
      (zipWith take (fed.map Prod.snd) (self.cutsOf position (fed.map Prod.fst)),
        self.fed (fed.map Prod.fst).flatten) := by
  induction fed generalizing self position with
  | nil => rfl
  | cons one rest ih =>
    obtain ⟨piece, count⟩ := one
    simp [calls, call_eq, ih, cutsOf, ← feed_map, fed_append]

/-- Pieces are cut as the whole is. -/
theorem flatten_cutsOf (pieces : List Bytes) :
    (self.cutsOf position pieces).flatten = (self.feed position pieces.flatten).1 := by
  induction pieces generalizing self position with
  | nil => rfl
  | cons piece rest ih => rw [cutsOf, flatten_cons, flatten_cons, feed_append, ih]

end Calls

section Chain

variable {stream : Bytes} {Related : Nat → Nat → Prop}

/-- What holds of the two ends of every chunk holds along the cuts; the chunker counts the bytes
behind the last cut. -/
theorem isChain_feed
    (each : ∀ (position : Nat) (inside : position < stream.length), (new.fed (stream.take
      position)).Ends stream[position] → (new.fed (stream.take position)).sinceCut ≤ position →
      Related (position - (new.fed (stream.take position)).sinceCut) (position + 1))
    (rest : Bytes)
    (position : Nat)
    (left : stream.drop position = rest)
    (counted : (new.fed (stream.take position)).sinceCut ≤ position) :
    let start := position - (new.fed (stream.take position)).sinceCut
    let cuts := ((new.fed (stream.take position)).feed position rest).1
    (start :: cuts).IsChain Related ∧
      cuts.getLastD start + (new.fed stream).sinceCut = max position stream.length := by
  induction rest generalizing position with
  | nil =>
    have beyond := List.drop_eq_nil_iff.mp left
    rw [take_of_length_le beyond] at counted ⊢
    refine ⟨.singleton _, ?_⟩
    rw [feed, getLastD_nil]
    omega
  | cons byte rest ih =>
    have inside : position < stream.length := by
      by_contra beyond
      rw [drop_eq_nil_of_le (Nat.le_of_not_lt beyond)] at left
      cases left
    obtain ⟨isByte, isRest⟩ := List.cons.inj ((drop_eq_getElem_cons inside).symm.trans left)
    have later := ih (position + 1) isRest
    have ends := each position inside
    rw [← take_append_getElem inside, isByte, fed_concat, step_eq] at later
    rw [isByte] at ends
    rw [feed, step_eq]
    dsimp only at later ⊢
    by_cases cut : (new.fed (stream.take position)).Ends byte
    · rw [if_pos cut] at later
      obtain ⟨chain, last⟩ := later (Nat.zero_le _)
      rw [if_pos cut, decide_eq_true cut, if_pos rfl]
      rw [Nat.sub_zero] at chain last
      refine ⟨chain.cons_cons (ends cut counted), ?_⟩
      rw [getLastD_cons, last]
      omega
    · rw [if_neg cut] at later
      obtain ⟨chain, last⟩ := later (by omega)
      rw [if_neg cut, decide_eq_false cut, if_neg Bool.false_ne_true]
      rw [Nat.add_sub_add_right] at chain last
      refine ⟨chain, ?_⟩
      rw [last]
      omega

theorem sinceCut_lt (bytes : Bytes) : (new.fed bytes).sinceCut < chunkMaxBytes := by
  induction bytes using reverseRecOn with
  | nil => decide
  | append_singleton bytes byte ih =>
    rw [fed_concat, step_eq]
    dsimp only
    split_ifs with ends
    · decide
    · have short := (not_or.mp ends).2
      omega

end Chain

end Chunker

/-- The chunks and the bytes behind the last cut tile the stream, each chunk of an allowed
length. -/
theorem boundaries_tile (stream : Bytes) :
    ((0 :: boundaries stream).IsChain fun start cut =>
        start + chunkMinBytes ≤ cut ∧ cut ≤ start + chunkMaxBytes) ∧
      (boundaries stream).getLastD 0 + (Chunker.new.fed stream).sinceCut = stream.length := by
  rw [← Nat.zero_max stream.length]
  refine Chunker.isChain_feed ?_ stream 0 rfl (Nat.le_refl 0)
  intro position inside ends counted
  have short := Chunker.sinceCut_lt (stream.take position)
  have least : chunkMinBytes ≤ chunkMaxBytes := by decide
  rcases ends with ⟨-, -, long⟩ | full <;> omega

/-- Chunking does not depend on how a stream is fed: each iterator answers the first cuts of
its piece, the pieces' cuts are those of the whole stream, the chunker is left as the whole
stream leaves it, and the chunks tile the stream within their bounds. -/
theorem chunking_is_independent_of_feeding (fed : List (Bytes × Nat)) :
    let stream := (fed.map Prod.fst).flatten
    let cuts := Chunker.new.cutsOf 0 (fed.map Prod.fst)
    let answered := Chunker.new.calls 0 fed
    answered.1 = zipWith take (fed.map Prod.snd) cuts ∧
      cuts.flatten = boundaries stream ∧ answered.2 = (Chunker.new.feed 0 stream).2 ∧
      (boundaries stream).getLastD 0 + answered.2.finish = stream.length ∧
      (0 :: boundaries stream).IsChain fun start cut =>
        start + chunkMinBytes ≤ cut ∧ cut ≤ start + chunkMaxBytes := by
  intro stream cuts answered
  obtain ⟨chain, last⟩ := boundaries_tile stream
  have isAnswered : answered = _ := Chunker.calls_eq .new 0 fed
  rw [isAnswered]
  exact ⟨rfl, Chunker.flatten_cutsOf .new 0 _, (Chunker.feed_fed .new 0 stream).symm, last, chain⟩

section Periodic

variable {stream : Bytes} {period position : Nat}

/-- The last sixty-four bytes decide whether a position is a candidate. -/
theorem rolled_take (deep : 64 ≤ position) (inside : position ≤ stream.length) :
    rolled 0 (stream.take position) = rolled 0 ((stream.drop (position - 64)).take 64) := by
  have front : stream.take position =
      stream.take (position - 64) ++ (stream.drop (position - 64)).take 64 := by
    rw [← take_add, Nat.sub_add_cancel deep]
  rw [front, rolled, foldl_append]
  refine rolled_forgets _ _ ?_
  rw [length_take, length_drop]
  omega

/-- A candidate of a periodic stream recurs, so there is one a period before it. -/
theorem Candidate.recurs (periodic : stream.HasPeriod period) (deep : period + 64 < position)
    (candidate : Candidate stream position) : Candidate stream (position - period) := by
  obtain ⟨-, inside, isCandidate⟩ := candidate
  refine ⟨by omega, by omega, ?_⟩
  have window : (stream.drop (position - 64)).take 64 =
      (stream.drop (position - period - 64)).take 64 := by
    apply ext_getElem?
    intro index
    rw [getElem?_take, getElem?_take]
    split_ifs with within
    · have same := hasPeriod_iff_getElem?.mp periodic (position - period - 64 + index)
        (by omega)
      rw [getElem?_drop, getElem?_drop, same]
      congr 1
      omega
    · rfl
  rw [rolled_take (by omega) (by omega), ← window, ← rolled_take (by omega) inside]
  exact isCandidate

/-- Periodic input starves the content: in a stream with a period below the smallest chunk,
a cut whose previous cut is behind a period and the register's width is forced. -/
theorem periodic_input_is_cut_by_force
    (stream : Bytes)
    (period : Nat)
    (positive : 0 < period)
    (small : period < chunkMinBytes)
    (periodic : stream.HasPeriod period) :
    (boundaries stream).IsChain fun earlier cut =>
      period + 64 ≤ earlier → cut = earlier + chunkMaxBytes := by
  refine (Chunker.isChain_feed ?_ stream 0 rfl (Nat.le_refl 0)).1.tail
  rintro position inside (⟨candidate, counted, -⟩ | full) behind deep
  · rw [Chunker.register_fed, ← rolled_concat, take_append_getElem inside] at candidate
    have earlier := Candidate.recurs periodic (by omega) ⟨Nat.succ_pos _, inside, candidate⟩
    have few := Chunker.new.sinceCandidate_le earlier (by omega) (period - 1) (by omega)
    rw [show position + 1 - period + (period - 1) = position by omega] at few
    have bound := (Chunker.new.fed (stream.take position)).since_le
    omega
  · omega

theorem periodic_input_is_cut_by_force_zeros :
    (boundaries (Bytes.zeros 600000)).IsChain fun earlier cut =>
      1 + 64 ≤ earlier → cut = earlier + chunkMaxBytes := by
  refine periodic_input_is_cut_by_force _ 1 (by decide) (by decide) (hasPeriod_iff_getElem?.mpr ?_)
  intro index inside
  rw [Bytes.length_zeros] at inside
  rw [Bytes.zeros, getElem?_replicate_of_lt (by omega), getElem?_replicate_of_lt (by omega)]

end Periodic

end FSystem.Blob
