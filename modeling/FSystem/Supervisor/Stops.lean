import FSystem.Supervisor.Policy

/-!
# Stopping a stuck occupant

The board carries one reading of abandoned frames from call to call, whoever occupies the place,
and a new occupant counts from zero.  What the reading says of the occupant before it hides the
first frames of the next.
-/

namespace FSystem.Supervisor

open FSystem.Runs

/-- A new occupant starts, the count of frames it abandoned rises, or a run looks at the place. -/
inductive Happening
  | starts
  | abandons (total : UInt64)
  | looks (facts : Facts) (now : Nat)

/-- A place over its occupants: the board's reading, which occupant it is in, the frames that
one abandoned, and what the last look read. -/
structure Tenancy where
  seen : UInt64
  occupant : Nat
  abandoned : UInt64
  read : Option UInt64

namespace Tenancy

/-- A place with its first occupant. -/
def built (seen : UInt64) : Tenancy := ⟨seen, 0, 0, none⟩

variable (record : Record) (self : Tenancy) (facts : Facts) (now : Nat)

/-- The answer to one call. -/
def answered : Answer :=
  answer record { facts with liveness.abandonedFrames := self.abandoned, seen := self.seen } now

/-- The tenancy after a happening. -/
def step : Happening → Tenancy
  | .starts => ⟨self.seen, self.occupant + 1, 0, none⟩
  | .abandons total =>
    { self with abandoned := if self.abandoned ≤ total then total else self.abandoned }
  | .looks facts now =>
    { self with
      seen := (self.answered record facts now).seen
      read := if facts.occupied then some self.abandoned else self.read }

/-- An occupant that waits has abandoned a frame since it was last looked at. -/
def Stuck : Prop :=
  (facts.occupied ∧ facts.ended = none ∧ facts.taken = false) ∧
    facts.liveness.outstandingWaits ≠ 0 ∧ self.read.getD 0 < self.abandoned

/-- A call that finds an occupant stuck stops it. -/
def Stops : Happening → Prop
  | .looks facts now => self.Stuck facts →
    (self.answered record facts now).stop.map Cause.of = some Cause.timedOut
  | _ => True

/-- The first call that finds an occupant stuck sees more frames abandoned than were read before
it. -/
def Apparent : Happening → Prop
  | .looks facts _ => self.Stuck facts → self.read = none → self.seen < self.abandoned
  | _ => True

/-- A call stops an occupant that abandoned a frame since the last look at it. -/
def causes (occupant : Nat) (frame : UInt64) : Happening → Bool
  | .looks facts now => self.occupant == occupant && self.read.getD 0 < frame &&
    frame ≤ self.abandoned && (self.answered record facts now).stop.isSome
  | _ => false

/-- A frame that was abandoned before the last look. -/
def spent (occupant : Nat) (frame : UInt64) : Bool :=
  occupant < self.occupant || occupant == self.occupant && frame ≤ self.read.getD 0

/-- The board carries what was read of this occupant, which counts upwards. -/
structure Carried (place : Tenancy) : Prop where
  reading : ∀ reading, place.read = some reading → place.seen = reading
  behind : place.read.getD 0 ≤ place.abandoned

variable {record self facts now} (carried : self.Carried)

theorem of_pack_timedOut (detail : UInt64) :
    Cause.of (Cause.pack Cause.timedOut detail) = Cause.timedOut := by
  apply UInt64.toNat_inj.mp
  have low : detail.toNat <<< 32 % 2 ^ 64 % 2 ^ 32 = 0 := by
    rw [Nat.shiftLeft_eq]
    omega
  have kept := Nat.and_two_pow_sub_one_eq_mod (detail.toNat <<< 32 % 2 ^ 64 ||| 5) 32
  rw [Nat.or_mod_two_pow, low] at kept
  simpa [Cause.of, Cause.pack, Cause.timedOut] using kept

theorem answered_stop (live : facts.occupied ∧ facts.ended = none ∧ facts.taken = false) :
    (self.answered record facts now).stop =
      fate ⟨facts.liveness.outstandingWaits, self.abandoned⟩ self.seen := by
  simp [answered, answer, live]

include carried

/-- The step lemma. -/
theorem Carried.step (record : Record) (happening : Happening) :
    (self.step record happening).Carried := by
  cases happening with
  | starts => exact ⟨nofun, UInt64.le_refl 0⟩
  | abandons total => exact ⟨carried.reading, by grind [Tenancy.step, carried.behind]⟩
  | looks facts now =>
    have seen : (self.answered record facts now).seen =
        if facts.occupied then self.abandoned else self.seen := by
      grind [answered, answer]
    constructor <;> grind [Tenancy.step, carried.reading, carried.behind]

/-- A stop is seen where it is apparent. -/
theorem stops_iff (happening : Happening) :
    self.Stops record happening ↔ self.Apparent happening := by
  cases happening with
  | starts | abandons => exact Iff.rfl
  | looks facts now =>
    refine imp_congr_right fun stuck => ?_
    rw [answered_stop stuck.1, fate]
    cases read : self.read <;> grind [stuck.2, carried.reading, of_pack_timedOut]

theorem causes_add_spent (record : Record) (happening : Happening) (occupant : Nat)
    (frame : UInt64) :
    (self.causes record occupant frame happening).toNat + (self.spent occupant frame).toNat ≤
      ((self.step record happening).spent occupant frame).toNat := by
  have behind := carried.behind
  cases happening with
  | starts | abandons => grind [causes, spent, Tenancy.step]
  | looks facts now =>
    have occupied (stop : (self.answered record facts now).stop.isSome) : facts.occupied := by
      grind [answered, answer]
    grind [causes, spent, Tenancy.step]

/-- One occupant and frame cause one stop at most. -/
theorem caused_le (occupant : Nat) (frame : UInt64) (happenings : List Happening) :
    (trace (step record) (causes record · occupant frame) self happenings).countP (·.2) +
      (self.spent occupant frame).toNat ≤ 1 := by
  induction happenings generalizing self with
  | nil => simpa [trace] using Bool.toNat_le _
  | cons happening rest ih =>
    have after := ih (carried.step record happening)
    have here := causes_add_spent carried record happening occupant frame
    simp only [trace, List.countP_cons]
    cases causes : self.causes record occupant frame happening <;> grind

omit carried

/-- Whoever occupies a place in turn, every occupant found stuck is stopped exactly where the first
call that finds one stuck finds more frames abandoned than were read of the occupant before it,
and no abandoned frame causes a second stop. -/
theorem stuck_occupants_are_stopped
    (record : Record)
    (seen : UInt64)
    (happenings : List Happening) :
    (Along (step record) (Stops record) (built seen) happenings ↔
      Along (step record) Apparent (built seen) happenings) ∧
    ∀ occupant frame, (trace (step record) (causes record · occupant frame) (built seen)
      happenings).countP (·.2) ≤ 1 := by
  have carried : (built seen).Carried := ⟨nofun, UInt64.le_refl 0⟩
  refine ⟨⟨?_, ?_⟩, ?_⟩
  · exact along_of_invariant Carried (fun place happening stops carried =>
      ⟨(stops_iff carried happening).mp stops, carried.step record happening⟩) carried
  · exact along_of_invariant Carried (fun place happening apparent carried =>
      ⟨(stops_iff carried happening).mpr apparent, carried.step record happening⟩) carried
  · intro occupant frame
    exact Nat.le_of_add_right_le (caused_le carried occupant frame happenings)

/-- Five frames read of one occupant hide the three of the next. -/
theorem stuck_occupant_is_hidden : ¬Along (step ⟨Restart.always, 1, 1, 1, 1⟩)
    (Stops ⟨Restart.always, 1, 1, 1, 1⟩) (built 0)
    [.abandons 5, .looks ⟨none, true, false, .untouched, ⟨0, 0⟩, 0⟩ 0, .starts, .abandons 3,
      .looks ⟨none, true, false, .untouched, ⟨1, 0⟩, 0⟩ 1] := by
  rintro ⟨-, -, -, -, stops, -⟩
  exact absurd (stops ⟨by decide, by decide⟩) (by decide)

end Tenancy

end FSystem.Supervisor
