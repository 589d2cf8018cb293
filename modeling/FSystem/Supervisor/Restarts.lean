import FSystem.Supervisor.Policy

/-!
# Restarts over the runs of a supervisor

A place is looked at once in every run, and all that is carried to the next one is the tally
and the last reading.  A tally no decision touched is how a place that was never filled looks,
and how a place looks whose first occupant died of a cause the policy leaves it empty after.
-/

namespace FSystem.Supervisor

/-- What the frame and the assembler say about a place in one run. -/
structure Look where
  ended : Option UInt64
  occupied : Bool
  taken : Bool
  liveness : Liveness
  now : Nat
  deriving DecidableEq

/-- A look at an empty place about which there is nothing to say. -/
def Look.empty (now : Nat) : Look := ⟨none, false, false, ⟨0, 0⟩, now⟩

/-- A place between two runs: what the board carries, whether an occupant's death is still to be
reported, whether it stays empty until the assembler fills it, and the restarts in this window. -/
structure Place where
  budget : Budget
  seen : UInt64
  filled : Bool
  barred : Bool
  granted : Nat
  deriving DecidableEq

namespace Place

/-- A place the frame built. -/
def built : Place := ⟨Budget.untouched, 0, false, false, 0⟩

variable (record : Record)

/-- The answer to one look. -/
def answered (self : Place) (look : Look) : Answer :=
  answer record
    ⟨look.ended, look.occupied, look.taken, self.budget, look.liveness, self.seen⟩ look.now

/-- Whether a death was reported that the policy restarts after. -/
def renews (look : Look) : Bool :=
  look.ended.any fun packed => record.restartsAfterCause (Cause.of packed)

/-- The answer refills the place. -/
def Refills (answer : Answer) : Prop := ∃ pause, answer.verdict = .restart pause

instance (answer : Answer) : Decidable (Refills answer) :=
  match found : answer.verdict with
  | .restart pause => isTrue ⟨pause, found⟩
  | .leave | .retire => isFalse fun ⟨_, same⟩ => by simp [found] at same

/-- The place after one run. -/
def next (self : Place) (look : Look) : Place :=
  let answer := self.answered record look
  let refilled := Decidable.decide (Refills answer)
  let opens := renews record look && record.elapsed self.budget look.now
  { budget := answer.budget
    seen := answer.seen
    filled := look.taken || refilled || (self.filled && look.ended.isNone)
    barred := !look.taken && (self.barred || answer.verdict == .retire ||
      look.ended.isSome && !renews record look)
    granted := (if opens then 0 else self.granted) +
      if look.ended.isSome && refilled then 1 else 0 }

/-- Only an occupant that was put in is found or reported dead; the assembler takes a place only
when it is empty and no death was reported. -/
def Plausible (self : Place) (look : Look) : Prop :=
  (look.occupied → self.filled) ∧ (look.ended.isSome → self.filled ∧ !look.occupied) ∧
    (look.taken → look.ended = none ∧ !look.occupied)

/-- No death after which the policy leaves the place empty happens while the tally is untouched. -/
def Marked (self : Place) (look : Look) : Prop :=
  look.ended.isSome → !renews record look → self.budget ≠ Budget.untouched

/-- A barred place is not refilled, a restart after a death is tallied in its window, and no
window has more than the manifest allows. -/
structure Respects (place : Place) (look : Look) : Prop where
  barred : place.barred → ¬ Refills (place.answered record look)
  added : look.ended.isSome → Refills (place.answered record look) →
    (place.next record look).budget.used = (record.windowed place.budget look.now).used + 1
  counted : (place.next record look).budget.used = (place.next record look).granted
  within : (place.next record look).granted ≤ record.maxRestarts

end Place

/-- What deciding on a death does. -/
theorem decide_cases (record : Record) (budget : Budget) (cause : UInt64) (now : Nat) :
    (record.restartsAfterCause cause = false ∧ decide record budget cause now = (.leave, budget)) ∨
    (record.restartsAfterCause cause = true ∧ record.maxRestarts ≤ (record.windowed budget now).used
      ∧ decide record budget cause now = (.retire, record.windowed budget now)) ∨
    (record.restartsAfterCause cause = true ∧
      (record.windowed budget now).used < record.maxRestarts ∧
      ∃ pause, decide record budget cause now = (.restart pause,
        ⟨(record.windowed budget now).used + 1, (record.windowed budget now).opened⟩)) := by
  unfold decide
  cases restarts : record.restartsAfterCause cause with
  | false => exact .inl ⟨rfl, rfl⟩
  | true =>
    by_cases spent : record.maxRestarts ≤ (record.windowed budget now).used
    · exact .inr (.inl ⟨rfl, spent, if_pos spent⟩)
    · exact .inr (.inr ⟨rfl, Nat.lt_of_not_le spent, _, if_neg spent⟩)

/-- A policy that ever restarts has a budget. -/
theorem maxRestarts_pos {record : Record} (checked : record.checkRestart = .ok ()) {cause : UInt64}
    (restarts : record.restartsAfterCause cause = true) : 0 < record.maxRestarts := by
  have notNever : record.restart ≠ Restart.never := by
    rintro never
    simp [Record.restartsAfterCause, never, Restart.never, Restart.onFault, Restart.always]
      at restarts
  rw [Record.checkRestart, if_neg notNever] at checked
  by_contra spent
  simp [Nat.eq_zero_of_not_pos spent] at checked

namespace Place

variable {record : Record}

/-- What every run leaves behind. -/
structure Sound (record : Record) (place : Place) : Prop where
  barred : place.barred → place.filled = false ∧ place.budget ≠ Budget.untouched
  counted : place.budget.used = place.granted
  within : place.granted ≤ record.maxRestarts

theorem next_budget (place : Place) (look : Look) :
    (place.next record look).budget = (place.answered record look).budget := rfl

variable {look : Look} {place : Place}

theorem notTaken_of_death (possible : place.Plausible look) (ended : look.ended.isSome) :
    look.taken = false := by
  by_contra taken
  simp [(possible.2.2 (by simpa using taken)).1] at ended

/-- What a look at a place does when no death is reported. -/
theorem answered_quiet (record : Record) (place : Place) (alive : look.ended = none) :
    (place.answered record look).budget = place.budget ∧
      ((place.answered record look).verdict = .leave ∨
        (place.answered record look).verdict = .restart 0 ∧ place.budget = Budget.untouched) := by
  simp only [answered, answer, alive]
  split
  · exact ⟨rfl, .inl rfl⟩
  · split
    · exact ⟨rfl, .inl rfl⟩
    · split
      next untouched => exact ⟨rfl, .inr ⟨rfl, untouched⟩⟩
      next => exact ⟨rfl, .inl rfl⟩

/-- The step lemma, for a look at a place of which no death is reported. -/
theorem Sound.quiet (sound : place.Sound record) (alive : look.ended = none) :
    place.Respects record look ∧ (place.next record look).Sound record := by
  obtain ⟨budget, said⟩ := answered_quiet record place alive
  have left (barred : place.barred) : (place.answered record look).verdict = .leave :=
    said.resolve_right fun refilled => (sound.barred barred).2 refilled.2
  have granted : (place.next record look).granted = place.granted := by simp [next, renews, alive]
  have counted : (place.next record look).budget.used = (place.next record look).granted := by
    rw [granted, next_budget, budget, sound.counted]
  have within : (place.next record look).granted ≤ record.maxRestarts := granted ▸ sound.within
  refine ⟨⟨?_, by simp [alive], counted, within⟩, ?_, counted, within⟩
  · intro barred
    simp [Refills, left barred]
  intro barred
  have notRetired : (place.answered record look).verdict ≠ .retire := by
    rcases said with leaves | ⟨refills, -⟩ <;> simp [*]
  have facts : look.taken = false ∧ place.barred = true := by
    simpa [next, alive, notRetired] using barred
  refine ⟨?_, ?_⟩
  · simp [next, facts.1, Refills, left facts.2, (sound.barred facts.2).1]
  · exact fun untouched => (sound.barred facts.2).2 (budget.symm.trans untouched)

/-- The step lemma, for a death. -/
theorem Sound.death
    (checked : record.checkRestart = .ok ())
    {packed : UInt64}
    (sound : place.Sound record)
    (ended : look.ended = some packed)
    (possible : place.Plausible look)
    (marked : place.Marked record look) :
    place.Respects record look ∧ (place.next record look).Sound record := by
  have filled : place.filled = true := (possible.2.1 (by simp [ended])).1
  have notTaken := notTaken_of_death possible (by simp [ended])
  have free : place.barred = false := by
    by_contra barred
    simpa [filled] using (sound.barred (by simpa using barred)).1
  have said : ((place.answered record look).verdict, (place.answered record look).budget) =
      decide record place.budget (Cause.of packed) look.now := by
    simp [answered, answer, notTaken, ended]
  have renewed : renews record look = record.restartsAfterCause (Cause.of packed) := by
    simp [renews, ended]
  have windowed : (record.windowed place.budget look.now).used =
      if record.elapsed place.budget look.now then 0 else place.granted := by
    rw [← sound.counted, Record.windowed]
    split <;> rfl
  rcases decide_cases record place.budget (Cause.of packed) look.now with
    ⟨leaves, decided⟩ | ⟨restarts, spent, decided⟩ | ⟨restarts, unspent, pause, decided⟩
  · obtain ⟨verdict, budget⟩ := Prod.mk.inj (said.trans decided)
    have touched := marked (by simp [ended]) (by simp [renewed, leaves])
    have counted : (place.next record look).budget.used = (place.next record look).granted := by
      simp [next, budget, renewed, leaves, Refills, verdict, sound.counted]
    have within : (place.next record look).granted ≤ record.maxRestarts := by
      simpa [next, renewed, leaves, Refills, verdict] using sound.within
    refine ⟨⟨by simp [free], by simp [Refills, verdict], counted, within⟩, ?_, counted, within⟩
    simp [next, notTaken, Refills, verdict, ended, budget, touched]
  · obtain ⟨verdict, budget⟩ := Prod.mk.inj (said.trans decided)
    have counted : (place.next record look).budget.used = (place.next record look).granted := by
      simp [next, budget, renewed, restarts, Refills, verdict, windowed]
    have within : (place.next record look).granted ≤ record.maxRestarts := by
      rw [← counted, next_budget, budget, windowed]
      split
      · exact Nat.zero_le _
      · exact sound.within
    refine ⟨⟨by simp [free], by simp [Refills, verdict], counted, within⟩, ?_, counted, within⟩
    have touched : record.windowed place.budget look.now ≠ Budget.untouched := by
      intro untouched
      have := maxRestarts_pos checked restarts
      simp [untouched, Budget.untouched] at spent
      omega
    simp [next, notTaken, Refills, verdict, ended, budget, touched]
  · obtain ⟨verdict, budget⟩ := Prod.mk.inj (said.trans decided)
    have counted : (place.next record look).budget.used = (place.next record look).granted := by
      simp [next, budget, renewed, restarts, Refills, verdict, windowed, ended]
    have within : (place.next record look).granted ≤ record.maxRestarts := by
      rw [← counted, next_budget, budget]
      exact unspent
    refine ⟨⟨by simp [free], ?_, counted, within⟩, ?_, counted, within⟩
    · intro _ _
      simp [next, budget]
    · simp [next, free, verdict, ended, renewed, restarts]

/-- A run of a supervisor over a place of an accepted manifest respects the policy as long as
no occupant dies, while the tally is untouched, of a cause the policy leaves the place empty
after; after such a death the next look at the empty place refills it. -/
theorem restarts_respect_the_policy (record : Record) (checked : record.checkRestart = .ok ()) :
    (∀ looks : List Look,
      Runs.Along (next record) (fun place look => place.Plausible look ∧ place.Marked record look)
        built looks →
      Runs.Along (next record) (Respects record) built looks) ∧
    ∀ (place : Place) (look : Look) (now : Nat),
      place.Plausible look → ¬ place.Marked record look →
        (place.next record look).Plausible (.empty now) ∧
          ¬ (place.next record look).Respects record (.empty now) := by
  refine ⟨fun looks => ?_, ?_⟩
  · refine Runs.along_of_invariant (Sound record) ?_ ?_
    · rintro place look ⟨possible, marked⟩ sound
      cases ended : look.ended with
      | none => exact sound.quiet ended
      | some packed => exact sound.death checked ended possible marked
    · exact ⟨by simp [built], rfl, Nat.zero_le _⟩
  · intro place look now possible unmarked
    obtain ⟨ended, leaves, untouched⟩ : look.ended.isSome = true ∧
        renews record look = false ∧ place.budget = Budget.untouched := by
      simpa [Marked] using unmarked
    obtain ⟨packed, death⟩ := Option.isSome_iff_exists.mp ended
    have notTaken := notTaken_of_death possible ended
    have barred : (place.next record look).barred = true := by simp [next, notTaken, ended, leaves]
    have left : record.restartsAfterCause (Cause.of packed) = false := by
      simpa [renews, death] using leaves
    have kept : (place.next record look).budget = Budget.untouched := by
      simp [next_budget, answered, answer, notTaken, death, decide, left, untouched]
    refine ⟨by simp [Plausible, Look.empty], fun respects => respects.barred barred ⟨0, ?_⟩⟩
    simp [answered, answer, Look.empty, kept]

/-- A manifest that restarts after a fault, three times in a hundred ticks. -/
def faultRecord : Record := ⟨Restart.onFault, 1, 8, 3, 100⟩

/-- A place is filled, its occupant dies of a fault after the window, and is replaced. -/
theorem restarts_respect_the_policy_after_a_fault :
    faultRecord.checkRestart = .ok () ∧
      Runs.Along (next faultRecord) (Respects faultRecord) built
        [.empty 0, { Look.empty 200 with ended := some Cause.fault }] :=
  ⟨by decide, (restarts_respect_the_policy faultRecord (by decide)).1 _
    (by simp [Runs.Along, Plausible, Marked]; decide)⟩

/-- An occupant exits under a manifest that restarts after a fault alone: the place is left
empty, and refilled at the next look. -/
theorem restart_after_an_exit :
    faultRecord.checkRestart = .ok () ∧
      Runs.Along (next faultRecord) Plausible built
        [.empty 0, { Look.empty 5 with ended := some Cause.exit }, .empty 6] ∧
      ¬ Runs.Along (next faultRecord) (Respects faultRecord) built
        [.empty 0, { Look.empty 5 with ended := some Cause.exit }, .empty 6] := by
  refine ⟨by decide, by simp [Runs.Along, Plausible]; decide, ?_⟩
  rintro ⟨-, -, last, -⟩
  exact last.barred (by decide) ⟨0, by decide⟩

end Place

end FSystem.Supervisor
