import Mathlib.Data.List.Count

/-!
# Marking until nothing more is marked

Passes over a list of places, each pass marking what a test on the marks so far says
should be marked.  With a pass to spare for every unmarked place the marking is closed
under the test, and it marks nothing that a closed property does not allow.
-/

namespace FSystem

/-- Marks on places. -/
structure Marking (Marks : Type*) (ι : Type*) where
  holds : Marks → ι → Bool
  mark : Marks → ι → Marks
  holds_mark : ∀ marks place other,
    holds (mark marks place) other = true ↔ other = place ∨ holds marks other = true

namespace Marking

variable {Marks ι : Type*} (marking : Marking Marks ι) (test : Marks → ι → Bool) (places : List ι)

/-- Look at one place: mark it if it is unmarked and the test says so. -/
def look (progress : Marks × Bool) (place : ι) : Marks × Bool :=
  if marking.holds progress.1 place then progress
  else if test progress.1 place then (marking.mark progress.1 place, true)
  else progress

/-- Look at every place once. -/
def pass (places : List ι) (marks : Marks) : Marks × Bool :=
  places.foldl (marking.look test) (marks, false)

/-- Look at every place until nothing more is marked. -/
def close (places : List ι) : Nat → Marks → Marks
  | 0, marks => marks
  | fuel + 1, marks =>
    let result := marking.pass test places marks
    if result.2 then close places fuel result.1 else result.1

/-- Looking leaves everything, or marks one unmarked place that passes the test. -/
theorem look_cases (progress : Marks × Bool) (place : ι) :
    marking.look test progress place = progress ∧
        (marking.holds progress.1 place = true ∨ test progress.1 place = false) ∨
      marking.holds progress.1 place = false ∧ test progress.1 place = true ∧
        marking.look test progress place = (marking.mark progress.1 place, true) := by
  unfold look
  cases held : marking.holds progress.1 place with
  | true => exact .inl ⟨rfl, .inl rfl⟩
  | false =>
    cases passes : test progress.1 place with
    | false => exact .inl ⟨rfl, .inr rfl⟩
    | true => exact .inr ⟨rfl, rfl, rfl⟩

/-- How many of some places are unmarked. -/
def unmarked (places : List ι) (marks : Marks) : Nat :=
  places.countP fun place => !marking.holds marks place

/-- Looking at some places: marks stay; something found is one more mark, and nothing found is
no change and no place waiting. -/
structure Looked (places : List ι) (before after : Marks × Bool) : Prop where
  keeps : ∀ place, marking.holds before.1 place = true → marking.holds after.1 place = true
  found : after.2 = true → before.2 = true ∨
    ∃ place ∈ places, marking.holds before.1 place = false ∧ marking.holds after.1 place = true
  still : after.2 = false → after = before ∧
    ∀ place ∈ places, marking.holds before.1 place = true ∨ test before.1 place = false

theorem foldl_looked (progress : Marks × Bool) :
    marking.Looked test places progress (places.foldl (marking.look test) progress) := by
  induction places generalizing progress with
  | nil =>
    exact ⟨fun _ held => held, fun found => .inl found,
      fun _ => ⟨rfl, fun _ member => absurd member List.not_mem_nil⟩⟩
  | cons first rest ih =>
    rw [List.foldl_cons]
    rcases marking.look_cases test progress first with ⟨same, quiet⟩ | ⟨fresh, _, marked⟩
    · rw [same]
      have later := ih progress
      refine ⟨later.keeps, fun found => ?_, fun none => ⟨(later.still none).1, ?_⟩⟩
      · rcases later.found found with found | ⟨place, member, fresh, held⟩
        · exact .inl found
        · exact .inr ⟨place, List.mem_cons_of_mem _ member, fresh, held⟩
      · intro place member
        rcases List.mem_cons.1 member with rfl | member
        · exact quiet
        · exact (later.still none).2 place member
    · rw [marked]
      have later := ih (marking.mark progress.1 first, true)
      have held := later.keeps first ((marking.holds_mark ..).2 (.inl rfl))
      refine ⟨fun place old => later.keeps place ((marking.holds_mark ..).2 (.inr old)),
        fun _ => .inr ⟨first, List.mem_cons_self, fresh, held⟩, fun none => ?_⟩
      -- Something was found already, so the pass cannot end having found nothing.
      rw [(later.still none).1] at none
      cases none

variable {place : ι} {marks : Marks}

theorem unmarked_lt
    {places : List ι}
    {before after : Marks}
    (keeps : ∀ place, marking.holds before place = true → marking.holds after place = true)
    (member : place ∈ places)
    (fresh : marking.holds before place = false)
    (held : marking.holds after place = true) :
    marking.unmarked places after < marking.unmarked places before := by
  unfold unmarked
  obtain ⟨front, back, rfl⟩ := List.append_of_mem member
  have fewer : ∀ places : List ι,
      places.countP (fun place => !marking.holds after place) ≤
        places.countP fun place => !marking.holds before place := by
    intro places
    apply List.countP_mono_left
    intro other _ absent
    by_contra old
    rw [keeps other (by simpa using old)] at absent
    cases absent
  have first := fewer front
  have second := fewer back
  simp only [List.countP_append, List.countP_cons, fresh, held, Bool.not_false, Bool.not_true,
    if_true]
  simp only [Bool.false_eq_true, if_false]
  omega

theorem unmarked_le_length (marks : Marks) : marking.unmarked places marks ≤ places.length :=
  List.countP_le_length

/-- With a pass to spare for every unmarked place, no place is left waiting. -/
theorem close_closed {fuel : Nat} (enough : marking.unmarked places marks < fuel)
    (member : place ∈ places) (waits : test (marking.close test places fuel marks) place = true) :
    marking.holds (marking.close test places fuel marks) place = true := by
  suffices closed : ∀ place ∈ places,
      marking.holds (marking.close test places fuel marks) place = true ∨
        test (marking.close test places fuel marks) place = false by
    rcases closed place member with held | quiet
    · exact held
    · rw [waits] at quiet
      cases quiet
  clear waits member
  induction fuel generalizing marks with
  | zero => cases enough
  | succ fuel ih =>
    have looked := marking.foldl_looked test places (marks, false)
    unfold close
    change marking.Looked test places (marks, false) (marking.pass test places marks) at looked
    generalize marking.pass test places marks = result at looked
    obtain ⟨after, found⟩ := result
    cases found with
    | false =>
      obtain ⟨same, quiet⟩ := looked.still rfl
      obtain rfl : after = marks := congrArg Prod.fst same
      exact quiet
    | true =>
      apply ih
      rcases looked.found rfl with found | ⟨place, member, fresh, held⟩
      · cases found
      · have fewer : marking.unmarked places after < marking.unmarked places marks :=
          marking.unmarked_lt looked.keeps member fresh held
        dsimp only
        omega

/-- Marking stays inside every property the test cannot leave. -/
theorem close_sound
    (allowed : ι → Prop)
    (stays : ∀ marks, (∀ place, marking.holds marks place = true → allowed place) →
      ∀ place, test marks place = true → allowed place)
    (places : List ι)
    (fuel : Nat)
    (inside : ∀ place, marking.holds marks place = true → allowed place) :
    ∀ place, marking.holds (marking.close test places fuel marks) place = true → allowed place := by
  have folded : ∀ (places : List ι) (progress : Marks × Bool),
      (∀ place, marking.holds progress.1 place = true → allowed place) →
      ∀ place, marking.holds (places.foldl (marking.look test) progress).1 place = true →
        allowed place := by
    intro places
    induction places with
    | nil => exact fun _ inside => inside
    | cons first rest ih =>
      intro progress inside
      apply ih
      rcases marking.look_cases test progress first with ⟨same, _⟩ | ⟨_, passes, marked⟩
      · rwa [same]
      · rw [marked]
        intro place held
        rcases (marking.holds_mark ..).1 held with rfl | held
        · exact stays progress.1 inside place passes
        · exact inside place held
  induction fuel generalizing marks with
  | zero => exact inside
  | succ fuel ih =>
    have after := folded places (marks, false) inside
    unfold close
    dsimp only
    split
    · exact ih after
    · exact after

end Marking
end FSystem
