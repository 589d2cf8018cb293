import Mathlib.Data.List.Forall2

/-!
# Runs of a transition function

A system takes one operation after another.  An invariant that every step keeps
holds at the end of every run; one that a step keeps only when a condition on
the state before it holds, holds at the end of every run whose steps all meet
that condition.  A model that can follow every step allows the answers of every run; its
tables are related to the system's entry by entry.
-/

namespace FSystem.Runs

variable {State Operation : Type}

/-- The state after some operations. -/
def run (step : State → Operation → State) (start : State) (operations : List Operation) :
    State :=
  operations.foldl step start

/-- Every step of a run meets a condition on the state before it. -/
def Along (step : State → Operation → State) (condition : State → Operation → Prop) :
    State → List Operation → Prop
  | _, [] => True
  | state, operation :: rest =>
    condition state operation ∧ Along step condition (step state operation) rest

variable {step : State → Operation → State}
  {condition : State → Operation → Prop} {operations : List Operation} {start : State}

instance Along.decidable
    [∀ state operation, Decidable (condition state operation)] :
    (state : State) → (operations : List Operation) →
      Decidable (Along step condition state operations)
  | _, [] => inferInstanceAs (Decidable True)
  | state, operation :: rest =>
    have : Decidable (Along step condition (step state operation) rest) :=
      Along.decidable (step state operation) rest
    inferInstanceAs (Decidable (_ ∧ _))

/-- An invariant every conditioned step keeps holds after every conditioned run. -/
theorem invariant_of_along (invariant : State → Prop)
    (kept : ∀ state operation, condition state operation → invariant state →
      invariant (step state operation))
    (initial : invariant start) (along : Along step condition start operations) :
    invariant (run step start operations) := by
  induction operations generalizing start with
  | nil => exact initial
  | cons operation rest ih => exact ih (kept start operation along.1 initial) along.2

/-- An invariant that every step keeps holds at the end of every run. -/
theorem invariant_of_step (invariant : State → Prop)
    (kept : ∀ state operation, invariant state → invariant (step state operation))
    (initial : invariant start) (operations : List Operation) :
    invariant (run step start operations) := by
  induction operations generalizing start with
  | nil => exact initial
  | cons operation rest ih => exact ih (kept start operation initial)

/-- What an invariant and a step's condition imply holds along every conditioned run. -/
theorem along_of_invariant
    (invariant : State → Prop)
    {property : State → Operation → Prop}
    (kept : ∀ state operation, condition state operation → invariant state →
      property state operation ∧ invariant (step state operation))
    (initial : invariant start)
    (along : Along step condition start operations) :
    Along step property start operations := by
  induction operations generalizing start with
  | nil => trivial
  | cons operation rest ih =>
    have next := kept start operation along.1 initial
    exact ⟨next.1, ih next.2 along.2⟩

theorem along_append (first second : List Operation) :
    Along step condition start (first ++ second) ↔
      Along step condition start first ∧ Along step condition (run step start first) second := by
  induction first generalizing start with
  | nil => exact (iff_of_eq (true_and _)).symm
  | cons operation rest ih => exact (and_congr_right' ih).trans (and_assoc).symm

/-- A condition on operations alone holds along a run of such operations. -/
theorem along_of_forall {allowed : Operation → Prop}
    (all : ∀ operation ∈ operations, allowed operation) (start : State) :
    Along step (fun _ operation => allowed operation) start operations := by
  induction operations generalizing start with
  | nil => exact trivial
  | cons operation rest ih =>
    refine ⟨all operation List.mem_cons_self, ih ?_ _⟩
    exact fun other member => all other (List.mem_cons_of_mem _ member)

section Traces

variable {Answer Model : Type}

/-- The operations of a run, each with its answer. -/
def trace (step : State → Operation → State) (answer : State → Operation → Answer) :
    State → List Operation → List (Operation × Answer)
  | _, [] => []
  | state, operation :: rest =>
    (operation, answer state operation) :: trace step answer (step state operation) rest

variable {answer : State → Operation → Answer}
  {allowed : Model → Operation → Answer → Model → Prop}

end Traces

section Tables

variable {α β : Type} {related : α → β → Prop} {first : List α} {second : List β}

section

variable (alike : List.Forall₂ related first second)

include alike

/-- Tables related entry by entry have related entries, or none, at every index. -/
theorem entries_related (index : Nat) :
    (first[index]? = none ∧ second[index]? = none) ∨
      ∃ one other, first[index]? = some one ∧ second[index]? = some other ∧ related one other := by
  induction alike generalizing index with
  | nil => exact .inl ⟨rfl, rfl⟩
  | cons head tail ih =>
    cases index with
    | zero => exact .inr ⟨_, _, rfl, rfl, head⟩
    | succ index => exact ih index

theorem set_related (index : Nat) {one : α} {other : β} (agree : related one other) :
    List.Forall₂ related (first.set index one) (second.set index other) := by
  induction alike generalizing index with
  | nil => exact .nil
  | cons head tail ih =>
    cases index with
    | zero => exact .cons agree tail
    | succ index => exact .cons head (ih index)

theorem concat_related {one : α} {other : β} (agree : related one other) :
    List.Forall₂ related (first ++ [one]) (second ++ [other]) :=
  List.rel_append alike (.cons agree .nil)

end

end Tables

section Results

variable {ε α : Type} {result : Except ε α}

/-- The value of a computation that does not fail. -/
theorem eq_ok_get (isSome : result.toOption.isSome) :
    result = .ok (result.toOption.get isSome) := by
  cases result with
  | error refusal => cases isSome
  | ok value => rfl

theorem eq_error_of_map {β : Type} {refusal : ε} (f : α → β)
    (refused : result.map f = .error refusal) : result = .error refusal := by
  cases result with
  | error other => exact congrArg _ (Except.error.inj refused)
  | ok value => cases refused

theorem mem_toOption {value : α} (ok : result = .ok value) : value ∈ result.toOption := by
  rw [ok]
  rfl

end Results

end FSystem.Runs
