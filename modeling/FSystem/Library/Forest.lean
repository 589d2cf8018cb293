import Mathlib.Logic.Relation

/-!
# Derivation forests

Names that were granted or derived from other names, each with the rights it carries.
A forest is well formed when every parent is there and carries at least what its
children carry, and when following parents ends at a granted name.  Adding a leaf and
pruning a set that is closed under derivation keep a forest well formed.
-/

namespace FSystem

/-- What a name is: the name it was derived from, if any, and its rights. -/
@[ext] structure Forest.Entry (ν ρ : Type*) where
  parent : Option ν
  rights : ρ

/-- The names there are, with what each one is. -/
abbrev Forest (ν ρ : Type*) := ν → Option (Forest.Entry ν ρ)

namespace Forest

variable {ν ρ : Type*}

/-- One name was derived from another in one step. -/
def Child (forest : Forest ν ρ) (parent child : ν) : Prop :=
  ∃ entry, forest child = some entry ∧ entry.parent = some parent

/-- One name was derived from another in one or more steps. -/
def Below (forest : Forest ν ρ) : ν → ν → Prop := Relation.TransGen forest.Child

/-- Following parents from a name ends at a granted one. -/
inductive Rooted (forest : Forest ν ρ) : ν → Prop
  | granted {name : ν} {entry : Entry ν ρ} (found : forest name = some entry)
      (root : entry.parent = none) : Rooted forest name
  | derived {name parent : ν} {entry : Entry ν ρ} (found : forest name = some entry)
      (link : entry.parent = some parent) (above : Rooted forest parent) : Rooted forest name

/-- Every parent is there and carries what its children carry, and following parents ends. -/
structure WellFormed (narrows : ρ → ρ → Prop) (forest : Forest ν ρ) : Prop where
  linked : ∀ name entry parent, forest name = some entry → entry.parent = some parent →
    ∃ above, forest parent = some above ∧ narrows above.rights entry.rights
  rooted : ∀ name entry, forest name = some entry → forest.Rooted name

variable {name : ν}

/-- A rooted name is not derived from itself. -/
theorem Rooted.not_below_self {forest : Forest ν ρ} (rooted : forest.Rooted name) :
    ¬forest.Below name name := by
  induction rooted with
  | granted found root =>
    intro below
    obtain ⟨_, _, entry, there, link⟩ := Relation.TransGen.tail'_iff.1 below
    rw [Option.some.inj (found.symm.trans there), link] at root
    cases root
  | @derived name parent entry found link above ih =>
    -- The last step of a cycle through a name comes from its parent, so the parent is
    -- on the cycle too.
    intro below
    obtain ⟨last, before, other, there, step⟩ := Relation.TransGen.tail'_iff.1 below
    rw [Option.some.inj (found.symm.trans there), step] at link
    obtain rfl : last = parent := Option.some.inj link
    exact ih (Relation.TransGen.head' ⟨other, there, step⟩ before)

variable {narrows : ρ → ρ → Prop} {forest after : Forest ν ρ}

theorem WellFormed.empty (nothing : ∀ name, forest name = none) : forest.WellFormed narrows where
  linked name entry _ found := by
    rw [nothing name] at found
    cases found
  rooted name entry found := by
    rw [nothing name] at found
    cases found

theorem Rooted.mono (rooted : forest.Rooted name)
    (kept : ∀ name entry, forest name = some entry → after name = some entry) :
    after.Rooted name := by
  induction rooted with
  | granted found root => exact .granted (kept _ _ found) root
  | derived found link _ ih => exact .derived (kept _ _ found) link ih

/-- Adding a name that was not there, granted or derived from one that is. -/
theorem WellFormed.add
    (formed : forest.WellFormed narrows)
    {entry : Entry ν ρ}
    (fresh : forest name = none)
    (below : ∀ parent, entry.parent = some parent →
      ∃ above, forest parent = some above ∧ narrows above.rights entry.rights)
    (added : after name = some entry)
    (others : ∀ other, other ≠ name → after other = forest other) :
    after.WellFormed narrows := by
  have kept : ∀ other found, forest other = some found → after other = some found := by
    intro other found there
    rw [others]
    · exact there
    · rintro rfl
      rw [fresh] at there
      cases there
  refine ⟨fun other found parent there link => ?_, fun other found there => ?_⟩
  · by_cases here : other = name
    · subst here
      rw [added] at there
      obtain rfl := Option.some.inj there
      obtain ⟨above, present, narrow⟩ := below parent link
      exact ⟨above, kept _ _ present, narrow⟩
    · rw [others other here] at there
      obtain ⟨above, present, narrow⟩ := formed.linked other found parent there link
      exact ⟨above, kept _ _ present, narrow⟩
  · by_cases here : other = name
    · subst here
      cases link : entry.parent with
      | none => exact .granted added link
      | some parent =>
        obtain ⟨above, present, _⟩ := below parent link
        exact .derived added link ((formed.rooted parent above present).mono kept)
    · rw [others other here] at there
      exact (formed.rooted other found there).mono kept

/-- Removing a set of names that is closed under derivation. -/
theorem WellFormed.prune
    (formed : forest.WellFormed narrows)
    (doomed : ν → Prop)
    (closed : ∀ parent child, forest.Child parent child → doomed parent → doomed child)
    (gone : ∀ name, doomed name → after name = none)
    (spared : ∀ name, ¬doomed name → after name = forest name) : after.WellFormed narrows := by
  have survives : ∀ name entry, after name = some entry → ¬doomed name := by
    intro name entry found dies
    rw [gone name dies] at found
    cases found
  have rooted : ∀ name, forest.Rooted name → ¬doomed name → after.Rooted name := by
    intro name roots
    induction roots with
    | @granted name _ found root =>
      exact fun lives => .granted ((spared name lives).trans found) root
    | @derived name parent entry found link _ ih =>
      intro lives
      have above : ¬doomed parent := fun dies =>
        lives (closed parent name ⟨entry, found, link⟩ dies)
      exact .derived ((spared name lives).trans found) link (ih above)
  refine ⟨fun name entry parent found link => ?_, fun name entry found => ?_⟩
  · have lives := survives name entry found
    rw [spared name lives] at found
    have above : ¬doomed parent := fun dies => lives (closed parent name ⟨entry, found, link⟩ dies)
    rw [spared parent above]
    exact formed.linked name entry parent found link
  · have lives := survives name entry found
    rw [spared name lives] at found
    exact rooted name (formed.rooted name entry found) lives

end Forest
end FSystem
