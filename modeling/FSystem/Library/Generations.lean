import Mathlib.Data.List.Nodup
import Mathlib.Order.Nat

/-!
# Names with generations

An arena of places that are filled, emptied and filled again.  A name is a place
together with the generation of its occupant.  A place that is emptied moves on to a
later generation, so a name that stopped being live is dead for good, and no name is
issued twice.
-/

namespace FSystem.Generations

variable {ι : Type*}

/-- Which places are occupied, and the generation each one has reached. -/
structure Arena (ι : Type*) where
  generation : ι → Nat
  occupied : ι → Prop

namespace Arena

variable (arena : Arena ι)

/-- The name is the occupant's. -/
def Live (name : ι × Nat) : Prop :=
  arena.occupied name.1 ∧ arena.generation name.1 = name.2

/-- The place has moved past the name. -/
def Dead (name : ι × Nat) : Prop :=
  name.2 < arena.generation name.1

variable {name : ι × Nat}

theorem Dead.not_live {arena : Arena ι} (dead : arena.Dead name) :
    ¬arena.Live name :=
  fun live => Nat.ne_of_gt dead live.2

/-- Nothing is issued: an occupant stays, or its place moves on. -/
structure Ages (before after : Arena ι) : Prop where
  grows : ∀ place, before.generation place ≤ after.generation place
  keeps : ∀ place, before.occupied place →
    after.occupied place ∨ before.generation place < after.generation place
  invents : ∀ place, after.occupied place →
    before.occupied place ∧ after.generation place = before.generation place

/-- One vacant place is filled, at the generation it has reached. -/
structure Issues (before after : Arena ι) (name : ι × Nat) : Prop where
  vacant : ¬before.occupied name.1
  reached : before.generation name.1 = name.2
  same : ∀ place, after.generation place = before.generation place
  fills : ∀ place, after.occupied place ↔ before.occupied place ∨ place = name.1

theorem Ages.refl : arena.Ages arena :=
  ⟨fun _ => le_rfl, fun _ occupied => .inl occupied, fun _ occupied => ⟨occupied, rfl⟩⟩

theorem Ages.trans {first second third : Arena ι} (early : first.Ages second)
    (late : second.Ages third) : first.Ages third where
  grows place := (early.grows place).trans (late.grows place)
  keeps place occupied := by
    rcases early.keeps place occupied with stays | moves
    · rcases late.keeps place stays with stays | moves
      · exact .inl stays
      · exact .inr ((early.grows place).trans_lt moves)
    · exact .inr (moves.trans_le (late.grows place))
  invents place occupied := by
    obtain ⟨held, same⟩ := late.invents place occupied
    obtain ⟨holds, equal⟩ := early.invents place held
    exact ⟨holds, same.trans equal⟩

variable {before after : Arena ι}

/-- What is dead stays dead. -/
theorem Ages.dead (ages : before.Ages after) (dead : before.Dead name) : after.Dead name :=
  Nat.lt_of_lt_of_le dead (ages.grows name.1)

theorem Ages.live_or_dead (ages : before.Ages after)
    (live : before.Live name) : after.Live name ∨ after.Dead name := by
  rcases ages.keeps name.1 live.1 with stays | moves
  · exact .inl ⟨stays, (ages.invents name.1 stays).2.trans live.2⟩
  · refine .inr ?_
    unfold Dead
    rwa [← live.2]

section

variable {issued : ι × Nat} (issues : before.Issues after issued)
include issues

theorem Issues.dead (dead : before.Dead name) : after.Dead name := by
  unfold Dead
  rw [issues.same]
  exact dead

theorem Issues.live (live : before.Live name) : after.Live name :=
  ⟨(issues.fills name.1).2 (.inl live.1), (issues.same name.1).trans live.2⟩

theorem Issues.live_issued : after.Live issued :=
  ⟨(issues.fills issued.1).2 (.inr rfl), (issues.same issued.1).trans issues.reached⟩

/-- Issuing after some ageing is issuing a name that is neither live nor dead at first. -/
theorem Issues.fresh : ¬before.Live issued ∧ ¬before.Dead issued :=
  ⟨fun live => issues.vacant live.1, fun dead => Nat.ne_of_gt dead issues.reached⟩

end

/-- Every name issued so far is live or dead, and none was issued twice. -/
structure Accounts (arena : Arena ι) (issued : List (ι × Nat)) : Prop where
  settled : ∀ name ∈ issued, arena.Live name ∨ arena.Dead name
  nodup : issued.Nodup

theorem Accounts.empty : arena.Accounts [] :=
  ⟨fun _ member => absurd member List.not_mem_nil, List.nodup_nil⟩

variable {issued : List (ι × Nat)}

/-- Ageing keeps the names unique. -/
theorem Accounts.ages
    (accounts : before.Accounts issued) (ages : before.Ages after) : after.Accounts issued where
  settled name member := by
    rcases accounts.settled name member with live | dead
    · exact ages.live_or_dead live
    · exact .inr (ages.dead dead)
  nodup := accounts.nodup

/-- A fresh name keeps them unique. -/
theorem Accounts.issues (accounts : before.Accounts issued) (issues : before.Issues after name) :
    after.Accounts (name :: issued) where
  settled other member := by
    rcases List.mem_cons.1 member with rfl | member
    · exact .inl issues.live_issued
    · exact (accounts.settled other member).imp issues.live issues.dead
  nodup := by
    refine List.nodup_cons.2 ⟨fun member => ?_, accounts.nodup⟩
    rcases accounts.settled name member with live | dead
    · exact issues.fresh.1 live
    · exact issues.fresh.2 dead

/-- A name that was issued and is not live has been left behind. -/
theorem Accounts.dead {arena : Arena ι} (accounts : arena.Accounts issued)
    (member : name ∈ issued) (gone : ¬arena.Live name) : arena.Dead name :=
  (accounts.settled name member).resolve_left gone

end Arena
end FSystem.Generations
