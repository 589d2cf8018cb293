import FSystem.Zone.Boot

/-!
# A collection beside other programs

A cycle goes on while blobs are stored and roots come and go.  What its mark
covers survives all of it, as long as no hash the walk is done with is stored
afterwards: the walk does not come back to it.
-/

namespace FSystem.Zone

open Abi Hash Blob

variable {g : Geometry}

namespace Collector

variable {self : Collector} {before after : Store (ZoneMap g)}

/-- A collector attends to a store that grew, unless it was done with a new hash. -/
theorem Attends.of_extends
    (attends : Attends self before) (grows : Extends before after) (grounded : Grounded before)
    (unwalked : self.phase ≠ .idle → ∀ hash ∈ self.mark.seen,
      before.located[hash]? = none → after.located[hash]? = none) :
    Attends self after :=
  ⟨fun running => (attends.covers running).of_extends grows grounded (unwalked running),
    attends.walked⟩

/-- A collector attends to a store of which only the zones were kept account of. -/
theorem Attends.of_unchanged
    (attends : Attends self before)
    (unchanged : Unchanged before after)
    (grounded : Grounded before)
    (groundedAfter : Grounded after)
    (physical : after.device.physical = before.device.physical) : Attends self after := by
  refine ⟨fun running => ?_, attends.walked⟩
  refine (attends.covers running).of_lost unchanged.toFades grounded.sound groundedAfter.sound ?_
  intro logical place mapped
  rwa [physical] at mapped

end Collector

namespace System

/-- No blob is new to the table and known to the walk of the running cycle. -/
def Unwalked (system : System g) (parts : List Bytes) : Prop :=
  system.collector.phase ≠ .idle → ∀ part ∈ parts,
    system.store.located[sha256 part]? = none → sha256 part ∉ system.collector.mark.seen

/-- No operation stores a blob the walk of the running cycle is done with. -/
def StoresUnwalked (system : System g) : Op → Prop
  | .put _ _ content => system.Unwalked [content]
  | .putObject _ bytes => system.Unwalked (objectParts bytes)
  | _ => True

section Step

variable {self : System g}

theorem Unwalked.attends
    {parts : List Bytes}
    {after : Store (ZoneMap g)}
    (unwalked : self.Unwalked parts)
    (sane : Sane self)
    (attends : self.collector.Attends self.store)
    (puts : Store.Puts parts self.store after) :
    self.collector.Attends after := by
  refine attends.of_extends (puts_extends sane.grounded puts) sane.grounded ?_
  intro running hash seen absent
  cases present : after.located[hash]? with
  | none => rfl
  | some start =>
    rcases (puts.located sane.grounded.sound).2 hash start present with before | ⟨part, member, rfl⟩
    · rw [absent] at before
      cases before
    · exact absurd seen (unwalked running part member absent)

/-- The step lemma: the collector goes on attending to the store. -/
theorem step_attends (sane : Sane self) (attends : self.collector.Attends self.store) (op : Op)
    (unwalked : StoresUnwalked self op) :
    (self.step op).collector.Attends (self.step op).store := by
  have unwalked : self.Unwalked op.contents := by
    cases op with
    | put | putObject => exact unwalked
    | _ => exact fun _ => nofun
  have effect := step_effect sane op
  generalize self.step op = after at effect ⊢
  cases effect with
  | stored puts collector => exact collector ▸ unwalked.attends sane attends puts
  | kept store collector => exact store ▸ collector ▸ attends
  | committed set record aside collector =>
    exact collector ▸ attends.of_unchanged (aside.unchanged sane.grounded.wellFormed) sane.grounded
      (aside.grounded sane.grounded) aside.map.physical
  | tallied map tallied =>
    exact attends.of_unchanged (Unchanged.of_bookkept tallied.bookkept) sane.grounded
      (sane.tallied tallied).1.grounded tallied.bookkept.physical
  | begun => exact Collector.begin_attends sane.sized self.roots self.store
  | stepped => exact (Collector.step_kept sane.grounded attends self.roots).1
  | collected fuel => exact (Collector.collect_kept fuel self.roots sane.grounded sane.sized).1
  | requeued queue => exact ⟨attends.covers, attends.walked⟩

end Step

/-- An idle collector attends to any store. -/
theorem around_attends (store : Store (ZoneMap g)) :
    (around store).collector.Attends (around store).store := by
  refine ⟨fun running => absurd rfl running, ?_⟩
  rintro (past | past)
  · cases past
  · cases past

/-- A booted collector attends. -/
theorem Booted.attends {system : System g} (booted : Booted system) :
    system.collector.Attends system.store := by
  cases booted with
  | formatted | mounted => exact around_attends _

end System

end FSystem.Zone
