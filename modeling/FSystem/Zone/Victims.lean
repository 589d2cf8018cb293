import FSystem.Zone.Boot

/-!
# The order victims are taken in

A selection lists the zones worth taking, and the steps after it take them off
that list and condemn them, whatever the clients do to the store in between. The
list is sorted cheapest first and taken from its end.
-/

namespace FSystem.Zone.Collector

open Blob

variable {g : Geometry}

/-- The zone a step takes off the chosen ones and condemns. -/
def condemns (self : Collector) (store : Store (ZoneMap g)) (roots : Roots) : Option Nat :=
  if self.phase ≠ .idle ∧ (self.catchUp store roots).phase = .sweeping ∧ self.sweeping = none then
    self.chosen.head?.filter fun zone => (store.device.condemn zone).toBool
  else none

/-- The zones condemned from one selection to the next, by steps that find the store and the
roots as the clients left them. -/
def condemnedFrom : Collector → List (Store (ZoneMap g) × Roots) → List Nat
  | _, [] => []
  | self, (store, roots) :: later =>
    if (self.catchUp store roots).phase = .selecting then []
    else (self.condemns store roots).toList ++ condemnedFrom (self.step store roots).2.1 later

/-- What the selection sorts a zone by. -/
def weight (store : Store (ZoneMap g)) (zone : Nat) : Nat × Nat :=
  (store.device.zones[zone]?.elim 0 Zone.liveBytes, zone)

/-- Whether zones stand in ascending order of live bytes and number. -/
def CheapestFirst (store : Store (ZoneMap g)) (victims : List Nat) : Prop :=
  victims.Pairwise fun earlier later => lighter (weight store earlier) (weight store later)

instance (store : Store (ZoneMap g)) (victims : List Nat) :
    Decidable (CheapestFirst store victims) :=
  inferInstanceAs (Decidable (victims.Pairwise _))

section

variable (self : Collector) (store : Store (ZoneMap g)) (roots : Roots)

theorem marking_chosen : (self.marking store roots).2.1.chosen = self.chosen := by
  simp only [marking]
  repeat' split
  all_goals rfl

/-- Only starting on a zone takes one off the chosen ones. -/
theorem sweepStep_chosen {sweep : Sweep} (busy : self.sweeping = some sweep) :
    (self.sweepStep store roots).2.1.chosen = self.chosen := by
  simp only [sweepStep, busy, copyNext, commitSweep, resetZone]
  repeat' split
  all_goals rfl

/-- A step that does not select takes what it condemns off the front. -/
theorem condemns_sublist (goesOn : (self.catchUp store roots).phase ≠ .selecting) :
    ((self.condemns store roots).toList ++ (self.step store roots).2.1.chosen).Sublist
      self.chosen := by
  unfold condemns step
  by_cases idle : self.phase = .idle
  · simp [idle]
  simp only [idle, ne_eq, not_false_eq_true, true_and, if_false]
  cases phase : (self.catchUp store roots).phase with
  | idle => simp [catchUp]
  | marking => simp [marking_chosen, catchUp]
  | selecting => exact absurd phase goesOn
  | sweeping =>
    cases busy : self.sweeping with
    | some sweep =>
      rw [sweepStep_chosen _ store roots (show (self.catchUp store roots).sweeping = _ from busy)]
      simp [catchUp]
    | none =>
      have starts : (self.catchUp store roots).sweepStep store roots =
          (self.catchUp store roots).startSweep store := by
        simp [sweepStep, show (self.catchUp store roots).sweeping = none from busy]
      rw [starts, startSweep, show (self.catchUp store roots).chosen = self.chosen from rfl]
      cases self.chosen with
      | nil => simp
      | cons zone rest =>
        cases condemned : store.device.condemn zone <;>
          simp [Except.toBool, Option.filter, condemned]

end

/-- The run lemma: what is condemned was chosen, and in the order of the choice. -/
theorem condemnedFrom_sublist (self : Collector) (inputs : List (Store (ZoneMap g) × Roots)) :
    (self.condemnedFrom inputs).Sublist self.chosen := by
  induction inputs generalizing self with
  | nil => exact List.nil_sublist _
  | cons input later ih =>
    unfold condemnedFrom
    split
    next => exact List.nil_sublist _
    next goesOn => exact ((ih _).append_left _).trans (self.condemns_sublist input.1 input.2 goesOn)

/-- A selection's candidates are distinct, and sorted. -/
theorem candidates_sorted {store : Store (ZoneMap g)} (wellFormed : store.device.WellFormed) :
    (candidates store).Pairwise fun earlier later =>
      lighter (weight store earlier) (weight store later) ∧ earlier ≠ later := by
  have : Std.Total lighter := ⟨fun left right => by unfold lighter; omega⟩
  have : IsTrans (Nat × Nat) lighter := ⟨fun _ _ _ => by unfold lighter; omega⟩
  have held : ∀ entry ∈ store.device.zones.toList, entry.2.zone = entry.1 ∧
      weight store entry.2.zone = (entry.2.liveBytes, entry.2.zone) := by
    intro entry member
    have known := Std.TreeMap.mem_toList_iff_getElem?_eq_some.mp member
    have named := wellFormed.named _ _ known
    exact ⟨named, by rw [weight, named, known]; rfl⟩
  have distinct : (store.device.zoneList.map fun zone => (zone.liveBytes, zone.zone)).Pairwise
      fun left right => left.2 ≠ right.2 := by
    simp only [ZoneMap.zoneList, List.pairwise_map]
    refine store.device.zones.distinct_keys_toList.imp_of_mem ?_
    intro left right isLeft isRight apart
    rw [(held left isLeft).1, (held right isRight).1]
    exact fun same => apart (compare_eq_iff_eq.mpr same)
  unfold candidates
  rw [List.pairwise_map]
  refine ((List.pairwise_insertionSort lighter _).and (((distinct.sublist (List.filter_sublist.map
    _)).perm (List.perm_insertionSort lighter _).symm) Ne.symm)).imp_of_mem ?_
  intro left right isLeft isRight
  simp only [List.mem_insertionSort, List.mem_map, List.mem_filter, ZoneMap.zoneList]
    at isLeft isRight
  obtain ⟨-, ⟨⟨one, isOne, rfl⟩, -⟩, rfl⟩ := isLeft
  obtain ⟨-, ⟨⟨other, isOther, rfl⟩, -⟩, rfl⟩ := isRight
  rw [(held one isOne).2, (held other isOther).2]
  exact id

/-- The zones condemned from a selection are taken dearest first: they stand cheapest first
only when there is at most one, as where the selection found at most one. -/
theorem victims_stand_in_order_only_alone
    (self : Collector)
    {store : Store (ZoneMap g)}
    (wellFormed : store.device.WellFormed)
    (inputs : List (Store (ZoneMap g) × Roots)) :
    ((candidates store).length ≤ 1 →
      CheapestFirst store ((self.selecting store).2.condemnedFrom inputs)) ∧
    (CheapestFirst store ((self.selecting store).2.condemnedFrom inputs) ↔
      ((self.selecting store).2.condemnedFrom inputs).length ≤ 1) := by
  have chosen : (self.selecting store).2.chosen = (candidates store).reverse := by
    unfold selecting
    dsimp only
    split <;> rfl
  have taken := condemnedFrom_sublist (self.selecting store).2 inputs
  rw [chosen] at taken
  have descending := (List.pairwise_reverse.mpr (candidates_sorted wellFormed)).sublist taken
  have bound := taken.length_le
  rw [List.length_reverse] at bound
  generalize (self.selecting store).2.condemnedFrom inputs = victims at *
  have alone : CheapestFirst store victims ↔ victims.length ≤ 1 := by
    match victims with
    | [] => simp [CheapestFirst]
    | [zone] => simp [CheapestFirst]
    | first :: second :: rest =>
      obtain ⟨heavier, apart⟩ := (List.pairwise_cons.mp descending).1 second (by simp)
      refine ⟨fun ascending => ?_, fun short => by simp at short⟩
      have lightest := (List.pairwise_cons.mp ascending).1 second (by simp)
      simp only [lighter, weight] at heavier lightest
      omega
  exact ⟨fun few => alone.mpr (bound.trans few), alone⟩

/-- The witness: the one zone in use is condemned alone. -/
theorem victims_stand_in_order_only_alone_used :
    CheapestFirst System.usedStore
      (((new 80).selecting System.usedStore).2.condemnedFrom [(System.usedStore, Roots.new)]) := by
  have wellFormed : System.usedStore.device.WellFormed :=
    System.booted_used.sane.grounded.sound.valid
  refine (victims_stand_in_order_only_alone (new 80) wellFormed [(_, Roots.new)]).1 ?_
  decide +kernel

/-- The steps of a collection no client disturbs. -/
def undisturbed (roots : Roots) :
    Nat → Collector → Store (ZoneMap g) → List (Store (ZoneMap g) × Roots)
  | 0, _, _ => []
  | steps + 1, self, store =>
    (store, roots) ::
      undisturbed roots steps (self.step store roots).2.1 (self.step store roots).2.2

/-- The small device used again: both data zones hold a chunk and are sealed. -/
def reusedStore : Store (ZoneMap System.small) :=
  ((mount .stable (Runs.run System.step (System.around System.usedStore)
    [.put none Abi.Kind.chunk.code [3]]).store.device.device 3).toOption.get (by decide +kernel)).2

/-- The counterexample: of two zones with nothing live, the one with the greater number is
condemned first. -/
theorem reused_zones_fall_backwards :
    let selected := ((new 80).selecting reusedStore).2
    let victims := selected.condemnedFrom (undisturbed Roots.new 4 selected reusedStore)
    victims = [4, 3] ∧ ¬CheapestFirst reusedStore victims := by
  decide +kernel

end FSystem.Zone.Collector
