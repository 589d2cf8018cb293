import Mathlib.Algebra.BigOperators.Group.List.Basic
import Mathlib.Algebra.Order.Ring.Int

/-!
# How a node shares its space

A node that arranges its children gives each what it came to want, and what is left over by
weight, divided against a running total.  Extents are tenths of a point.  The sums are wider
than what the nodes of a layout can add up to, so only offsets can meet an end of their type.
-/

namespace FSystem.Interface

/-- How a node arranges its children. -/
inductive Flow
  | inline
  | block
  | wrap
  | own
  deriving DecidableEq

/-- The numbers of 32 bits. -/
def Fits (n : Int) : Prop := -2 ^ 31 ≤ n ∧ n < 2 ^ 31
  deriving Decidable

/-- The number itself, or the largest one when it is out of range. -/
def fitted (n : Int) : Int := if Fits n then n else 2 ^ 31 - 1

/-- What a node asks for. -/
structure Demand where
  min : Int
  max : Int
  grow : UInt16
  flow : Flow
  fits : Fits min ∧ Fits max

namespace Demand

variable (self : Demand)

/-- Whether a demand is one size. -/
def isDefinite : Bool := self.min = self.max

/-- Whether a node arranges its children. -/
def arranges : Bool := self.flow ≠ .own

/-- The most a node takes. -/
def ceiling : Int := if self.min < self.max then self.max else self.min

/-- What a node comes to want, given what its children came to want. -/
def intrinsic (children : Int) : Int :=
  if self.isDefinite then self.min
  else if !self.arranges then self.min
  else
    let want := if self.min < children then children else self.min
    fitted (if self.ceiling < want then self.ceiling else want)

theorem intrinsic_bounds (children : Int) :
    self.min ≤ self.intrinsic children ∧ self.intrinsic children ≤ self.ceiling ∧
      self.ceiling < 2 ^ 31 := by
  obtain ⟨⟨low, high⟩, -, most⟩ := self.fits
  unfold intrinsic ceiling fitted Fits
  dsimp only
  split_ifs <;> omega

end Demand

/-- A child: what it asks for, and what its own children came to want. -/
structure Child where
  demand : Demand
  children : Int

/-- What a child takes by itself. -/
def Child.intrinsic (self : Child) : Int := self.demand.intrinsic self.children

/-- Where a child is put. -/
structure Placed where
  offset : Int
  extent : Int

/-- Place the children from `offset` on, and count those held at their ceiling. -/
def placeAll (leftover growTotal : Nat) : Int → Nat → Nat → List Child → List Placed × Nat
  | _, _, _, [] => ([], 0)
  | offset, consumed, handed, child :: rest =>
    let consumed := if growTotal = 0 then consumed else consumed + child.demand.grow.toNat
    let target := if growTotal = 0 then handed else leftover * consumed / growTotal
    let want := child.intrinsic + ((target : Int) - handed)
    let capped := child.demand.ceiling < want
    let given := fitted (if capped then child.demand.ceiling else want)
    let next := max (-2 ^ 31) (min (offset + given) (2 ^ 31 - 1))
    let later := placeAll leftover growTotal next consumed target rest
    (⟨offset, given⟩ :: later.1, later.2 + if capped then 1 else 0)

/-- What the children want together. -/
def baseTotal (children : List Child) : Int := (children.map Child.intrinsic).sum

/-- The weights of the children together. -/
def growTotal (children : List Child) : Nat :=
  (children.map fun child => child.demand.grow.toNat).sum

/-- Give a node's children their offsets and extents, unless it arranges none. -/
def share (parent : Demand) (offset extent : Int) (children : List Child) :
    Option (List Placed × Nat) :=
  if parent.arranges then
    some (placeAll (extent - baseTotal children).toNat (growTotal children) offset 0 0 children)
  else none

/-- Children that follow one another without a gap. -/
def Tiles : Int → List Placed → Prop
  | _, [] => True
  | offset, placed :: rest => placed.offset = offset ∧ Tiles (offset + placed.extent) rest

/-- A child's extent lies between what it wants and its ceiling. -/
def Child.Bounds (child : Child) (placed : Placed) : Prop :=
  child.intrinsic ≤ placed.extent ∧ placed.extent ≤ child.demand.ceiling

/-- A share is not negative, and an extent lies between what is wanted and the ceiling. -/
theorem placed_bounds {child : Child} (least : 0 ≤ child.demand.min) {target handed : Nat}
    (more : handed ≤ target) :
    let want := child.intrinsic + ((target : Int) - handed)
    let given := fitted (if child.demand.ceiling < want then child.demand.ceiling else want)
    child.intrinsic ≤ given ∧ given ≤ child.demand.ceiling ∧ 0 ≤ given ∧
      (¬child.demand.ceiling < want → given = want) := by
  have bounds := child.demand.intrinsic_bounds child.children
  rw [show child.demand.intrinsic child.children = child.intrinsic from rfl] at bounds
  dsimp only
  unfold fitted Fits
  split_ifs <;> omega

/-- The children are placed within their bounds one after another; unless one is held at its
ceiling, everything is handed out. -/
theorem placeAll_spec
    {leftover total : Nat}
    (children : List Child)
    {offset : Int}
    (above : -2 ^ 31 ≤ offset)
    {consumed : Nat}
    (ends : consumed + growTotal children = total)
    (minima : ∀ child ∈ children, 0 ≤ child.demand.min)
    {placed : List Placed}
    {capped : Nat}
    (placing : placeAll leftover total offset consumed (leftover * consumed / total) children =
      (placed, capped)) :
    List.Forall₂ Child.Bounds children placed ∧
      ((∀ place ∈ placed, place.offset + place.extent < 2 ^ 31) → Tiles offset placed) ∧
      (capped = 0 → (placed.map Placed.extent).sum + (leftover * consumed / total : Nat) =
        baseTotal children + (leftover * total / total : Nat)) := by
  induction children generalizing offset consumed placed capped with
  | nil =>
    cases placing
    obtain rfl : consumed = total := ends
    exact ⟨.nil, fun _ => trivial, fun _ => rfl⟩
  | cons child rest ih =>
    have weighs : growTotal (child :: rest) = child.demand.grow.toNat + growTotal rest := rfl
    have wanted : baseTotal (child :: rest) = child.intrinsic + baseTotal rest := rfl
    have consumes : (if total = 0 then consumed else consumed + child.demand.grow.toNat) =
        consumed + child.demand.grow.toNat := by
      split_ifs <;> omega
    have targets : (if total = 0 then leftover * consumed / total
        else leftover * (consumed + child.demand.grow.toNat) / total) =
        leftover * (consumed + child.demand.grow.toNat) / total := by
      split_ifs with weightless
      · rw [weightless, Nat.div_zero, Nat.div_zero]
      · rfl
    have more : leftover * consumed / total ≤
        leftover * (consumed + child.demand.grow.toNat) / total :=
      Nat.div_le_div_right (Nat.mul_le_mul_left _ (Nat.le_add_right _ _))
    simp only [placeAll, consumes, targets] at placing
    obtain ⟨least, most, positive, whole⟩ := placed_bounds (minima child List.mem_cons_self) more
    generalize fitted _ = given at placing least most positive whole
    rcases later : placeAll leftover total _ _ _ rest with ⟨others, count⟩
    rw [later] at placing
    cases placing
    obtain ⟨bounds, tiles, sums⟩ := ih (le_max_left _ _) (by omega)
      (fun other member => minima other (List.mem_cons_of_mem _ member)) later
    refine ⟨.cons ⟨least, most⟩ bounds, fun inside => ⟨rfl, ?_⟩, fun none => ?_⟩
    · have ends := inside ⟨offset, given⟩ List.mem_cons_self
      dsimp only at ends ⊢
      rw [min_eq_left (by omega), max_eq_right (by omega)] at tiles
      exact tiles fun place member => inside place (List.mem_cons_of_mem _ member)
    · split_ifs at none with held
      have sum := sums none
      rw [List.map_cons, List.sum_cons, wanted]
      dsimp only at sum ⊢
      rw [whole held]
      omega

/-- The children of a node that arranges them tile it from its offset on, each with an extent
between what it wants and its ceiling, and share its extent exactly unless one is held. -/
theorem space_is_shared_exactly
    (parent : Demand)
    (offset extent : Int)
    (children : List Child)
    (flows : parent.arranges = true)
    (fits : Fits offset)
    (minima : ∀ child ∈ children, 0 ≤ child.demand.min) :
    ∃ placed capped, share parent offset extent children = some (placed, capped) ∧
      List.Forall₂ Child.Bounds children placed ∧
      ((∀ place ∈ placed, place.offset + place.extent < 2 ^ 31) → Tiles offset placed) ∧
      (capped = 0 → growTotal children ≠ 0 →
        (placed.map Placed.extent).sum = max extent (baseTotal children)) := by
  rcases placing : placeAll (extent - baseTotal children).toNat (growTotal children) offset 0 0
    children with ⟨placed, capped⟩
  refine ⟨placed, capped, by rw [share, if_pos flows, placing], ?_⟩
  obtain ⟨bounds, tiles, sums⟩ := @placeAll_spec (extent - baseTotal children).toNat _ children
    offset fits.1 0 (Nat.zero_add _) minima placed capped
    (by rw [Nat.mul_zero, Nat.zero_div, placing])
  refine ⟨bounds, tiles, fun none weighted => ?_⟩
  have sum := sums none
  rw [Nat.mul_zero, Nat.zero_div, Nat.mul_div_cancel _ (Nat.pos_of_ne_zero weighted)] at sum
  omega

theorem space_is_shared_exactly_two : ∃ children placed capped,
    share ⟨0, 100, 0, .block, by decide⟩ 5 11 children = some (placed, capped) ∧
      growTotal children = 2 ∧ (placed.map Placed.extent).sum = max 11 (baseTotal children) := by
  obtain ⟨placed, capped, shared, -, -, sums⟩ := space_is_shared_exactly
    ⟨0, 100, 0, .block, by decide⟩ 5 11 [⟨⟨2, 90, 1, .own, by decide⟩, 0⟩,
      ⟨⟨1, 90, 1, .own, by decide⟩, 0⟩] rfl (by decide) (by decide)
  have none : capped = 0 := by cases shared; rfl
  exact ⟨_, placed, capped, shared, rfl, sums none (by decide)⟩

end FSystem.Interface
