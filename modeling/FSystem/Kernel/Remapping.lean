import FSystem.Kernel.UserSpace

/-!
# The tables of a remapping unit

The unit's tables and those of each domain are frames, listed so that they can be given back.
Each list is bounded, and a frame is taken before it is known to fit.
-/

namespace FSystem.Kernel.Vtd

open Function Paging List

def maxDomainTables : Nat := 8
def maxBusTables : Nat := 5
def slRead : Nat := 2 ^ 0
def slWrite : Nat := 2 ^ 1
def slLarge : Nat := 2 ^ 7
def slTable : Nat := slRead ||| slWrite

/-- Why remapping is refused. -/
inductive Refuse
  | noDomains
  | tooManyTables
  | overlap
  | notMapped
  | stuck
  | noFrames

/-- A device address space: its top table, and the frames listed for it. -/
structure Domain where
  id : Nat
  root : Nat
  levels : Nat
  tables : List Nat

/-- Note a frame as one the domain will have to give back. -/
def Domain.record (self : Domain) (frame : Nat) : Option Domain :=
  if self.tables.length < maxDomainTables then some { self with tables := self.tables ++ [frame] }
  else none

/-- The shift of each level of a walk, outermost first. -/
def Domain.shifts (self : Domain) : List Nat :=
  if 4 ≤ self.levels then [39, 30, 21, 12] else [30, 21, 12]

/-- Free frames, table entries, and a remapping unit: the table of its buses, its frames, the
domain identifiers left and those returned. -/
structure Remapping where
  frames : List Nat
  entries : Nat → Nat → Nat
  root : Nat
  tables : List Nat
  buses : List Nat
  levels : Nat
  width : Nat
  domains : Nat
  nextDomain : Nat
  returned : List Domain

/-- A call about a domain that was returned, or for another. -/
inductive Call
  | domain
  | attach (bus devfn domain : Nat) (responds : Bool)
  | map (domain device phys : Nat) (writable responds : Bool)
  | unmap (domain device : Nat) (responds : Bool)

namespace Remapping

variable (self : Remapping)

/-- A frame to use as a table, all zero. -/
def newTable : Option (Nat × Remapping) :=
  match self.frames with
  | [] => none
  | fresh :: frames =>
    some (fresh, { self with frames, entries := update self.entries fresh fun _ => 0 })

/-- Write one entry of a table. -/
def put (table slot entry : Nat) : Remapping :=
  { self with entries := update self.entries table (update (self.entries table) slot entry) }

/-- Note a table, if there is room for it. -/
def recordTable (frame : Nat) : Option Remapping :=
  if self.tables.length < maxBusTables then some { self with tables := self.tables ++ [frame] }
  else none

/-- What a call answers if the unit comes back from throwing away what it cached. -/
def invalidate (responds : Bool) : Except Refuse Unit := if responds then .ok () else .error .stuck

/-- Take a domain identifier. -/
def domain : Except Refuse Domain × Remapping :=
  if self.domains ≤ self.nextDomain ∨ 2 ^ 16 ≤ self.nextDomain then (.error .noDomains, self)
  else
    match self.newTable with
    | none => (.error .noFrames, self)
    | some (root, taken) =>
      let next := { taken with nextDomain := self.nextDomain + 1 }
      match Domain.record ⟨self.nextDomain, root, self.levels, []⟩ root with
      | none => (.error .tooManyTables, next)
      | some made => (.ok made, next)

/-- Give the requests of one function, by its bus and its place there, to a domain. -/
def attach (bus devfn : Nat) (domain : Domain) (responds : Bool) :
    Except Refuse Unit × Remapping :=
  let existing := self.entries self.root (2 * bus)
  -- The upper half of the context entry goes first.
  let entered (self : Remapping) (context : Nat) :=
    (self.put context (2 * devfn + 1) (self.levels - 2 ||| domain.id <<< 8)).put context (2 * devfn)
      (domain.root &&& addressMask ||| 1)
  if existing &&& 1 ≠ 0 then (invalidate responds, entered self (existing &&& addressMask))
  else
    match self.newTable with
    | none => (.error .noFrames, self)
    | some (fresh, taken) =>
      match taken.recordTable fresh with
      | none => (.error .tooManyTables, taken)
      | some listed =>
        if maxBusTables ≤ listed.buses.length then (.error .tooManyTables, listed)
        else
          let noted := { listed with buses := listed.buses ++ [bus] }
          (invalidate responds, entered (noted.put self.root (2 * bus) (fresh ||| 1)) fresh)

/-- What the entry for an address says. -/
def entry (device table shift : Nat) : Entry Nat :=
  let existing := self.entries table (slotOf device shift)
  if existing &&& (slRead ||| slWrite) = 0 then .absent
  else if existing &&& slLarge ≠ 0 then .large
  else .table (existing &&& addressMask)

/-- The walk of a mapping from a table down; missing tables are made. -/
def walk (device phys : Nat) (writable responds : Bool) (self : Remapping) (domain : Domain)
    (table : Nat) : List Nat → Except Refuse Unit × Remapping × Domain
  | [] => (invalidate responds, self, domain)
  | [shift] =>
    match self.entry device table shift with
    | .absent => (invalidate responds, self.put table (slotOf device shift)
        (phys ||| slRead ||| if writable then slWrite else 0), domain)
    | _ => (.error .overlap, self, domain)
  | shift :: rest =>
    match self.entry device table shift with
    | .large => (.error .overlap, self, domain)
    | .table below => walk device phys writable responds self domain below rest
    | .absent =>
      match self.newTable with
      | none => (.error .noFrames, self, domain)
      | some (fresh, taken) =>
        match domain.record fresh with
        | none => (.error .tooManyTables, taken, domain)
        | some listed => walk device phys writable responds
          (taken.put table (slotOf device shift) (fresh ||| slTable)) listed fresh rest

/-- Add one page of translation to a domain. -/
def map (domain : Domain) (device phys : Nat) (writable responds : Bool) :
    Except Refuse Unit × Remapping × Domain :=
  if device % 4096 ≠ 0 ∨ phys % 4096 ≠ 0 ∨ 2 ^ self.width ≤ device then
    (.error .overlap, self, domain)
  else walk device phys writable responds self domain domain.root domain.shifts

/-- Take one page of translation away again. -/
def unmap (device : Nat) (responds : Bool) (table : Nat) :
    List Nat → Except Refuse Unit × Remapping
  | [] => (invalidate responds, self)
  | [shift] =>
    match self.entry device table shift with
    | .absent => (.error .notMapped, self)
    | _ => (invalidate responds, self.put table (slotOf device shift) 0)
  | shift :: rest =>
    match self.entry device table shift with
    | .absent => (.error .notMapped, self)
    | .large => (.error .overlap, self)
    | .table below => unmap device responds below rest

/-- How many tables a walk finds missing. -/
def missing (device table : Nat) : List Nat → Nat
  | [] | [_] => 0
  | shift :: rest =>
    match self.entry device table shift with
    | .absent => rest.length
    | .large => 0
    | .table below => missing device below rest

/-- The frames that are free, or listed for the unit or a domain. -/
def held (domain : Domain) : List Nat := self.frames ++ self.tables ++ domain.tables

variable {self} {domain : Domain}

theorem missing_le (device table : Nat) (shifts : List Nat) :
    self.missing device table shifts ≤ shifts.length - 1 := by
  fun_induction missing self device table shifts <;> grind

/-- A walk loses no table. -/
theorem walk_held
    {device phys : Nat}
    {writable responds : Bool}
    {table : Nat}
    {shifts : List Nat}
    (room : domain.tables.length + self.missing device table shifts ≤ maxDomainTables) :
    let result := walk device phys writable responds self domain table shifts
    result.2.1.held result.2.2 ~ self.held domain := by
  fun_induction walk device phys writable responds self domain table shifts with
  | case5 _ _ _ _ _ _ _ found ih =>
    simp only [missing, found] at room
    exact ih room
  | case7 _ _ _ _ _ more found =>
    have pos := length_pos_iff.mpr more
    simp only [missing, found] at room
    grind [Domain.record]
  | case8 _ _ _ _ _ more found _ _ _ _ _ ih =>
    have pos := length_pos_iff.mpr more
    simp only [missing, found] at room
    have kept := ih (by grind [missing_le, Domain.record])
    grind [held, newTable, put, Domain.record]
  | _ => exact .refl _

/-- Unmapping loses no table. -/
theorem unmap_held (device : Nat) (responds : Bool) (table : Nat) (shifts : List Nat) :
    (self.unmap device responds table shifts).2.held domain = self.held domain := by
  fun_induction unmap self device responds table shifts with
  | case6 _ _ _ _ _ _ ih => exact ih
  | _ => rfl

/-- Attaching loses no table. -/
theorem attach_held {bus devfn : Nat} {responds : Bool}
    (room : self.entries self.root (2 * bus) &&& 1 = 0 → self.tables.length < maxBusTables) :
    (self.attach bus devfn domain responds).2.held domain ~ self.held domain := by
  grind [attach, held, put, newTable, recordTable]

variable (self)

/-- A call about a domain. -/
def about (index : Nat) (call : Domain → Remapping × Domain) : Remapping :=
  match self.returned[index]? with
  | none => self
  | some domain => { (call domain).1 with returned := self.returned.set index (call domain).2 }

/-- The remapping after a call. -/
def step : Call → Remapping
  | .domain =>
    match self.domain with
    | (.ok domain, next) => { next with returned := next.returned ++ [domain] }
    | (.error _, next) => next
  | .attach bus devfn index responds =>
    self.about index fun domain => ((self.attach bus devfn domain responds).2, domain)
  | .map index device phys writable responds =>
    self.about index fun domain => (self.map domain device phys writable responds).2
  | .unmap index device responds => self.about index fun domain =>
    ((self.unmap device responds domain.root domain.shifts).2, domain)

/-- The free frames once every domain is released and the unit's tables are freed. -/
def released : List Nat :=
  self.frames ++ self.tables ++ self.returned.flatMap Domain.tables

/-- The list that a call would note frames in has room for those it finds missing. -/
def Roomy : Call → Prop
  | .attach bus _ _ _ => self.entries self.root (2 * bus) &&& 1 = 0 →
    self.tables.length < maxBusTables
  | .map index device _ _ _ => ∀ domain ∈ self.returned[index]?,
    domain.tables.length + self.missing device domain.root domain.shifts ≤ maxDomainTables
  | _ => True

variable {self}

theorem released_about {index : Nat} {call : Domain → Remapping × Domain}
    (kept : ∀ domain ∈ self.returned[index]?,
      (call domain).1.held (call domain).2 ~ self.held domain) :
    (self.about index call).released ~ self.released := by
  unfold about
  split
  next => exact .refl _
  next domain found =>
    have replaced (domains : List Domain) (index : Nat) (found : domains[index]? = some domain)
        (next : Domain) : (domains.set index next).flatMap Domain.tables ++ domain.tables ~
          domains.flatMap Domain.tables ++ next.tables := by
      induction domains generalizing index with
      | nil => cases found
      | cons head rest ih => cases index <;> grind
    have kept := kept domain found
    have listed := replaced _ _ found (call domain).2
    simp only [perm_iff_count, released, held, count_append] at kept listed ⊢
    grind

/-- The step lemma. -/
theorem released_step {call : Call} (roomy : self.Roomy call) :
    (self.step call).released ~ self.released := by
  cases call with
  | domain => grind [step, released, domain, newTable, Domain.record, maxDomainTables]
  | attach => exact released_about fun domain _ => attach_held roomy
  | map =>
    refine released_about fun domain found => ?_
    unfold map
    split
    · rfl
    · exact walk_held (roomy domain found)
  | unmap => exact released_about fun domain _ => .of_eq (unmap_held ..)

/-- Whatever calls are made on a unit, every frame they took is listed for it or for a domain that
was returned, as long as the list that each would note frames in has room for those it finds
missing. -/
theorem tables_list_every_table {calls : List Call} (roomy : Runs.Along step Roomy self calls) :
    (Runs.run step self calls).released ~ self.released :=
  Runs.invariant_of_along (·.released ~ self.released)
    (fun _ _ roomy kept => (released_step roomy).trans kept) (.refl _) roomy

/-- A unit with nothing attached over some free frames. -/
def brought (frames : Nat) : Remapping :=
  ⟨(range' 2 frames).map (· * 4096), fun _ _ => 0, 4096, [4096], [], 3, 39, 256, 1, []⟩

theorem tables_list_every_table_brought :
    (Runs.run step (brought 3) [.domain, .map 0 0 0 true true, .unmap 0 0 true]).released ~
      (brought 3).released :=
  tables_list_every_table ⟨trivial, fun _ found => by cases found; decide, trivial, trivial⟩

/-- A function of a fifth bus is refused, and the frame taken for the bus is lost. -/
theorem fifth_bus_leaks_a_frame : (brought 6).released.length = 7 ∧
    (Runs.run step (brought 6) (.domain :: (range 5).map (.attach · 0 0 true))).released.length =
      6 := by
  decide +kernel

end Remapping

end FSystem.Kernel.Vtd
