import FSystem.Kernel.Paging
import FSystem.Library.Runs

/-!
# Building the address space of a process

Each table of a process is a frame, and the frames are listed so that they come back when
the process dies.  A frame that does not fit on the list was taken before that is found.
-/

namespace FSystem.Kernel.Paging

open Function

def maxUserTables : Nat := 8
def addressMask : Nat := 0x000FFFFFFFFFF000
def pageSizeBit : Nat := 2 ^ 7
def userTable : Nat := present ||| write ||| user

/-- Why an address space is not built, or a page not mapped into it. -/
inductive SpaceError
  | noFrames
  | overlap
  | tooManyTables
  | notUserAddress

/-- The free frames in order, the table entries, and a space: its top table and its listed
frames. -/
structure UserSpace where
  frames : List Nat
  entries : Nat → Nat → Nat
  root : Nat
  tables : List Nat

/-- Building in an address space, with errors. -/
abbrev Build := ExceptT SpaceError (StateM UserSpace)

namespace UserSpace

/-- A frame to use as a table, all zero. -/
def table : Build Nat := fun self =>
  match self.frames with
  | [] => (.error .noFrames, self)
  | frame :: frames =>
    (.ok frame, { self with frames, entries := update self.entries frame fun _ => 0 })

/-- Note a frame as one to give back. -/
def record (frame : Nat) : Build Unit := fun self =>
  if self.tables.length = maxUserTables then (.error .tooManyTables, self)
  else (.ok (), { self with tables := self.tables ++ [frame] })

/-- Write one entry of a table. -/
def put (table slot entry : Nat) : Build Unit :=
  modify fun self =>
    { self with entries := update self.entries table (update (self.entries table) slot entry) }

/-- An address space with the kernel's half and nothing else. -/
def userSpace (kernel : Nat → Nat) : Build Unit := do
  let root ← table
  modify ({ · with root, tables := [] })
  record root
  for slot in List.range' 256 256 do
    if isPresent (kernel slot) then put root slot (kernel slot)

/-- Follow an entry, and make a table if there is none. -/
def descendUser (parent slot : Nat) : Build Nat := do
  let existing := (← get).entries parent slot
  if isPresent existing then
    if existing &&& pageSizeBit ≠ 0 then throw .overlap
    return existing &&& addressMask
  let fresh ← table
  record fresh
  put parent slot (fresh ||| userTable)
  return fresh

/-- Map one page into a process's half of its address space. -/
def mapUser (virt phys : Nat) (kind : UserPage) (nx : Bool) : Build Unit := do
  if 2 ^ 47 ≤ virt then throw .notUserAddress
  let pdpt ← descendUser (← get).root (slotOf virt 39)
  let pd ← descendUser pdpt (slotOf virt 30)
  let pt ← descendUser pd (slotOf virt 21)
  if isPresent ((← get).entries pt (slotOf virt 12)) then throw .overlap
  put pt (slotOf virt 12) (phys ||| kind.flags nx)

/-- A call and then another, unless the first is refused. -/
theorem bind_run {α β : Type} (call : Build α) (next : α → Build β) (self : UserSpace) :
    (call >>= next) self =
      match call self with
      | (.error refusal, after) => (.error refusal, after)
      | (.ok value, after) => next value after := by
  change ExceptT.bindCont next (call self).1 (call self).2 = _
  generalize call self = result
  rcases result with ⟨refusal | value, after⟩ <;> rfl

/-- What an entry of a table says. -/
def entry (self : UserSpace) (table slot : Nat) : Entry Nat :=
  let existing := self.entries table slot
  if isPresent existing then
    if existing &&& pageSizeBit ≠ 0 then .large else .table (existing &&& addressMask)
  else .absent

/-- The space with its first free frame, all zero, listed and entered in a table. -/
def entered (self : UserSpace) (parent slot frame : Nat) (frames : List Nat) : UserSpace :=
  let zeroed := update self.entries frame fun _ => 0
  { self with
    frames
    entries := update zeroed parent (update (zeroed parent) slot (frame ||| userTable))
    tables := self.tables ++ [frame] }

/-- What a step down answers, by what the entry says. -/
theorem descendUser_eq (self : UserSpace) (parent slot : Nat) :
    descendUser parent slot self =
      match self.entry parent slot, self.frames with
      | .large, _ => (.error .overlap, self)
      | .table below, _ => (.ok below, self)
      | .absent, [] => (.error .noFrames, self)
      | .absent, frame :: frames =>
        if self.tables.length = maxUserTables then
          (.error .tooManyTables,
            { self with frames, entries := update self.entries frame fun _ => 0 })
        else (.ok frame, self.entered parent slot frame frames) := by
  obtain ⟨frames, entries, root, tables⟩ := self
  change (if isPresent (entries parent slot) then _ else _ : Build Nat) _ = _
  unfold entry
  by_cases here : isPresent (entries parent slot) = true
  · by_cases large : entries parent slot &&& pageSizeBit = 0 <;> simp [here, large] <;> rfl
  · cases frames with
    | nil => simp [here]; rfl
    | cons frame frames =>
      by_cases full : tables.length = maxUserTables
      · simp [here, full, table, record, bind_run]
      · simp [here, full, table, record, bind_run]
        rfl

/-- Follow the entries for an address from a table down; missing tables are made. -/
def walk (virt : Nat) : Nat → List Nat → Build Nat :=
  List.foldlM fun table shift => descendUser table (slotOf virt shift)

/-- Write the entry of a page, unless there is one. -/
def enter (virt entry pt : Nat) : Build Unit := do
  if isPresent ((← get).entries pt (slotOf virt 12)) then throw .overlap
  put pt (slotOf virt 12) entry

theorem enter_run (virt entry pt : Nat) (self : UserSpace) :
    enter virt entry pt self =
      if isPresent (self.entries pt (slotOf virt 12)) then (.error .overlap, self)
      else
        let row := update (self.entries pt) (slotOf virt 12) entry
        (.ok (), { self with entries := update self.entries pt row }) := by
  change (if isPresent (self.entries pt (slotOf virt 12)) then _ else _ : Build Unit) self = _
  split <;> rfl

/-- Mapping a page is a walk and the entry of the page. -/
theorem mapUser_eq
    {virt : Nat}
    (user : ¬2 ^ 47 ≤ virt)
    (phys : Nat)
    (kind : UserPage)
    (nx : Bool)
    (self : UserSpace) :
    mapUser virt phys kind nx self =
      (walk virt self.root [39, 30, 21] >>= enter virt (phys ||| kind.flags nx)) self := by
  unfold mapUser enter walk
  simp only [if_neg user, List.foldlM_cons, List.foldlM_nil, bind_assoc, pure_bind]
  rfl

/-- The frames that are listed or free. -/
def known (self : UserSpace) : List Nat := self.tables ++ self.frames

/-- How many tables a walk finds missing below a table. -/
def missing (self : UserSpace) (virt table : Nat) : List Nat → Nat
  | [] => 0
  | shift :: rest =>
    match self.entry table (slotOf virt shift) with
    | .absent => rest.length + 1
    | .large => 0
    | .table below => self.missing virt below rest

theorem missing_le (self : UserSpace) (virt table : Nat) (shifts : List Nat) :
    self.missing virt table shifts ≤ shifts.length := by
  fun_induction missing self virt table shifts <;> grind

variable {self : UserSpace}

/-- A walk leaves every frame listed or free, if the missing tables fit on the list. -/
theorem walk_known {virt table : Nat} {shifts : List Nat}
    (fits : self.tables.length + min (self.missing virt table shifts) self.frames.length ≤
      maxUserTables) :
    (walk virt table shifts self).2.known = self.known := by
  induction shifts generalizing self table with
  | nil => rfl
  | cons shift rest ih =>
    simp only [walk, List.foldlM_cons, bind_run, descendUser_eq]
    unfold missing at fits
    cases found : self.entry table (slotOf virt shift) with
    | large => rfl
    | table below =>
      rw [found] at fits
      exact ih fits
    | absent =>
      cases free : self.frames with
      | nil => rfl
      | cons frame frames =>
        simp only [found, free, List.length_cons] at fits
        have room : self.tables.length ≠ maxUserTables := by omega
        have fewer :=
          (self.entered table (slotOf virt shift) frame frames).missing_le virt frame rest
        simp only [room, if_false]
        refine (ih ?_).trans (by simp [known, entered, free])
        simp only [entered, List.length_append, List.length_cons, List.length_nil] at fewer ⊢
        omega

/-- The arguments of a call. -/
structure Page where
  virt : Nat
  phys : Nat
  kind : UserPage
  nx : Bool

/-- The answer of a call, and the address space after it. -/
def call (self : UserSpace) (page : Page) : Except SpaceError Unit × UserSpace :=
  mapUser page.virt page.phys page.kind page.nx self

/-- The space after a page is asked for. -/
def step (self : UserSpace) (page : Page) : UserSpace := (self.call page).2

/-- The tables a call finds missing fit on the list, as far as there are frames. -/
def Fits (self : UserSpace) (page : Page) : Prop :=
  page.virt < 2 ^ 47 →
    self.tables.length + min (self.missing page.virt self.root [39, 30, 21]) self.frames.length ≤
      maxUserTables

/-- The step lemma. -/
theorem known_step {page : Page} (fits : self.Fits page) : (self.step page).known = self.known := by
  unfold step call
  by_cases high : 2 ^ 47 ≤ page.virt
  · unfold mapUser
    rw [if_pos high]
    rfl
  have listed := walk_known (fits (Nat.lt_of_not_le high))
  rw [mapUser_eq high, bind_run]
  generalize walk page.virt self.root [39, 30, 21] self = walked at listed
  rcases walked with ⟨refusal | pt, after⟩
  · exact listed
  · simp only [enter_run]
    split
    · exact listed
    · exact listed

/-- Whatever calls are made, answered or refused, every frame they took is listed, as long as the
tables each finds missing fit on the list: giving the listed ones back restores the free ones. -/
theorem tables_list_every_frame {pages : List Page} (fits : Runs.Along step Fits self pages) :
    (Runs.run step self pages).known = self.known :=
  Runs.invariant_of_along (·.known = self.known) (fun _ _ fits kept => (known_step fits).trans kept)
    rfl fits

/-- An empty address space over ten free frames. -/
def fresh : UserSpace :=
  (userSpace (fun _ => 0) ⟨(List.range' 1 10).map (· * 4096), fun _ _ => 0, 0, []⟩).2

/-- Six tables are made for two pages; a page that is there already and one of the kernel's
half are refused. -/
theorem tables_list_every_frame_fresh :
    (Runs.run step fresh [⟨0, 0, .data, true⟩, ⟨0, 0, .data, true⟩, ⟨2 ^ 47, 0, .data, true⟩,
      ⟨2 ^ 39, 0, .data, true⟩]).known = fresh.known :=
  tables_list_every_frame ⟨fun _ => by decide +kernel, fun _ => by decide +kernel,
    fun _ => by decide +kernel, fun _ => by decide +kernel, trivial⟩

/-- The third page needs three tables where one more is listed: the frame taken for the
second is neither listed nor free. -/
theorem third_page_leaks_a_frame :
    fresh.known = [1, 2, 3, 4, 5, 6, 7, 8, 9, 10].map (· * 4096) ∧
      (Runs.run step fresh [⟨0, 0, .data, true⟩, ⟨2 ^ 39, 0, .data, true⟩,
        ⟨2 ^ 40, 0, .data, true⟩]).known =
        [1, 2, 3, 4, 5, 6, 7, 8, 10].map (· * 4096) := by
  decide +kernel

end UserSpace

end FSystem.Kernel.Paging
