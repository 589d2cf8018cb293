import FSystem.Zone.StoreMap
import FSystem.Zone.Mark

/-!
# What the mark covers

Every record the walk met is marked block by block, and every hash it is done
with names only hashes it is done with or still has to walk.  The walk keeps
this, and so does everything the collector does to the store below it.
-/

namespace FSystem.Zone

open Abi Hash Blob Std

namespace Bitmap

variable (self : Bitmap)

@[simp] theorem set_bits (block : Nat) : (self.set block).2.bits = self.bits := by
  unfold set
  split <;> rfl

variable {block : Nat}

theorem get_of_set_fst (inside : block < self.bits) (already : (self.set block).1 = true) :
    self.get block = true := by
  rw [set, if_neg (Nat.not_le.mpr inside)] at already
  have bit : self.words.testBit block = true := already
  simp [get, inside, bit]

/-- A bit inside the map that is set is found set. -/
theorem get_set_same (inside : block < self.bits) : (self.set block).2.get block = true := by
  rw [set, if_neg (Nat.not_le.mpr inside)]
  simp [get, inside, Nat.testBit_or]

/-- Setting a bit clears none. -/
theorem get_set_of_get (block : Nat) {other : Nat} (isSet : self.get other = true) :
    (self.set block).2.get other = true := by
  unfold set
  split
  next => exact isSet
  next =>
    simp only [get, Bool.and_eq_true, decide_eq_true_eq] at isSet ⊢
    exact ⟨isSet.1, by simp [Nat.testBit_or, isSet.2]⟩

/-- A range in which no bit is found set has none set. -/
theorem get_eq_false_of_any {first last : Nat} (none : self.any first last = false)
    (after : first ≤ block) (before : block < last) : self.get block = false := by
  by_contra isSet
  rw [Bool.not_eq_false] at isSet
  have inside : block < self.bits := by
    simp only [get, Bool.and_eq_true, decide_eq_true_eq] at isSet
    exact isSet.1
  have found : self.any first last = true := by
    rw [any, List.any_eq_true]
    refine ⟨block, ?_, isSet⟩
    rw [List.mem_range'_1]
    omega
  rw [none] at found
  cases found

end Bitmap

namespace Mark

variable {g : Geometry} {store : Store (ZoneMap g)} (self : Mark)

/-- The second mark has more bits set, and differs in nothing else the walk reads. -/
structure Grows (before after : Mark) : Prop where
  roots : after.roots = before.roots
  live : after.live = before.live
  pending : after.pending = before.pending
  seen : after.seen = before.seen
  sized : after.bits.bits = before.bits.bits
  get : ∀ block, before.bits.get block = true → after.bits.get block = true

theorem Grows.refl : Grows self self :=
  ⟨rfl, rfl, rfl, rfl, rfl, fun _ isSet => isSet⟩

theorem Grows.trans {before between after : Mark} (first : Grows before between)
    (second : Grows between after) : Grows before after where
  roots := second.roots.trans first.roots
  live := second.live.trans first.live
  pending := second.pending.trans first.pending
  seen := second.seen.trans first.seen
  sized := second.sized.trans first.sized
  get := fun block isSet => second.get block (first.get block isSet)

theorem occupyBlock_grows (logical : Nat) : Grows self (occupyBlock store self logical) := by
  unfold occupyBlock
  cases store.device.physical[logical]? with
  | none => exact .refl self
  | some place =>
    simp only
    split
    next => exact .refl self
    next =>
      exact ⟨rfl, rfl, rfl, rfl, Bitmap.set_bits _ _,
        fun block isSet => Bitmap.get_set_of_get _ _ isSet⟩

/-- A mapped block inside the bitmap is marked. -/
theorem occupyBlock_marks {logical place : Nat}
    (mapped : store.device.physical[logical]? = some place) (inside : place < self.bits.bits) :
    (occupyBlock store self logical).bits.get place = true := by
  unfold occupyBlock
  simp only [mapped]
  split
  next already => exact Bitmap.get_of_set_fst _ inside already
  next => exact Bitmap.get_set_same _ inside

theorem occupyBlocks_grows (blocks : List Nat) (self : Mark) :
    Grows self (blocks.foldl (occupyBlock store) self) := by
  induction blocks generalizing self with
  | nil => exact .refl self
  | cons block rest ih => exact (occupyBlock_grows self block).trans (ih _)

theorem occupyBlocks_marks
    (blocks : List Nat)
    (self : Mark)
    {logical place : Nat}
    (member : logical ∈ blocks)
    (mapped : store.device.physical[logical]? = some place)
    (inside : place < self.bits.bits) :
    (blocks.foldl (occupyBlock store) self).bits.get place = true := by
  induction blocks generalizing self with
  | nil => cases member
  | cons block rest ih =>
    have first := @occupyBlock_grows g store self block
    rcases List.mem_cons.mp member with rfl | later
    · exact (occupyBlocks_grows rest _).get place (occupyBlock_marks self mapped inside)
    · exact ih _ later (by rw [first.sized]; exact inside)

/-- A record's mapped blocks are marked once it is. -/
theorem occupy_grows (extent : Occupied) :
    Grows { self with live := self.live.insert extent.start extent } (occupy store self extent) :=
  occupyBlocks_grows _ _

theorem occupyTransient_grows (blocks : TreeSet Nat) :
    Grows self (occupyTransient store self blocks) :=
  occupyBlocks_grows _ _

/-- The mapped blocks of a record are marked. -/
def Marked (store : Store (ZoneMap g)) (bits : Bitmap) (extent : Occupied) : Prop :=
  ∀ logical place : Nat, extent.start ≤ logical → logical < extent.start + extent.blocks →
    store.device.physical[logical]? = some place → bits.get place = true

/-- The bitmap has a bit for every mapped block. -/
def Sized (store : Store (ZoneMap g)) (bits : Bitmap) : Prop :=
  ∀ logical place : Nat, store.device.physical[logical]? = some place → place < bits.bits

/-- A record's blocks are marked. -/
theorem occupy_marks (extent : Occupied) (sized : Sized store self.bits) :
    Marked store (occupy store self extent).bits extent := by
  intro logical place after before mapped
  refine occupyBlocks_marks _ _ ?_ mapped (sized logical place mapped)
  rw [List.mem_range'_1]
  exact ⟨after, before⟩

/-- Two marks of which the second has more to walk and differs in nothing else. -/
structure Asks (before after : Mark) : Prop where
  roots : after.roots = before.roots
  live : after.live = before.live
  seen : after.seen = before.seen
  bits : after.bits = before.bits
  pending : ∀ hash ∈ before.pending, hash ∈ after.pending

theorem Asks.refl : Asks self self :=
  ⟨rfl, rfl, rfl, rfl, fun _ member => member⟩

theorem walk_asks (root : Digest) : Asks self (self.walk root) := by
  unfold walk
  split
  next => exact .refl self
  next => exact ⟨rfl, rfl, rfl, rfl, fun _ member => List.mem_cons_of_mem _ member⟩

theorem walk_covers (root : Digest) : root ∈ self.seen ∨ root ∈ (self.walk root).pending := by
  unfold walk
  split
  next seen => exact .inl (TreeSet.mem_iff_contains.mpr seen)
  next => exact .inr List.mem_cons_self

theorem foldl_walk_asks (hashes : List Digest) (self : Mark) :
    Asks self (hashes.foldl walk self) := by
  induction hashes generalizing self with
  | nil => exact .refl self
  | cons hash rest ih =>
    have first := self.walk_asks hash
    have later := ih (self.walk hash)
    exact ⟨later.roots.trans first.roots, later.live.trans first.live,
      later.seen.trans first.seen, later.bits.trans first.bits,
      fun other member => later.pending other (first.pending other member)⟩

/-- Every hash that was asked for was walked or will be. -/
theorem foldl_walk_covers (hashes : List Digest) (self : Mark) {hash : Digest}
    (member : hash ∈ hashes) : hash ∈ self.seen ∨ hash ∈ (hashes.foldl walk self).pending := by
  induction hashes generalizing self with
  | nil => cases member
  | cons first rest ih =>
    rcases List.mem_cons.mp member with rfl | later
    · refine (self.walk_covers hash).imp_right ?_
      exact (foldl_walk_asks rest (self.walk hash)).pending hash
    · rw [← (self.walk_asks first).seen]
      exact ih _ later

/-- A record listed at its start is marked and does not reach past the free pointer. -/
structure Entered (store : Store (ZoneMap g)) (bits : Bitmap) (start : Nat) (extent : Occupied) :
    Prop where
  keyed : extent.start = start
  marked : Marked store bits extent
  bounded : extent.start + extent.blocks ≤ store.free ∨ Device.blocks store.device ≤ store.free

theorem Entered.mono
    {bits more : Bitmap}
    {start : Nat}
    {extent : Occupied}
    (entered : Entered store bits start extent)
    (get : ∀ block, bits.get block = true → more.get block = true) :
    Entered store more start extent :=
  { entered with
    marked := fun logical place above below mapped =>
      get place (entered.marked logical place above below mapped) }

/-- What a mark covers of a store. -/
structure Covers (store : Store (ZoneMap g)) (mark : Mark) : Prop where
  /-- There is a bit for every block of the device. -/
  sized : mark.bits.bits = g.zoneCount * g.zoneBlocks
  rooted : ∀ hash ∈ mark.roots, hash ∈ mark.seen
  /-- A record the walk is done with is listed. -/
  listed : ∀ hash ∈ mark.seen, ∀ (start room : Nat) (content : Bytes),
    store.located[hash]? = some start → store.get hash room = .ok content →
      mark.live[start]? = some ⟨start, span store.blockBytes content.length, hash⟩
  /-- What such a record names was walked or will be. -/
  named : ∀ parent ∈ mark.seen, ∀ child, Names store parent child →
    child ∈ mark.seen ∨ child ∈ mark.pending
  entries : ∀ (start : Nat) (extent : Occupied), mark.live[start]? = some extent →
    Entered store mark.bits start extent

/-- A mark that was started over covers any store. -/
theorem restart_covers {self : Mark} (sized : self.bits.bits = g.zoneCount * g.zoneBlocks)
    (store : Store (ZoneMap g)) : Covers store self.restart where
  sized := sized
  rooted := by simp [restart]
  listed := by simp [restart]
  named := by simp [restart]
  entries := by simp [restart]

/-- A bitmap of the device's size has a bit for every mapped block. -/
theorem sized_of_bits (wellFormed : store.device.WellFormed) {bits : Bitmap}
    (sized : bits.bits = g.zoneCount * g.zoneBlocks) : Sized store bits := by
  intro logical place mapped
  have positive := store.device.zoneBlocks_pos
  rw [sized, ← Nat.div_lt_iff_lt_mul positive]
  rcases wellFormed.placed logical place mapped with ⟨-, rfl⟩ | placed
  · have := store.device.dataFrom_lt
    simp
    omega
  · exact (wellFormed.dataFrom_le_of_placed placed).2

variable {start : Nat}

/-- Two hashes whose headers stand in one block are one. -/
theorem eq_of_head
    {first second : Digest}
    {one other : Header}
    (firstAt : store.located[first]? = some start)
    (secondAt : store.located[second]? = some start)
    (firstHead : store.head first = .ok one)
    (secondHead : store.head second = .ok other) :
    first = second := by
  obtain ⟨_, bytes, firstStart, firstRead, firstHeader, rfl⟩ := Store.head_ok firstHead
  obtain ⟨_, _, secondStart, secondRead, secondHeader, rfl⟩ := Store.head_ok secondHead
  rw [firstAt] at firstStart
  cases firstStart
  rw [secondAt] at secondStart
  cases secondStart
  rw [firstRead] at secondRead
  cases secondRead
  rw [firstHeader] at secondHeader
  cases secondHeader
  rfl

section Kept

variable {mark after : Mark} (covers : Covers store mark)

include covers

/-- More bits and more to walk take nothing from a mark's cover. -/
theorem Covers.of_same
    (roots : after.roots = mark.roots)
    (live : after.live = mark.live)
    (seen : after.seen = mark.seen)
    (sized : after.bits.bits = mark.bits.bits)
    (get : ∀ block, mark.bits.get block = true → after.bits.get block = true)
    (pending : ∀ hash ∈ mark.pending, hash ∈ mark.seen ∨ hash ∈ after.pending) :
    Covers store after where
  sized := sized.trans covers.sized
  rooted := by
    rw [roots, seen]
    exact covers.rooted
  listed := by
    rw [seen, live]
    exact covers.listed
  named := by
    rw [seen]
    intro parent done child names
    exact (covers.named parent done child names).elim .inl (pending child)
  entries := by
    rw [live]
    exact fun start extent present => (covers.entries start extent present).mono get

theorem Covers.of_grows (grows : Grows mark after) : Covers store after :=
  covers.of_same grows.roots grows.live grows.seen grows.sized grows.get
    fun _ member => .inr (grows.pending ▸ member)

theorem Covers.of_asks (asks : Asks mark after) : Covers store after :=
  covers.of_same asks.roots asks.live asks.seen (congrArg Bitmap.bits asks.bits)
    (fun _ isSet => asks.bits ▸ isSet) fun hash member => .inr (asks.pending hash member)

end Kept

/-- The hashes an object names, as the mark reads them. -/
theorem childrenOf_eq_ok_iff (hash : Digest) (header : Header) (hashes : List Digest) :
    childrenOf store hash header = .ok hashes ↔
      ∃ content, store.get hash header.contentBytes.toNat = .ok content ∧
        objectChildren content = some hashes := by
  unfold childrenOf objectChildren
  cases store.get hash header.contentBytes.toNat with
  | error refusal => simp
  | ok content =>
    simp only [Except.ok.injEq, exists_eq_left']
    split
    next => simp
    next =>
      cases ObjectHead.fromBytes (content.take headBytes) with
      | error refusal => simp
      | ok head =>
        simp only
        split <;> simp

/-- What the mark makes of a hash: nothing when it is not located, what an object names, and
`none` when the step is refused. -/
def visit (store : Store (ZoneMap g)) (hash : Digest) : Option (List Digest) :=
  match store.address hash with
  | none => some []
  | some _ =>
    match store.head hash with
    | .error _ => none
    | .ok header =>
      if header.kind = .object then (childrenOf store hash header).toOption else some []

theorem names_iff (parent child : Digest) :
    Worklist.Names (visit store) parent child ↔ Names store parent child := by
  constructor
  · rintro ⟨named, visits, member⟩
    revert visits
    fun_cases visit store parent with
    | case1 | case4 =>
      rintro ⟨⟩
      cases member
    | case2 => nofun
    | case3 _ _ header head isObject =>
      intro visits
      cases names : childrenOf store parent header with
      | error refusal => simp [names, Except.toOption] at visits
      | ok hashes =>
        obtain ⟨content, got, children⟩ := (childrenOf_eq_ok_iff _ _ _).mp names
        rw [names] at visits
        cases visits
        exact ⟨header, content, _, head, isObject, got, children, member⟩
  · rintro ⟨header, content, hashes, head, isObject, got, children, member⟩
    obtain ⟨start, -, located, -, -⟩ := Store.head_ok head
    have names := (childrenOf_eq_ok_iff parent header hashes).mpr ⟨content, got, children⟩
    refine ⟨hashes, ?_, member⟩
    simp [visit, Store.address, located, head, if_pos isObject, names, Except.toOption]

/-- A hash that was not walked before is next, and its record is found. -/
structure Meets (store : Store (ZoneMap g)) (mark : Mark) (hash : Digest) (rest : List Digest)
    (start : Nat) (header : Header) : Prop where
  next : mark.pending = hash :: rest
  fresh : hash ∉ mark.seen
  located : store.located[hash]? = some start
  found : store.head hash = .ok header

/-- The mark once a record was met and its blocks were marked. -/
def meet (store : Store (ZoneMap g)) (self : Mark) (hash : Digest) (rest : List Digest)
    (start : Nat) (header : Header) : Mark :=
  occupy store { self with pending := rest, seen := self.seen.insert hash }
    ⟨start, span store.blockBytes header.contentBytes.toNat, hash⟩

theorem meet_grows {self : Mark} {hash : Digest} {rest : List Digest} {header : Header} :
    Grows { self with
      pending := rest
      seen := self.seen.insert hash
      live := self.live.insert start
        ⟨start, span store.blockBytes header.contentBytes.toNat, hash⟩ }
      (meet store self hash rest start header) :=
  occupyBlocks_grows _ _

/-- What walking one hash does. -/
inductive Walked (store : Store (ZoneMap g)) (self : Mark) :
    Except Refusal Bool → Mark → Prop
  | nothing (empty : self.pending = []) : Walked store self (.ok false) self
  | again (hash : Digest) (rest : List Digest)
      (next : self.pending = hash :: rest) (seen : hash ∈ self.seen) :
      Walked store self (.ok true) { self with pending := rest }
  | unresolved (hash : Digest) (rest : List Digest)
      (next : self.pending = hash :: rest) (fresh : hash ∉ self.seen)
      (absent : store.located[hash]? = none) :
      Walked store self (.ok true) { self with
        pending := rest
        seen := self.seen.insert hash
        unresolved := self.unresolved + 1
        roots := self.roots.insert hash }
  | headless (hash : Digest) (rest : List Digest) (refusal : Refusal)
      (next : self.pending = hash :: rest) (fresh : hash ∉ self.seen)
      (refused : store.head hash = .error refusal) :
      Walked store self (.error refusal)
        { self with pending := rest, seen := self.seen.insert hash }
  | childless (hash : Digest) (rest : List Digest) (start : Nat) (header : Header)
      (refusal : Refusal) (occupied : Mark)
      (meets : Meets store self hash rest start header) (refused : visit store hash = none)
      (marks : occupied = meet store self hash rest start header) :
      Walked store self (.error refusal) occupied
  | recorded (hash : Digest) (rest : List Digest) (start : Nat) (header : Header)
      (hashes : List Digest) (walked : Mark)
      (meets : Meets store self hash rest start header)
      (visits : visit store hash = some hashes)
      (asked : walked = hashes.foldl walk (meet store self hash rest start header)) :
      Walked store self (.ok true) { walked with roots := walked.roots.insert hash }

theorem step_walked : Walked store self (self.step store).1 (self.step store).2 := by
  unfold step
  cases next : self.pending with
  | nil => exact .nothing next
  | cons hash rest =>
    simp only
    by_cases seen : self.seen.contains hash = true
    · rw [if_pos seen]
      exact .again hash rest next (TreeSet.mem_iff_contains.mpr seen)
    rw [if_neg seen]
    have fresh : hash ∉ self.seen := fun member => seen (TreeSet.mem_iff_contains.mp member)
    cases located : store.address hash with
    | none => exact .unresolved hash rest next fresh located
    | some start =>
      cases found : store.head hash with
      | error refusal => exact .headless hash rest refusal next fresh found
      | ok header =>
        have meets : Meets store self hash rest start header := ⟨next, fresh, located, found⟩
        simp only
        by_cases isObject : header.kind = .object
        · rw [if_pos isObject]
          unfold children
          cases names : childrenOf store hash header with
          | error refusal =>
            refine .childless hash rest start header refusal _ meets ?_ rfl
            simp [visit, located, found, isObject, names, Except.toOption]
          | ok hashes =>
            refine .recorded hash rest start header hashes _ meets ?_ rfl
            simp [visit, located, found, isObject, names, Except.toOption]
        · rw [if_neg isObject]
          refine .recorded hash rest start header [] _ meets ?_ rfl
          simp [visit, located, found, isObject]

section Step

variable {mark after : Mark} {hash : Digest} {rest : List Digest} {refusal : Refusal}
  {roots : TreeSet Digest}

/-- A hash without a header names nothing. -/
theorem not_names_of_head_error (refused : store.head hash = .error refusal) (child : Digest) :
    ¬Names store hash child := by
  rintro ⟨header, _, _, head, _⟩
  rw [refused] at head
  cases head

theorem head_of_not_located
    (absent : store.located[hash]? = none) : store.head hash = .error .address := by
  simp [Store.head, absent]

variable (covers : Covers store mark)

include covers

/-- The mark after a hash was walked, from what the walk did with it. -/
theorem Covers.walked
    (next : mark.pending = hash :: rest)
    (sized : after.bits.bits = mark.bits.bits)
    (bits : ∀ block, mark.bits.get block = true → after.bits.get block = true)
    (seen : after.seen = mark.seen.insert hash)
    (roots : ∀ root ∈ after.roots, root ∈ mark.roots ∨ root = hash)
    (pending : ∀ other ∈ rest, other ∈ after.pending)
    (live : ∀ (start : Nat) (extent : Occupied), after.live[start]? = some extent →
      mark.live[start]? = some extent ∨ Entered store after.bits start extent)
    (listed : ∀ other ∈ after.seen, ∀ (start room : Nat) (content : Bytes),
      store.located[other]? = some start → store.get other room = .ok content →
        after.live[start]? = some ⟨start, span store.blockBytes content.length, other⟩)
    (named : ∀ child, Names store hash child → child ∈ after.seen ∨ child ∈ after.pending) :
    Covers store after where
  sized := sized.trans covers.sized
  rooted := by
    intro root member
    rw [seen, TreeSet.mem_insert, Std.compare_eq_iff_eq]
    exact (roots root member).symm.imp Eq.symm (covers.rooted root)
  listed := listed
  named := by
    intro parent member child names
    rw [seen, TreeSet.mem_insert, Std.compare_eq_iff_eq] at member
    rcases member with rfl | before
    · exact named child names
    rw [seen, TreeSet.mem_insert, Std.compare_eq_iff_eq]
    rcases covers.named parent before child names with done | waiting
    · exact .inl (.inr done)
    · rw [next] at waiting
      rcases List.mem_cons.mp waiting with rfl | later
      · exact .inl (.inl rfl)
      · exact .inr (pending child later)
  entries start extent present := (live start extent present).elim
    (fun old => (covers.entries start extent old).mono bits) id

/-- A hash that cannot be read is walked without trace. -/
theorem Covers.met
    (sound : Store.Sound store)
    (next : mark.pending = hash :: rest)
    (refused : store.head hash = .error refusal)
    (added : ∀ root ∈ roots, root ∈ mark.roots ∨ root = hash)
    (unresolved : Nat) :
    Covers store { mark with
      pending := rest
      seen := mark.seen.insert hash
      roots := roots
      unresolved := unresolved } := by
  refine covers.walked next rfl (fun _ isSet => isSet) rfl added
    (fun _ member => member) (fun _ _ present => .inl present) ?_ ?_
  · intro other member start room content located ok
    rw [TreeSet.mem_insert, Std.compare_eq_iff_eq] at member
    rcases member with rfl | before
    · obtain ⟨_, header, got⟩ := Store.get_ok sound ok
      have head := got.head
      rw [refused] at head
      cases head
    · exact covers.listed other before start room content located ok
  · intro child names
    exact absurd names (not_names_of_head_error refused child)

/-- A hash whose header can be read is walked by marking its record; what it
names is left to show. -/
theorem Covers.occupied
    (grounded : Grounded store)
    {header : Header}
    (meets : Meets store mark hash rest start header)
    (asks : Asks (meet store mark hash rest start header) after)
    (added : ∀ root ∈ roots, root ∈ mark.roots ∨ root = hash)
    (named : ∀ child, Names store hash child → child ∈ after.seen ∨ child ∈ after.pending) :
    Covers store { after with roots := roots } := by
  obtain ⟨next, fresh, located, found⟩ := meets
  have sized : Sized store mark.bits := sized_of_bits grounded.wellFormed covers.sized
  have grows := @meet_grows g store start mark hash rest header
  have live : after.live = mark.live.insert start ⟨start, span store.blockBytes
    header.contentBytes.toNat, hash⟩ := asks.live.trans grows.live
  refine covers.walked next ?_ ?_ (asks.seen.trans grows.seen) added ?_ ?_ ?_ named
  · exact (congrArg Bitmap.bits asks.bits).trans grows.sized
  · intro block isSet
    simp only [asks.bits]
    exact grows.get block isSet
  · intro other member
    apply asks.pending
    rw [grows.pending]
    exact member
  · intro other extent present
    simp only [live, TreeMap.getElem?_insert, Std.compare_eq_iff_eq] at present
    split at present
    next isStart =>
      cases present
      simp only [asks.bits]
      exact .inr ⟨isStart, occupy_marks _ _ sized, grounded.within hash start header located found⟩
    next => exact .inl present
  · intro other member start' room content located' ok
    obtain ⟨_, header', got⟩ := Store.get_ok grounded.sound ok
    simp only [asks.seen, grows.seen, TreeSet.mem_insert, Std.compare_eq_iff_eq] at member
    simp only [live, TreeMap.getElem?_insert, Std.compare_eq_iff_eq]
    rcases member with rfl | before
    · rw [located] at located'
      cases located'
      have head := got.head
      rw [found] at head
      cases head
      rw [if_pos rfl, got.length]
    · rw [if_neg]
      · exact covers.listed other before start' room content located' ok
      · rintro rfl
        cases eq_of_head located' located got.head found
        exact fresh before

/-- Walking one hash, refused or not, keeps what the mark covers. -/
theorem Covers.step (grounded : Grounded store) : Covers store (mark.step store).2 := by
  have inserted : ∀ (set : TreeSet Digest) (hash root : Digest),
      root ∈ set.insert hash → root ∈ set ∨ root = hash := by
    intro set hash root member
    rw [TreeSet.mem_insert, Std.compare_eq_iff_eq] at member
    exact member.symm.imp_right Eq.symm
  have walked := @step_walked g store mark
  generalize (mark.step store).1 = answer, (mark.step store).2 = after at walked ⊢
  cases walked with
  | nothing => exact covers
  | again hash rest next seen =>
    refine covers.of_same rfl rfl rfl rfl (fun _ isSet => isSet) fun other member => ?_
    rw [next] at member
    rcases List.mem_cons.mp member with rfl | later
    · exact .inl seen
    · exact .inr later
  | unresolved hash rest next fresh absent =>
    exact covers.met grounded.sound next (head_of_not_located absent) (inserted mark.roots hash) _
  | headless hash rest refusal next fresh refused =>
    exact covers.met grounded.sound next refused (fun _ member => .inl member) _
  | childless hash rest start header refusal occupied meets refused marks =>
    refine covers.occupied grounded meets (marks ▸ .refl _) ?_ fun child names => ?_
    · intro root member
      rw [marks, meet_grows.roots] at member
      exact .inl member
    · obtain ⟨_, visits, -⟩ := (names_iff hash child).mpr names
      cases refused.symm.trans visits
  | recorded hash rest start header hashes walked meets visits asked =>
    have asks : Asks _ walked := asked ▸ foldl_walk_asks hashes _
    refine covers.occupied grounded meets asks ?_ fun child names => ?_
    · intro root member
      rw [asks.roots, meet_grows.roots] at member
      exact inserted mark.roots hash root member
    · obtain ⟨_, also, member⟩ := (names_iff hash child).mpr names
      cases visits.symm.trans also
      rw [asks.seen, asked]
      exact foldl_walk_covers hashes _ member

end Step

/-- Walking a hash keeps the bitmap's size. -/
theorem step_sized : (self.step store).2.bits.bits = self.bits.bits := by
  have walked := @step_walked g store self
  generalize (self.step store).1 = answer, (self.step store).2 = after at walked ⊢
  cases walked with
  | nothing | again | unresolved | headless => rfl
  | childless hash rest start header refusal occupied meets refused marks =>
    rw [marks]
    exact meet_grows.sized
  | recorded hash rest start header hashes walked meets visits asked =>
    rw [asked]
    exact (congrArg Bitmap.bits (foldl_walk_asks hashes _).bits).trans meet_grows.sized

variable (extents : List Occupied)

/-- Marking records sets bits, and changes nothing else but what is listed. -/
theorem foldl_occupy_grows (self : Mark) :
    ∃ live, Grows { self with live } (extents.foldl (occupy store) self) := by
  induction extents generalizing self with
  | nil => exact ⟨self.live, .refl self⟩
  | cons extent rest ih =>
    have grows := @occupy_grows g store self extent
    obtain ⟨live, later⟩ := ih (occupy store self extent)
    exact ⟨live, later.roots.trans grows.roots, later.live, later.pending.trans grows.pending,
      later.seen.trans grows.seen, later.sized.trans grows.sized,
      fun block isSet => later.get block (grows.get block isSet)⟩

theorem rebuild_grows (roots : Roots) : ∃ live, Grows
    { self with bits := self.bits.clear, liveBytes := ∅, live } (self.rebuild store roots) := by
  obtain ⟨live, grows⟩ := @foldl_occupy_grows g store (self.live.toList.map Prod.snd)
    { self with bits := self.bits.clear, liveBytes := ∅ }
  exact ⟨live, grows.trans (occupyTransient_grows _ _)⟩

/-- Two marks that list the same records and have the same left to walk. -/
structure Relists (before after : Mark) : Prop where
  roots : after.roots = before.roots
  pending : after.pending = before.pending
  seen : after.seen = before.seen
  sized : after.bits.bits = before.bits.bits
  live : ∀ start : Nat, after.live[start]? = before.live[start]?

/-- Marking records that are listed already lists nothing new. -/
theorem foldl_occupy_relists (self : Mark)
    (listed : ∀ extent ∈ extents, self.live[extent.start]? = some extent) :
    Relists self (extents.foldl (occupy store) self) := by
  induction extents generalizing self with
  | nil => exact ⟨rfl, rfl, rfl, rfl, fun _ => rfl⟩
  | cons extent rest ih =>
    have grows := @occupy_grows g store self extent
    have live : ∀ start : Nat, (occupy store self extent).live[start]? =
        self.live[start]? := by
      intro start
      rw [grows.live, TreeMap.getElem?_insert]
      simp only [Std.compare_eq_iff_eq]
      split
      next isStart =>
        rw [← isStart]
        exact (listed extent List.mem_cons_self).symm
      next => rfl
    have later := ih (occupy store self extent) (by
      intro other member
      rw [live]
      exact listed other (List.mem_cons_of_mem _ member))
    exact ⟨later.roots.trans grows.roots, later.pending.trans grows.pending,
      later.seen.trans grows.seen, later.sized.trans grows.sized,
      fun start => (later.live start).trans (live start)⟩

theorem foldl_occupy_marks (self : Mark) (sized : Sized store self.bits) {extent : Occupied}
    (member : extent ∈ extents) : Marked store (extents.foldl (occupy store) self).bits extent := by
  induction extents generalizing self with
  | nil => cases member
  | cons first rest ih =>
    rcases List.mem_cons.mp member with rfl | later
    · intro logical place above below mapped
      obtain ⟨_, later⟩ := @foldl_occupy_grows g store rest (occupy store self extent)
      exact later.get place (occupy_marks self extent sized logical place above below mapped)
    · refine ih _ ?_ later
      intro logical place mapped
      rw [(occupy_grows self first).sized]
      exact sized logical place mapped

/-- A rebuilt mark lists what it listed, and marks all of it where it now is. -/
theorem rebuild_spec (roots : Roots) (sized : Sized store self.bits)
    (keyed : ∀ (start : Nat) (extent : Occupied), self.live[start]? = some extent →
      extent.start = start) :
    Relists self (self.rebuild store roots) ∧
      ∀ (start : Nat) (extent : Occupied), self.live[start]? = some extent →
        Marked store (self.rebuild store roots).bits extent := by
  have listed : ∀ extent ∈ self.live.toList.map Prod.snd,
      self.live[extent.start]? = some extent := by
    intro extent member
    obtain ⟨⟨start, _⟩, entry, rfl⟩ := List.mem_map.mp member
    have present := TreeMap.mem_toList_iff_getElem?_eq_some.mp entry
    rw [keyed _ _ present]
    exact present
  have relists := @foldl_occupy_relists g store (self.live.toList.map Prod.snd)
    { self with bits := self.bits.clear, liveBytes := ∅ } listed
  have grows := @occupyTransient_grows g store
    ((self.live.toList.map Prod.snd).foldl (occupy store)
      { self with bits := self.bits.clear, liveBytes := ∅ }) roots.transientBlocks
  constructor
  · exact ⟨grows.roots.trans relists.roots, grows.pending.trans relists.pending,
      grows.seen.trans relists.seen, grows.sized.trans relists.sized,
      fun start => (congrArg (·[start]?) grows.live).trans (relists.live start)⟩
  intro start extent present logical place above below mapped
  apply grows.get
  have cleared : Sized store self.bits.clear := sized
  refine foldl_occupy_marks _ { self with bits := self.bits.clear, liveBytes := ∅ } cleared
    ?_ logical place above below mapped
  exact List.mem_map.mpr ⟨(start, extent), TreeMap.mem_toList_iff_getElem?_eq_some.mpr present, rfl⟩

section Store

variable {before after : Store (ZoneMap g)} {mark : Mark}

variable (covers : Covers before mark) (fades : Fades before after) (sound : Store.Sound before)
  (soundAfter : Store.Sound after)

include covers fades sound soundAfter

/-- A mark's cover survives the loss of blocks that are in no listed record. -/
theorem Covers.of_fades {rebuilt : Mark} (relists : Relists mark rebuilt)
    (marked : ∀ (start : Nat) (extent : Occupied), mark.live[start]? = some extent →
      Marked after rebuilt.bits extent) : Covers after rebuilt where
  sized := relists.sized.trans covers.sized
  rooted := by
    rw [relists.roots, relists.seen]
    exact covers.rooted
  listed := by
    intro hash member start room content located ok
    rw [relists.seen] at member
    rw [fades.located] at located
    rw [relists.live, fades.blockBytes]
    exact covers.listed hash member start room content located (fades.get sound soundAfter ok)
  named := by
    rw [relists.seen, relists.pending]
    intro parent member child names
    exact covers.named parent member child (names.of_fades fades sound soundAfter)
  entries := by
    intro start extent present
    rw [relists.live] at present
    obtain ⟨keyed, -, bounded⟩ := covers.entries start extent present
    rw [← fades.free, ← fades.blocks] at bounded
    exact ⟨keyed, marked start extent present, bounded⟩

/-- What a mark covers survives when blocks are lost and none is moved. -/
theorem Covers.of_lost
    (mapped : ∀ logical place : Nat, after.device.physical[logical]? = some place →
      before.device.physical[logical]? = some place) : Covers after mark := by
  refine covers.of_fades fades sound soundAfter ⟨rfl, rfl, rfl, rfl, fun _ => rfl⟩ ?_
  intro start extent present logical place above below isMapped
  exact (covers.entries start extent present).marked logical place above below
    (mapped logical place isMapped)

/-- What a mark covers survives when blocks are moved and the mark is rebuilt. -/
theorem Covers.rebuild (roots : Roots) : Covers after (mark.rebuild after roots) := by
  obtain ⟨relists, marked⟩ := @rebuild_spec g after mark roots
    (sized_of_bits soundAfter.valid covers.sized) fun start extent present =>
      (covers.entries start extent present).keyed
  exact covers.of_fades fades sound soundAfter relists marked

end Store

end Mark

end FSystem.Zone
