import FSystem.Blob.ExtentLaws
import FSystem.Blob.ObjectLaws
import FSystem.Blob.Scan
import FSystem.Library.Runs

/-!
# A store and what its owners keep

A vault is a store together with the extents its owners hold and the hashes they were given.
What it is for is a model of plain arrays of bytes: every call is answered as the arrays
answer it, and what the store refuses part-way leaves a beginning of a write.
-/

namespace FSystem.Blob

open Abi Hash

/-- A store, the extents held over it, and the snapshots and objects given out. -/
structure Vault (D : Type) where
  store : Store D
  handles : List Extent
  published : List Digest
  objects : List Digest

/-- What an owner can ask for. -/
inductive Call where
  | put (kind : UInt16) (content : Bytes)
  | putObject (bytes : Bytes)
  | getObject (object room : Nat)
  | create (bytes : Bytes)
  | write (handle start : Nat) (bytes : Bytes)
  | read (handle start length : Nat)
  | snapshot (handle : Nat)
  | reopen (snapshot : Nat)

/-- What an owner is answered. -/
inductive Answer where
  /-- There is no such handle or hash, so nothing was asked of the store. -/
  | absent
  | refused (refusal : Refusal)
  | stored (hash : Digest)
  | published (hash : Digest) (cost : Cost)
  | opened
  | wrote (cost : Cost)
  | bytes (bytes : Bytes)
  deriving DecidableEq

namespace Answer

/-- The answer to a read. -/
def ofRead : Except Refusal Bytes → Answer
  | .error refusal => .refused refusal
  | .ok read => .bytes read

end Answer

namespace Vault

section Machine

variable {D : Type} [Device D]

/-- A vault around a store nothing has been asked of. -/
def around (store : Store D) : Vault D := ⟨store, [], [], []⟩

variable (self : Vault D)

/-- Store one blob. -/
def put (kind : UInt16) (content : Bytes) : Answer × Vault D :=
  match self.store.put kind content with
  | (.error refusal, store) => (.refused refusal, { self with store := store })
  | (.ok hash, store) => (.stored hash, { self with store := store })

/-- Store an object, and keep its hash. -/
def putObject (bytes : Bytes) : Answer × Vault D :=
  match self.store.putObject bytes with
  | (.error refusal, store) => (.refused refusal, { self with store := store })
  | (.ok hash, store) =>
    (.stored hash, { self with store := store, objects := self.objects ++ [hash] })

/-- Create an extent, and keep it. -/
def create (bytes : Bytes) : Answer × Vault D :=
  match Extent.create self.store bytes with
  | (.error refusal, store) => (.refused refusal, { self with store := store })
  | (.ok extent, store) =>
    (.opened, { self with store := store, handles := self.handles ++ [extent] })

/-- Write to an extent; a refused write leaves the pieces it has replaced. -/
def write (handle start : Nat) (bytes : Bytes) : Answer × Vault D :=
  match self.handles[handle]? with
  | none => (.absent, self)
  | some extent =>
    match extent.write self.store start bytes with
    | (.error refusal, extent, store) => (.refused refusal,
        { self with store := store, handles := self.handles.set handle extent })
    | (.ok cost, extent, store) => (.wrote cost,
        { self with store := store, handles := self.handles.set handle extent })

/-- Publish an extent that is held, and keep the hash. -/
def snapshot (handle : Nat) : Answer × Vault D :=
  match self.handles[handle]? with
  | none => (.absent, self)
  | some extent =>
    match extent.snapshot self.store with
    | (.error refusal, store) => (.refused refusal, { self with store := store })
    | (.ok (hash, cost), store) => (.published hash cost,
        { self with store := store, published := self.published ++ [hash] })

/-- Open a snapshot, and hold it as another extent. -/
def reopen (snapshot : Nat) : Answer × Vault D :=
  match self.published[snapshot]? with
  | none => (.absent, self)
  | some hash =>
    match Extent.openAt self.store hash with
    | .error refusal => (.refused refusal, self)
    | .ok extent => (.opened, { self with handles := self.handles ++ [extent] })

/-- One call. -/
def call : Call → Answer × Vault D
  | .put kind content => self.put kind content
  | .putObject bytes => self.putObject bytes
  | .getObject object room =>
    (self.objects[object]?.elim .absent fun hash => .ofRead (self.store.getObject hash room), self)
  | .create bytes => self.create bytes
  | .write handle start bytes => self.write handle start bytes
  | .read handle start length =>
    (self.handles[handle]?.elim .absent fun extent =>
      .ofRead (extent.read self.store start length), self)
  | .snapshot handle => self.snapshot handle
  | .reopen snapshot => self.reopen snapshot

/-- The vault after a call. -/
def step (call : Call) : Vault D := (self.call call).2

/-- The answer to a call. -/
def answer (call : Call) : Answer := (self.call call).1

end Machine

end Vault

/-- Plain arrays: those held, those published, and those stored as objects. -/
structure Arrays where
  handles : List Bytes
  snapshots : List Bytes
  objects : List Bytes

namespace Arrays

/-- No arrays. -/
def empty : Arrays := ⟨[], [], []⟩

/-- What the arrays allow as the answer to a call, and the arrays after it.  A store may refuse
at any time, with a beginning of a write stored. -/
inductive Allowed : Arrays → Call → Answer → Arrays → Prop where
  | put (arrays : Arrays) (kind : UInt16) (content : Bytes) (answer : Answer) :
      Allowed arrays (.put kind content) answer arrays
  | putObject (arrays : Arrays) (bytes : Bytes) (hash : Digest) :
      Allowed arrays (.putObject bytes) (.stored hash)
        { arrays with objects := arrays.objects ++ [bytes] }
  | putObjectRefused (arrays : Arrays) (bytes : Bytes) (refusal : Refusal) :
      Allowed arrays (.putObject bytes) (.refused refusal) arrays
  | getObject (arrays : Arrays) (object room : Nat) :
      Allowed arrays (.getObject object room)
        (arrays.objects[object]?.elim .absent fun bytes =>
          if room < bytes.length then .refused .shortBuffer else .bytes bytes) arrays
  | create (arrays : Arrays) (bytes : Bytes) :
      Allowed arrays (.create bytes) .opened { arrays with handles := arrays.handles ++ [bytes] }
  | createRefused (arrays : Arrays) (bytes : Bytes) (refusal : Refusal) :
      Allowed arrays (.create bytes) (.refused refusal) arrays
  | write (arrays : Arrays) (handle start : Nat) (bytes array : Bytes) (cost : Cost) :
      arrays.handles[handle]? = some array → start + bytes.length ≤ array.length →
      Allowed arrays (.write handle start bytes) (.wrote cost)
        { arrays with handles := arrays.handles.set handle (Bytes.splice array start bytes) }
  | writePast (arrays : Arrays) (handle start : Nat) (bytes array : Bytes) :
      arrays.handles[handle]? = some array → array.length < start + bytes.length →
      Allowed arrays (.write handle start bytes) (.refused .address) arrays
  | writeRefused (arrays : Arrays) (handle start : Nat) (bytes array : Bytes) (count : Nat)
      (refusal : Refusal) :
      arrays.handles[handle]? = some array → start + bytes.length ≤ array.length →
      Allowed arrays (.write handle start bytes) (.refused refusal)
        { arrays with
          handles := arrays.handles.set handle (Bytes.splice array start (bytes.take count)) }
  | writeAbsent (arrays : Arrays) (handle start : Nat) (bytes : Bytes) :
      arrays.handles[handle]? = none →
      Allowed arrays (.write handle start bytes) .absent arrays
  | read (arrays : Arrays) (handle start length : Nat) :
      Allowed arrays (.read handle start length)
        (arrays.handles[handle]?.elim .absent fun array =>
          .ofRead (arrayRead array start length)) arrays
  | snapshot (arrays : Arrays) (handle : Nat) (array : Bytes) (hash : Digest) (cost : Cost) :
      arrays.handles[handle]? = some array →
      Allowed arrays (.snapshot handle) (.published hash cost)
        { arrays with snapshots := arrays.snapshots ++ [array] }
  | snapshotRefused (arrays : Arrays) (handle : Nat) (array : Bytes) (refusal : Refusal) :
      arrays.handles[handle]? = some array →
      Allowed arrays (.snapshot handle) (.refused refusal) arrays
  | snapshotAbsent (arrays : Arrays) (handle : Nat) :
      arrays.handles[handle]? = none → Allowed arrays (.snapshot handle) .absent arrays
  | reopen (arrays : Arrays) (snapshot : Nat) (array : Bytes) :
      arrays.snapshots[snapshot]? = some array →
      Allowed arrays (.reopen snapshot) .opened { arrays with handles := arrays.handles ++ [array] }
  | reopenAbsent (arrays : Arrays) (snapshot : Nat) :
      arrays.snapshots[snapshot]? = none → Allowed arrays (.reopen snapshot) .absent arrays

end Arrays

namespace Vault

section Conditions

variable {D : Type} [Device D] (known : Bytes → Prop) (self : Vault D)

/-- The contents a call stores are known, and no longer than a machine can address. -/
def Stores : Call → Prop
  | .put _ content => content.length < 2 ^ 64 ∧ known content
  | .putObject bytes => bytes.length < 2 ^ 64 ∧
      (∀ chunk ∈ Store.chunksOf bytes, known chunk) ∧ known (Store.objectOf bytes)
  | .create bytes =>
    ∀ block ∈ Bytes.blocks extentBytes bytes (divCeil bytes.length extentBytes), known block
  | .write handle start bytes => ∀ extent ∈ self.handles[handle]?,
      start + bytes.length ≤ extent.extentBytes → bytes ≠ [] →
      ∀ index ∈ List.range ((start + bytes.length - 1) / extent.pieceBytes + 1), start /
        extent.pieceBytes ≤ index → ∀ content ∈ (extent.rewritten self.store start (start +
        bytes.length) bytes index).toOption, known content
  | .snapshot handle => ∀ extent ∈ self.handles[handle]?, known extent.content
  | .getObject _ _ | .read _ _ _ | .reopen _ => True

/-- No record of another kind has the content of the list a call stores. -/
def Unclaimed : Call → Prop
  | .putObject bytes => Store.objectOf bytes ∉ Store.chunksOf bytes ∧
      ∀ header ∈ (self.store.head (sha256 (Store.objectOf bytes))).toOption, header.kind = .object
  | .snapshot handle => ∀ extent ∈ self.handles[handle]?,
      ∀ header ∈ (self.store.head (sha256 extent.content)).toOption, header.kind = .extent
  | _ => True

instance [DecidablePred known] (call : Call) : Decidable (self.Stores known call) := by
  cases call <;> unfold Stores <;> infer_instance

instance (call : Call) : Decidable (self.Unclaimed call) := by
  cases call <;> unfold Unclaimed <;> infer_instance

end Conditions

end Vault

section Simulation

variable {D : Type} [Device D] [LawfulDevice D]

/-- A hash names an object of some bytes. -/
structure NamesObject (store : Store D) (hash : Digest) (bytes : Bytes) : Prop where
  named : hash = sha256 (Store.objectOf bytes)
  short : bytes.length < 2 ^ 64
  few : (Store.chunksOf bytes).length ≤ chunksMax
  holds : store.Holds .object (Store.objectOf bytes)
  held : ∀ chunk ∈ Store.chunksOf bytes, ∃ kind, store.Holds kind chunk

/-- A hash names a snapshot of an array. -/
def NamesSnapshot (store : Store D) (hash : Digest) (array : Bytes) : Prop :=
  ∃ extent : Extent, hash = sha256 extent.content ∧
    store.Holds .extent extent.content ∧ Represents store extent array

/-- A vault follows the arrays. -/
structure Follows (known : Bytes → Prop) (vault : Vault D) (arrays : Arrays) : Prop where
  filled : vault.store.Filled known
  handles : List.Forall₂ (Represents vault.store) vault.handles arrays.handles
  published : List.Forall₂ (NamesSnapshot vault.store) vault.published arrays.snapshots
  objects : List.Forall₂ (NamesObject vault.store) vault.objects arrays.objects

variable {known : Bytes → Prop} {vault : Vault D} {arrays : Arrays} {store : Store D}
  {hash : Digest}

omit [LawfulDevice D] in
theorem NamesObject.grows {before after : Store D} {bytes : Bytes}
    (names : NamesObject before hash bytes) (grows : before.Grows after) :
    NamesObject after hash bytes := by
  refine { names with holds := grows _ _ names.holds, held := ?_ }
  intro chunk member
  obtain ⟨kind, holds⟩ := names.held chunk member
  exact ⟨kind, grows _ _ holds⟩

omit [LawfulDevice D] in
theorem NamesSnapshot.grows {before after : Store D} {array : Bytes}
    (names : NamesSnapshot before hash array) (grows : before.Grows after) :
    NamesSnapshot after hash array := by
  obtain ⟨extent, named, holds, represents⟩ := names
  exact ⟨extent, named, grows _ _ holds, represents.grows grows⟩

/-- A store that holds more is followed as well. -/
theorem Follows.grows (follows : Follows known vault arrays) (filled : store.Filled known)
    (grows : vault.store.Grows store) : Follows known { vault with store := store } arrays where
  filled := filled
  handles := follows.handles.imp fun _ _ represents => represents.grows grows
  published := follows.published.imp fun _ _ names => names.grows grows
  objects := follows.objects.imp fun _ _ names => names.grows grows

/-- The arrays allow the answer and follow the vault after it, and the store keeps what it held. -/
def Advances (known : Bytes → Prop) (before : Vault D) (arrays : Arrays) (call : Call)
    (result : Answer × Vault D) : Prop :=
  before.store.Grows result.2.store ∧
    ∃ next, Arrays.Allowed arrays call result.1 next ∧ Follows known result.2 next

variable {self : Vault D}

/-- A put advances the vault. -/
theorem Follows.put (follows : Follows known self arrays) {kind : UInt16} {content : Bytes}
    (stores : self.Stores known (.put kind content)) :
    Advances known self arrays (.put kind content) (self.put kind content) := by
  obtain ⟨short, isKnown⟩ := stores
  have filled := follows.filled.put kind isKnown short
  have grows := Store.put_grows follows.filled.sound kind content
  unfold Vault.put
  rcases result : self.store.put kind content with ⟨_ | hash, store⟩
  all_goals
    rw [result] at filled grows
    exact ⟨grows, arrays, .put arrays kind content _, follows.grows filled grows⟩

section

variable (follows : Follows known self arrays) (collisionFree : CollisionFree known) {bytes : Bytes}

include follows collisionFree

/-- Storing an object advances it. -/
theorem Follows.putObject (stores : self.Stores known (.putObject bytes))
    (unclaimed : self.Unclaimed (.putObject bytes)) :
    Advances known self arrays (.putObject bytes) (self.putObject bytes) := by
  obtain ⟨short, areKnown, isKnown⟩ := stores
  obtain ⟨filled, grows, stored⟩ := follows.filled.putObject collisionFree short areKnown
    isKnown unclaimed.1 fun header found => unclaimed.2 header (Runs.mem_toOption found)
  unfold Vault.putObject
  rcases result : self.store.putObject bytes with ⟨refusal | hash, store⟩
  · rw [result] at filled grows
    exact ⟨grows, arrays, .putObjectRefused arrays bytes refusal, follows.grows filled grows⟩
  · rw [result] at filled grows stored
    obtain ⟨named, few, holds, held⟩ := stored hash rfl
    have kept := follows.grows filled grows
    exact ⟨grows, _, .putObject arrays bytes hash,
      { kept with objects := Runs.concat_related kept.objects ⟨named, short, few, holds, held⟩ }⟩

/-- Creating an extent advances it. -/
theorem Follows.create (stores : self.Stores known (.create bytes)) :
    Advances known self arrays (.create bytes) (self.create bytes) := by
  obtain ⟨filled, grows, created⟩ :=
    Represents.create_represents collisionFree follows.filled stores
  unfold Vault.create
  rcases result : Extent.create self.store bytes with ⟨refusal | extent, store⟩
  · rw [result] at filled grows
    exact ⟨grows, arrays, .createRefused arrays bytes refusal, follows.grows filled grows⟩
  · rw [result] at filled grows created
    have kept := follows.grows filled grows
    exact ⟨grows, _, .create arrays bytes,
      { kept with handles := Runs.concat_related kept.handles (created extent rfl) }⟩

/-- Writing to an extent advances it. -/
theorem Follows.write {handle start : Nat}
    (stores : self.Stores known (.write handle start bytes)) :
    Advances known self arrays (.write handle start bytes) (self.write handle start bytes) := by
  unfold Vault.write
  rcases Runs.entries_related follows.handles handle with ⟨absent, absentToo⟩ |
    ⟨extent, array, held, heldToo, represents⟩
  · rw [absent]
    exact ⟨.refl _, arrays, .writeAbsent arrays handle start bytes absentToo, follows⟩
  rw [held]
  dsimp only
  rcases Nat.lt_or_ge array.length (start + bytes.length) with past | fits
  · rw [represents.write_refused past]
    dsimp only
    have unchanged : self.handles.set handle extent = self.handles := by
      obtain ⟨inside, rfl⟩ := List.getElem?_eq_some_iff.mp held
      exact List.set_getElem_self inside
    rw [unchanged]
    exact ⟨.refl _, arrays, .writePast arrays handle start bytes array heldToo past, follows⟩
  · obtain ⟨filled, grows, ok, error⟩ := represents.write_wrote collisionFree follows.filled
      fits fun some index content after inside rewritten => stores extent held
        (represents.length ▸ fits) some index (List.mem_range.mpr (Nat.lt_succ_of_le inside))
        after content (Runs.mem_toOption rewritten)
    rcases result : extent.write self.store start bytes with ⟨refusal | cost, written, store⟩
    · rw [result] at filled grows error
      obtain ⟨count, partly⟩ := error refusal rfl
      have kept := follows.grows filled grows
      exact ⟨grows, _, .writeRefused arrays handle start bytes array count refusal heldToo fits,
        { kept with handles := Runs.set_related kept.handles handle partly }⟩
    · rw [result] at filled grows ok
      have kept := follows.grows filled grows
      exact ⟨grows, _, .write arrays handle start bytes array cost heldToo fits,
        { kept with handles := Runs.set_related kept.handles handle (ok cost rfl) }⟩

/-- Publishing an extent advances it. -/
theorem Follows.snapshot {handle : Nat} (stores : self.Stores known (.snapshot handle))
    (unclaimed : self.Unclaimed (.snapshot handle)) :
    Advances known self arrays (.snapshot handle) (self.snapshot handle) := by
  unfold Vault.snapshot
  rcases Runs.entries_related follows.handles handle with ⟨absent, absentToo⟩ |
    ⟨extent, array, held, heldToo, represents⟩
  · rw [absent]
    exact ⟨.refl _, arrays, .snapshotAbsent arrays handle absentToo, follows⟩
  rw [held]
  dsimp only
  obtain ⟨filled, grows, published⟩ := Represents.snapshot_holds collisionFree
    follows.filled (stores extent held) represents.content_short
  rcases result : extent.snapshot self.store with ⟨refusal | ⟨hash, cost⟩, store⟩
  · rw [result] at filled grows
    exact ⟨grows, arrays, .snapshotRefused arrays handle array refusal heldToo,
      follows.grows filled grows⟩
  rw [result] at filled grows published
  obtain ⟨named, holds⟩ := published hash cost rfl
    fun header found => unclaimed extent held header (Runs.mem_toOption found)
  have kept := follows.grows filled grows
  have names : NamesSnapshot store hash array := ⟨extent, named, holds, represents.grows grows⟩
  exact ⟨grows, _, .snapshot arrays handle array hash cost heldToo,
    { kept with published := Runs.concat_related kept.published names }⟩

end

/-- Reopening a snapshot advances it. -/
theorem Follows.reopen (follows : Follows known self arrays) (snapshot : Nat) :
    Advances known self arrays (.reopen snapshot) (self.reopen snapshot) := by
  unfold Vault.reopen
  rcases Runs.entries_related follows.published snapshot with ⟨absent, absentToo⟩ |
    ⟨hash, array, given, givenToo, extent, named, holds, represents⟩
  · rw [absent]
    exact ⟨.refl _, arrays, .reopenAbsent arrays snapshot absentToo, follows⟩
  obtain ⟨opened, opens, same⟩ := represents.openAt_represents follows.filled.sound holds
  rw [given, named]
  dsimp only
  rw [opens]
  exact ⟨.refl _, _, .reopen arrays snapshot array givenToo,
    { follows with handles := Runs.concat_related follows.handles same }⟩

/-- Every call is answered as the arrays allow. -/
theorem Follows.call
    (collisionFree : CollisionFree known)
    (self : Vault D)
    (call : Call)
    (arrays : Arrays)
    (condition : self.Stores known call ∧ self.Unclaimed call)
    (follows : Follows known self arrays) : Advances known self arrays call (self.call call) := by
  obtain ⟨stores, unclaimed⟩ := condition
  cases call with
  | put kind content => exact follows.put stores
  | putObject bytes => exact follows.putObject collisionFree stores unclaimed
  | getObject object room =>
    refine ⟨.refl _, arrays, ?_, follows⟩
    have allowed := Arrays.Allowed.getObject arrays object room
    rcases Runs.entries_related follows.objects object with ⟨absent, absentToo⟩ |
      ⟨hash, bytes, given, givenToo, names⟩
    · rw [absentToo] at allowed
      rw [Vault.call, absent]
      exact allowed
    rw [givenToo, Option.elim_some] at allowed
    rw [Vault.call, given, Option.elim_some, names.named,
      Store.getObject_eq follows.filled.sound names.short names.few names.holds names.held]
    by_cases small : room < bytes.length <;>
      simpa only [Answer.ofRead, small, if_true, if_false] using allowed
  | create bytes => exact follows.create collisionFree stores
  | write handle start bytes => exact follows.write collisionFree stores
  | read handle start length =>
    refine ⟨.refl _, arrays, ?_, follows⟩
    have allowed := Arrays.Allowed.read arrays handle start length
    rcases Runs.entries_related follows.handles handle with ⟨absent, absentToo⟩ |
      ⟨extent, array, held, heldToo, represents⟩
    · rw [absentToo] at allowed
      rw [Vault.call, absent]
      exact allowed
    · rw [heldToo, Option.elim_some, ← represents.read_eq follows.filled.sound] at allowed
      rw [Vault.call, held, Option.elim_some]
      exact allowed
  | snapshot handle => exact follows.snapshot collisionFree stores unclaimed
  | reopen snapshot => exact follows.reopen snapshot

/-- A store that was just formatted holds nothing. -/
theorem Store.Filled.formatted
    {device : D}
    {layout : Superblock}
    {store : Store D}
    (valid : LawfulDevice.Valid device)
    (formatted : Store.format device layout = .ok store) :
    store.Filled known := by
  obtain ⟨roomy, sized, block, rfl⟩ := Store.format_ok formatted
  have validAfter := LawfulDevice.valid_flush (LawfulDevice.valid_write 0 block valid)
  refine ⟨⟨validAfter, ?_, Nat.le_trans (by decide) roomy⟩, ?_⟩
  · refine sized.trans (Eq.symm ?_)
    exact (LawfulDevice.blockBytes_flush ..).trans (LawfulDevice.blockBytes_write ..)
  intro hash start found
  cases found

end Simulation

section Samples

/-- A store of a few small blocks. -/
def smallStore : Store Memory :=
  (Store.format (Memory.new 512 16 (by decide))
    (superblockForThisBuild 512 1 8192 0 0)).toOption.get (by decide +kernel)

theorem filled_small (known : Bytes → Prop) : smallStore.Filled known :=
  .formatted trivial (Runs.eq_ok_get _)

/-- An extent is written, published, written again, and opened as it was. -/
def written : List Call :=
  [.create [1, 2, 3], .write 0 1 [7, 8], .snapshot 0, .write 0 0 [9], .read 0 0 3,
    .reopen 0, .read 1 0 3, .write 0 2 [5, 5]]

end Samples

end FSystem.Blob
