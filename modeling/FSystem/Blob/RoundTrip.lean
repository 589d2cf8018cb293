import FSystem.Blob.Vault

/-!
# Objects and snapshots are read back

A hash that was given out for an object or a snapshot names it for the rest of every run, as
long as no record of another kind had the same content.  An object of one chunk and an
extent of one piece with the same bytes have the same content, and the one stored first
decides the kind of both.
-/

namespace FSystem.Blob

open Abi Hash Vault

section RoundTrip

variable {D : Type} [Device D] [LawfulDevice D] {known : Bytes → Prop}

/-- The vault follows some arrays, and the store holds what it held. -/
structure Keeps (known : Bytes → Prop) (before after : Vault D) : Prop where
  follows : ∃ arrays, Follows known after arrays
  grows : before.store.Grows after.store

/-- A run of calls that store known contents, none of them under a claimed hash, keeps what
the store holds. -/
theorem Keeps.run
    (collisionFree : CollisionFree known)
    {before after : Vault D}
    {calls : List Call}
    (keeps : Keeps known before after)
    (along : Runs.Along step
      (fun vault call => vault.Stores known call ∧ vault.Unclaimed call) after calls) :
    Keeps known before (Runs.run step after calls) := by
  apply Runs.invariant_of_along (Keeps known before) _ keeps along
  intro vault call condition kept
  obtain ⟨arrays, follows⟩ := kept.follows
  obtain ⟨grows, next, -, followsNext⟩ :=
    Follows.call collisionFree vault call arrays condition follows
  exact ⟨⟨next, followsNext⟩, kept.grows.trans grows⟩

variable {self : Vault D} {arrays : Arrays} {hash : Digest}

/-- The hash of an object that is stored names the object. -/
theorem Follows.putObject_names
    (follows : Follows known self arrays)
    (collisionFree : CollisionFree known)
    {bytes : Bytes}
    (stores : self.Stores known (.putObject bytes))
    (unclaimed : self.Unclaimed (.putObject bytes))
    (answered : self.answer (.putObject bytes) = .stored hash) :
    NamesObject (self.step (.putObject bytes)).store hash bytes := by
  obtain ⟨short, areKnown, isKnown⟩ := stores
  obtain ⟨-, -, stored⟩ := follows.filled.putObject collisionFree short areKnown isKnown
    unclaimed.1 fun header found => unclaimed.2 header (Runs.mem_toOption found)
  rw [answer, Vault.call, Vault.putObject] at answered
  rw [step, Vault.call, Vault.putObject]
  rcases result : self.store.putObject bytes with ⟨refusal | given, store⟩
  · rw [result] at answered
    cases answered
  · rw [result] at answered stored
    cases answered
    obtain ⟨named, few, holds, held⟩ := stored _ rfl
    exact ⟨named, short, few, holds, held⟩

/-- The hash of an extent that is published names the array it represents. -/
theorem Follows.snapshot_names
    (follows : Follows known self arrays)
    (collisionFree : CollisionFree known)
    {handle : Nat}
    {extent : Extent}
    {array : Bytes}
    {cost : Cost}
    (stores : self.Stores known (.snapshot handle))
    (unclaimed : self.Unclaimed (.snapshot handle))
    (held : self.handles[handle]? = some extent)
    (represents : Represents self.store extent array)
    (answered : self.answer (.snapshot handle) = .published hash cost) :
    NamesSnapshot (self.step (.snapshot handle)).store hash array := by
  obtain ⟨-, grows, published⟩ := Represents.snapshot_holds collisionFree follows.filled
    (stores extent held) represents.content_short
  rw [answer, Vault.call, Vault.snapshot, held] at answered
  rw [step, Vault.call, Vault.snapshot, held]
  dsimp only at answered ⊢
  rcases result : extent.snapshot self.store with ⟨refusal | ⟨given, price⟩, store⟩
  · rw [result] at answered
    cases answered
  · rw [result] at answered grows published
    cases answered
    obtain ⟨named, holds⟩ := published _ _ rfl
      fun header found => unclaimed extent held header (Runs.mem_toOption found)
    exact ⟨extent, named, holds, represents.grows grows⟩

/-- Objects and snapshots are read back whatever is stored before or after them, in every run
from a store, formatted or mounted, of whole records, whose steps store known contents and
meet no record of another kind: an object gives its bytes, and a snapshot opens and reads as
the extent read when it was published. -/
theorem objects_and_snapshots_read_back
    (known : Bytes → Prop)
    (collisionFree : CollisionFree known)
    {store : Store D}
    (filled : store.Filled known)
    (before after : List Call)
    (call : Call)
    (along : Runs.Along step
      (fun vault call => vault.Stores known call ∧ vault.Unclaimed call)
      (.around store) (before ++ call :: after)) :
    let earlier := Runs.run step (.around store) before
    let later := Runs.run step (.around store) (before ++ call :: after)
    (∀ bytes hash, call = .putObject bytes → earlier.answer call = .stored hash →
      ∀ room, bytes.length ≤ room → later.store.getObject hash room = .ok bytes) ∧
    (∀ handle extent hash cost, call = .snapshot handle →
      earlier.handles[handle]? = some extent →
      earlier.answer call = .published hash cost →
      ∃ opened, Extent.openAt later.store hash = .ok opened ∧
        opened.extentBytes = extent.extentBytes ∧
        ∀ start length,
          opened.read later.store start length = extent.read earlier.store start length) := by
  intro earlier later
  rw [Runs.along_append] at along
  obtain ⟨alongBefore, ⟨stores, unclaimed⟩, alongAfter⟩ := along
  have initial : Keeps known (.around store) (.around store) :=
    ⟨⟨.empty, filled, .nil, .nil, .nil⟩, .refl _⟩
  obtain ⟨⟨arrays, follows⟩, -⟩ := initial.run collisionFree alongBefore
  obtain ⟨-, next, -, followsNext⟩ :=
    Follows.call collisionFree earlier call arrays ⟨stores, unclaimed⟩ follows
  have stays : Keeps known (earlier.step call) (earlier.step call) := ⟨⟨next, followsNext⟩, .refl _⟩
  have isLater : later = Runs.run step (earlier.step call) after := List.foldl_append
  obtain ⟨⟨last, followsLast⟩, grows⟩ := stays.run collisionFree alongAfter
  rw [← isLater] at followsLast grows
  constructor
  · intro bytes hash isPut answered room fits
    subst isPut
    have names := (follows.putObject_names collisionFree stores unclaimed answered).grows grows
    rw [names.named, Store.getObject_eq followsLast.filled.sound names.short names.few
      names.holds names.held, if_neg (Nat.not_lt.mpr fits)]
  · intro handle extent hash cost isSnapshot held answered
    subst isSnapshot
    rcases Runs.entries_related follows.handles handle with ⟨absent, -⟩ |
      ⟨found, array, isFound, -, represents⟩
    · rw [held] at absent
      cases absent
    rw [held] at isFound
    cases isFound
    obtain ⟨published, named, holds, kept⟩ := (follows.snapshot_names collisionFree stores
      unclaimed held represents answered).grows grows
    obtain ⟨opened, opens, same⟩ := kept.openAt_represents followsLast.filled.sound holds
    refine ⟨opened, named ▸ opens, same.length.symm.trans represents.length, ?_⟩
    intro start length
    rw [same.read_eq followsLast.filled.sound, represents.read_eq follows.filled.sound]

end RoundTrip

section Samples

/-- An object and an extent with different bytes. -/
def mixed : List Call := [.putObject [1], .create [2], .snapshot 0, .write 0 0 [3]]

/-- What the run stores. -/
def mixedContents : List Bytes :=
  [[1], [2], [3], Store.objectOf [1], Abi.longBytes 1 ++ (Abi.wordBytes 1 ++ (sha256 [2]).bytes)]

theorem objects_and_snapshots_read_back_mixed :
    ∃ hash cost opened,
      (Runs.run step (.around smallStore) [.putObject [1], .create [2]]).answer
        (.snapshot 0) = .published hash cost ∧
      Extent.openAt (Runs.run step (.around smallStore) mixed).store hash = .ok opened := by
  have along : Runs.Along step (fun vault call =>
      vault.Stores (· ∈ mixedContents) call ∧ vault.Unclaimed call)
      (.around smallStore) mixed := by
    decide +kernel
  have apart : ∀ first ∈ mixedContents, ∀ second ∈ mixedContents,
      sha256 first = sha256 second → first = second := by
    decide +kernel
  have given : (Runs.run step (.around smallStore) [.putObject [1], .create [2]]).answer
      (.snapshot 0) = .published (sha256 (Abi.longBytes 1 ++ (Abi.wordBytes 1 ++
        (sha256 [2]).bytes))) ⟨0, 44, 44⟩ := by
    decide +kernel
  have isHeld : (Runs.run step (.around smallStore)
      [.putObject [1], .create [2]]).handles[0]?.isSome = true := by
    decide +kernel
  obtain ⟨extent, held⟩ := Option.isSome_iff_exists.mp isHeld
  have readBack := objects_and_snapshots_read_back (· ∈ mixedContents)
    (fun first second isFirst isSecond same => apart first isFirst second isSecond same)
    (filled_small _) [.putObject [1], .create [2]] [.write 0 0 [3]] (.snapshot 0) along
  obtain ⟨opened, opens, -⟩ := readBack.2 0 extent _ _ rfl held given
  exact ⟨_, _, opened, given, opens⟩

/-- The object of one byte is stored, and an extent of the same byte is created. -/
def claimed : Vault Memory :=
  Runs.run step (.around smallStore) [.putObject [1], .create [1]]

/-- A snapshot of an extent with the bytes of a stored object is given the object's hash, and
does not open as an extent. -/
theorem snapshot_given_object_hash :
    ∃ hash cost,
      (around smallStore).answer (.putObject [1]) = .stored hash ∧
      ((around smallStore).step (.putObject [1])).answer (.create [1]) = .opened ∧
      claimed.answer (.snapshot 0) = .published hash cost ∧
      Extent.openAt (claimed.step (.snapshot 0)).store hash = .error .unknown := by
  refine ⟨sha256 (Store.objectOf [1]), ⟨0, 44, 44⟩, by decide +kernel, by decide +kernel,
    by decide +kernel, ?_⟩
  exact Runs.eq_error_of_map (fun _ => ()) (by decide +kernel)

end Samples

end FSystem.Blob
