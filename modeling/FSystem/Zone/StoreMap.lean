import FSystem.Blob.Laws
import FSystem.Zone.Relocation
import FSystem.Zone.Mount

/-!
# The store over a zone map

A zone map is a device the store's laws hold for.  What the store over one keeps
in every state, and how two states of it are related when only the map changed:
nothing is read differently, or some blocks are not read any more.
-/

namespace FSystem.Zone

open Abi Hash Blob

variable {g : Geometry}

instance : LawfulDevice (ZoneMap g) where
  Valid := ZoneMap.WellFormed
  length_read {device block bytes} _ ok := by
    have ok : device.read block g.blockBytes = .ok bytes := ok
    unfold ZoneMap.read at ok
    split at ok
    next => cases ok
    next => exact ZonedMemory.length_of_read_ok ok
  valid_write block source valid := valid.write block source
  blockBytes_write _ _ _ := rfl
  blocks_write {device} block source valid := by
    have dataFrom := ZoneMap.write_dataFrom valid block source
    exact congrArg (fun first => 1 + (g.zoneCount - first) * g.zoneBlocks) dataFrom
  read_write_same valid ok := ZoneMap.read_write_same valid ok
  read_write_other source _ valid apart := ZoneMap.read_write_other valid source apart
  read_write_refused valid refused other := (ZoneMap.write_refused valid refused).read other
  valid_flush valid := (ZoneMap.flush_bookkept valid).2
  blockBytes_flush _ := rfl
  blocks_flush _ := rfl
  read_flush _ _ _ := rfl

/-- Outstanding copies say what their blocks say, and a known record lies below the free pointer. -/
structure Grounded (store : Store (ZoneMap g)) : Prop where
  sound : Store.Sound store
  agree : store.device.CopiesAgree
  free_pos : 0 < store.free
  below : ∀ (hash : Digest) (start : Nat), store.located[hash]? = some start → start < store.free
  within : ∀ (hash : Digest) (start : Nat) (header : Header),
    store.located[hash]? = some start → store.head hash = .ok header →
      start + span store.blockBytes header.contentBytes.toNat ≤ store.free ∨
        Device.blocks store.device ≤ store.free

variable {store : Store (ZoneMap g)}

theorem Grounded.wellFormed (grounded : Grounded store) : store.device.WellFormed :=
  grounded.sound.valid

theorem Grounded.blockBytes_eq (grounded : Grounded store) : store.blockBytes = g.blockBytes :=
  grounded.sound.sized

/-- Nothing is mapped anew, and what is still mapped is read as before. -/
def ZoneMap.Thins (before after : ZoneMap g) : Prop :=
  ∀ logical place : Nat, after.physical[logical]? = some place →
    (∃ old : Nat, before.physical[logical]? = some old) ∧
      after.read logical g.blockBytes = before.read logical g.blockBytes

/-- Only mapped blocks can be read. -/
theorem ZoneMap.exists_place {map : ZoneMap g} {logical length : Nat} {bytes : Bytes}
    (read : map.read logical length = .ok bytes) :
    ∃ place : Nat, map.physical[logical]? = some place := by
  unfold ZoneMap.read at read
  cases mapped : map.physical[logical]? with
  | none =>
    rw [mapped] at read
    cases read
  | some place => exact ⟨place, rfl⟩

/-- Nothing was stored, and every block still read says what it said. -/
structure Fades (before after : Store (ZoneMap g)) : Prop where
  superblock : after.superblock = before.superblock
  located : after.located = before.located
  free : after.free = before.free
  dataFrom : after.device.dataFrom = before.device.dataFrom
  thins : before.device.Thins after.device

namespace Fades

variable {before between after : Store (ZoneMap g)} {hash : Digest}

theorem refl (store : Store (ZoneMap g)) : Fades store store :=
  ⟨rfl, rfl, rfl, rfl, fun _ place mapped => ⟨⟨place, mapped⟩, rfl⟩⟩

theorem trans (first : Fades before between) (second : Fades between after) :
    Fades before after where
  superblock := second.superblock.trans first.superblock
  located := second.located.trans first.located
  free := second.free.trans first.free
  dataFrom := second.dataFrom.trans first.dataFrom
  thins := by
    intro logical place mapped
    obtain ⟨⟨old, mappedBetween⟩, read⟩ := second.thins logical place mapped
    obtain ⟨was, readBetween⟩ := first.thins logical old mappedBetween
    exact ⟨was, read.trans readBetween⟩

section

variable (fades : Fades before after)

include fades

theorem read (block : Nat) (bytes : Bytes)
    (ok : after.device.read block g.blockBytes = .ok bytes) :
    before.device.read block g.blockBytes = .ok bytes := by
  obtain ⟨place, mapped⟩ := ZoneMap.exists_place ok
  exact (fades.thins block place mapped).2.symm.trans ok

theorem blockBytes : after.blockBytes = before.blockBytes :=
  Store.blockBytes_congr fades.superblock

theorem blocks : Device.blocks after.device = Device.blocks before.device :=
  congrArg (fun first => 1 + (g.zoneCount - first) * g.zoneBlocks) fades.dataFrom

theorem head (sound : Store.Sound before) {header : Header} (ok : after.head hash = .ok header) :
    before.head hash = .ok header := by
  refine Store.head_congr fades.superblock.symm (by rw [fades.located]) ?_ ok
  intro start bytes _ read
  rw [fades.blockBytes, sound.sized] at read ⊢
  exact fades.read start bytes read

theorem get
    (sound : Store.Sound before)
    (soundAfter : Store.Sound after)
    {room : Nat}
    {content : Bytes}
    (ok : after.get hash room = .ok content) :
    before.get hash room = .ok content := by
  refine Store.get_congr soundAfter fades.superblock.symm (by rw [fades.located]) ?_ ok
  intro start header _ _ index _ bytes read
  rw [fades.blockBytes, sound.sized] at read ⊢
  exact fades.read (start + index) bytes read

/-- A store that lost nothing but blocks is still grounded, when its map is. -/
theorem grounded (grounded : Grounded before) (wellFormed : after.device.WellFormed)
    (agree : after.device.CopiesAgree) : Grounded after where
  sound := by
    refine ⟨wellFormed, ?_, ?_⟩
    · rw [fades.blockBytes]
      exact grounded.sound.sized
    · rw [fades.blockBytes]
      exact grounded.sound.roomy
  agree := agree
  free_pos := fades.free ▸ grounded.free_pos
  below := by
    rw [fades.located, fades.free]
    exact grounded.below
  within := by
    intro hash start header located ok
    rw [fades.located] at located
    rw [fades.blockBytes, fades.free, fades.blocks]
    exact grounded.within hash start header located (fades.head grounded.sound ok)

end

end Fades

variable (store : Store (ZoneMap g))

/-- An object names a child. -/
def Names (parent child : Digest) : Prop :=
  ∃ header content hashes, store.head parent = .ok header ∧ header.kind = .object ∧ store.get parent
    header.contentBytes.toNat = .ok content ∧ objectChildren content = some hashes ∧ child ∈ hashes

/-- A hash is reached from a root through objects that can be read. -/
def Reaches : Digest → Digest → Prop :=
  Relation.ReflTransGen (Names store)

/-- A hash is in the closure of the pinned roots. -/
def Live (roots : Roots) (hash : Digest) : Prop :=
  ∃ root ∈ roots.pinned, Reaches store root hash

theorem Names.of_fades
    {before after : Store (ZoneMap g)}
    {parent child : Digest}
    (fades : Fades before after)
    (sound : Store.Sound before)
    (soundAfter : Store.Sound after)
    (names : Names after parent child) : Names before parent child := by
  obtain ⟨header, content, hashes, head, kind, get, children, member⟩ := names
  exact ⟨header, content, hashes, fades.head sound head, kind,
    fades.get sound soundAfter get, children, member⟩

end FSystem.Zone
