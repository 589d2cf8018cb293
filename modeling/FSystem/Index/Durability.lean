import FSystem.Index.Crash

/-!
# What every mount finds

The blocks a live index has sealed are the durable ones and the held back ones, in the
order they were filled.  Every call keeps that; a gentle cut keeps a beginning of them or
leaves a region that is refused from then on.
-/

namespace FSystem.Index

open Abi Blob Hash List

variable {first blocks : Nat} {index next : Index Disk} {durable fresh : List (List Entry)}
  {tail : List Entry} {answer : Except Refusal Unit}

/-- A mounted index over a region whose blocks are known. -/
structure Live (first blocks : Nat) (index : Index Disk)
    (durable fresh : List (List Entry)) (tail : List Entry) : Prop where
  layout : Layout first blocks index.device durable fresh
  packed : Packed first blocks index (durable ++ fresh) tail

variable {entry : Entry}

namespace Live

/-- A seal holds the block being filled back, or does nothing. -/
theorem sealed (live : Live first blocks index durable fresh tail)
    (sealed_ : index.seal_ = (answer, next)) :
    next.entries = index.entries ∧ ∃ fresh' tail',
      fresh'.flatten ++ tail' = fresh.flatten ++ tail ∧
      Live first blocks next durable fresh' tail' ∧ (answer = .ok () → tail' = []) := by
  rcases seal_cases sealed_ with ⟨rfl, empty⟩ | ⟨refusal, device, rfl, refused, rfl⟩ |
    ⟨device, rfl, filled, room, written, rfl⟩
  · refine ⟨rfl, fresh, tail, rfl, live, fun accepted => ?_⟩
    by_contra some_
    exact encode_ne_nil some_ (live.packed.pending.symm.trans (empty accepted))
  · rcases Disk.write_cases refused with ⟨-, rfl⟩ | ⟨_, _, accepted, _⟩
    · exact ⟨rfl, fresh, tail, rfl, live, fun accepted => nomatch accepted⟩
    · cases accepted
  have some_ : tail ≠ [] := by
    rintro rfl
    exact filled live.packed.pending
  have sealable : Sealable index.device.blockBytes tail :=
    ⟨some_, live.packed.valid, live.packed.fits⟩
  have packed := live.packed.written some_ room written
  rw [append_assoc] at packed
  refine ⟨rfl, fresh ++ [tail], [], by simp, ⟨?_, packed⟩, fun _ => rfl⟩
  have count : durable.length + fresh.length < blocks := by
    rw [← length_append, ← live.packed.used, ← live.packed.spans]
    exact room
  rcases Disk.write_cases written with ⟨⟨_, refused⟩, _⟩ | ⟨-, _, _, rfl⟩
  · cases refused
  have layout := live.layout.hold sealable count
  have block : index.sealedBlock = sealOver index.device.blockBytes tail := by
    rw [sealedBlock, live.packed.pending]
    rfl
  have position : index.first + index.used = first + (durable.length + fresh.length) := by
    rw [live.packed.starts, live.packed.used, length_append]
  simp only [block, position]
  exact layout

end Live

namespace Machine

/-- A machine whose disk holds what was issued, as far as it was not lost. -/
structure Kept (first blocks : Nat) (machine : Machine)
    (durable fresh : List (List Entry)) (tail : List Entry) : Prop where
  layout : Layout first blocks machine.disk durable fresh
  issued : machine.issued = (durable ++ fresh).flatten ++ tail
  promised : machine.promised ≤ durable.flatten.length
  live : ∀ index, machine.phase = .live index →
    Live first blocks index durable fresh tail ∧ index.entries = mapOf machine.issued

/-- A machine whose region is refused by every mount. -/
structure Broken (first blocks : Nat) (machine : Machine) : Prop where
  down : machine.phase = .down machine.disk
  settled : machine.disk.queue = []
  refused : ∃ refusal, Index.mount machine.disk first blocks = .error refusal

/-- What holds of every machine that gentle cuts reach. -/
def Sound (first blocks : Nat) (machine : Machine) : Prop :=
  (∃ durable fresh tail, Kept first blocks machine durable fresh tail) ∨ Broken first blocks machine

variable {machine : Machine}

section

variable (kept : Kept first blocks machine durable fresh tail)

include kept

/-- A change is issued when it is accepted. -/
theorem Kept.record
    (at_ : machine.phase = .live index)
    {call : Call}
    (op : Op.known entry.op = true)
    (calls : call.entry = some entry)
    (answers : index.answer call = index.record entry) :
    Sound first blocks (machine.call index call) := by
  obtain ⟨live, map⟩ := kept.live index at_
  rw [Machine.call, answers, calls, Index.record]
  rcases appended : index.append entry with ⟨answer, next⟩
  obtain ⟨same, fresh', tail', after, outcome⟩ := append_keeps (Live first blocks · durable)
    live.sealed (fun kept valid room => ⟨kept.layout, kept.packed.push valid room⟩) live op appended
  refine .inl ⟨durable, fresh', tail', ?_⟩
  rcases outcome with ⟨rfl, order⟩ | ⟨⟨refusal, rfl⟩, order⟩
  · refine ⟨after.layout, ?_, kept.promised, ?_⟩
    · dsimp only
      rw [kept.issued, flatten_append, flatten_append, append_assoc,
        append_assoc, append_assoc, order, append_assoc]
    rintro _ ⟨⟩
    refine ⟨⟨after.layout, { after.packed with }⟩, ?_⟩
    dsimp only
    rw [mapOf_append, ← map, same]
    rfl
  · refine ⟨after.layout, ?_, kept.promised, ?_⟩
    · dsimp only
      rw [kept.issued, flatten_append, flatten_append, append_assoc, append_assoc, order]
    · rintro _ ⟨⟩
      exact ⟨after, same.trans map⟩

/-- A barrier that is not refused makes everything durable and promises it. -/
theorem Kept.barrier (at_ : machine.phase = .live index) :
    Sound first blocks (machine.call index .barrier) := by
  obtain ⟨live, map⟩ := kept.live index at_
  rw [Machine.call, Index.answer, Index.barrier]
  rcases sealed_ : index.seal_ with ⟨answer, next⟩
  obtain ⟨same, fresh', tail', order, after, emptied⟩ := live.sealed sealed_
  have issued : machine.issued = (durable ++ fresh').flatten ++ tail' := by
    rw [kept.issued, flatten_append, flatten_append, append_assoc, append_assoc, order]
  cases answer with
  | error refusal =>
    refine .inl ⟨durable, fresh', tail', after.layout, issued, kept.promised, ?_⟩
    rintro _ ⟨⟩
    exact ⟨after, same.trans map⟩
  | ok done =>
    cases emptied rfl
    have packed := @Packed.reads _ _ _ next.device.flush _ _ _ _ _ after.packed trivial rfl rfl
      (fun _ => rfl)
    refine .inl ⟨durable ++ fresh', [], [], after.layout.flush, ?_, ?_, ?_⟩
    · exact issued.trans (by simp)
    · exact (congrArg length (issued.trans (append_nil _))).le
    · rintro _ ⟨⟩
      refine ⟨⟨after.layout.flush, ?_⟩, same.trans map⟩
      rw [append_nil]
      exact packed

/-- A mount finds what the disk holds, and what was issued is then that. -/
theorem Kept.mount : Sound first blocks (machine.step first blocks .mount) := by
  rw [Machine.step, kept.layout.mount, kept.layout.found]
  refine .inl ⟨durable, fresh, [], kept.layout, by simp, kept.promised, ?_⟩
  rintro _ ⟨⟩
  exact ⟨⟨kept.layout, kept.layout.packed _⟩, rfl⟩

/-- A gentle cut leaves a beginning of what was issued, or a region that is refused. -/
theorem Kept.cut {lengths : List Nat} (gentle : machine.disk.Gentle lengths) :
    Sound first blocks (machine.step first blocks (.cut lengths)) := by
  rcases kept.layout.cut gentle with ⟨left, layout, keeps, beginning⟩ | refused
  · obtain ⟨lost, order⟩ := beginning
    refine .inl ⟨left, [], lost ++ tail, layout, ?_, ?_, fun _ live => nomatch live⟩
    · change machine.issued = _
      rw [kept.issued, ← order, append_nil, append_assoc]
    · exact kept.promised.trans keeps.length_le
  · exact .inr ⟨rfl, rfl, refused⟩

end

/-- What is broken stays broken. -/
theorem Broken.step (broken : Broken first blocks machine) (event : Event) :
    Broken first blocks (machine.step first blocks event) := by
  obtain ⟨refusal, refused⟩ := broken.refused
  cases event with
  | call call =>
    rw [Machine.step, broken.down]
    exact broken
  | cut lengths =>
    rw [Machine.step, Disk.cut_of_settled broken.settled]
    exact ⟨rfl, broken.settled, refusal, refused⟩
  | mount =>
    rw [Machine.step, refused]
    exact ⟨rfl, broken.settled, refusal, refused⟩

/-- The step lemma. -/
theorem Sound.step (sound : Sound first blocks machine) {event : Event}
    (gentle : ∀ lengths, event = .cut lengths → machine.disk.Gentle lengths) :
    Sound first blocks (machine.step first blocks event) := by
  rcases sound with ⟨durable, fresh, tail, kept⟩ | broken
  · cases event with
    | call call =>
      rw [Machine.step]
      cases at_ : machine.phase with
      | down disk => exact .inl ⟨durable, fresh, tail, kept⟩
      | live index =>
        cases call with
        | set namespace_ name hash | remove namespace_ name => exact kept.record at_ rfl rfl rfl
        | barrier => exact kept.barrier at_
    | cut lengths => exact kept.cut (gentle lengths rfl)
    | mount => exact kept.mount
  · exact .inr (broken.step event)

/-- The run lemma. -/
theorem Sound.run (sound : Sound first blocks machine) {events : List Event}
    (careful : Careful first blocks machine events) :
    Sound first blocks (machine.run first blocks events) := by
  induction events generalizing machine with
  | nil => exact sound
  | cons event rest ih => exact ih (sound.step careful.1) careful.2

/-- A disk nothing was written to is sound, or no mount accepts the region. -/
theorem sound_start {disk : Disk} (settled : disk.queue = [])
    (zeroed : ∀ position < blocks, disk.media (first + position) = Bytes.zeros disk.blockBytes) :
    Sound first blocks (start disk) := by
  cases mounted : Index.mount disk first blocks with
  | error refusal => exact .inr ⟨rfl, settled, refusal, mounted⟩
  | ok index =>
    have layout : Layout first blocks disk [] [] :=
      ⟨mountable_of_mount mounted, Nat.zero_le _, fun _ member => absurd member (by simp),
        fun _ _ held => absurd held (by simp), fun position _ below => zeroed position below,
        settled⟩
    exact .inl ⟨[], [], [], layout, rfl, Nat.zero_le _, fun _ live => nomatch live⟩

/-- An element of the first part of a concatenation stands in that part. -/
theorem split_within {kept tail before after : List Entry}
    (same : kept ++ tail = before ++ entry :: after) (early : before.length < kept.length) :
    ∃ rest, kept = before ++ entry :: rest ∧ rest <+: after := by
  rcases List.append_eq_append_iff.1 same with ⟨more, rfl, -⟩ | ⟨rest, rfl, split⟩
  · rw [length_append] at early
    omega
  cases rest with
  | nil =>
    rw [append_nil] at early
    omega
  | cons other rest =>
    obtain ⟨rfl, rfl⟩ := split
    exact ⟨rest, rfl, prefix_append _ _⟩

/-- In every run on a zeroed region whose cuts are gentle, a mount is refused or finds a
beginning of the changes that were accepted and not lost, with every promised one; and a
promised change is what its name means, unless a later one of them is about the same name. -/
theorem mount_finds_promised_beginning
    {disk : Disk}
    (settled : disk.queue = [])
    (zeroed : ∀ position < blocks, disk.media (first + position) = Bytes.zeros disk.blockBytes)
    {events : List Event}
    (careful : Careful first blocks (start disk) events)
    {index : Index Disk}
    (mounted : Index.mount ((start disk).run first blocks events).disk first blocks = .ok index) :
    let final := (start disk).run first blocks events
    let kept := found final.disk first blocks
    kept <+: final.issued ∧ final.promised ≤ kept.length ∧ index.entries = mapOf kept ∧
      ∀ before entry after, final.issued = before ++ entry :: after →
        before.length < final.promised →
        (∀ other ∈ after, ¬other.Concerns entry.namespace_ entry.name) →
        index.get entry.namespace_ entry.name = entry.meaning := by
  intro final kept
  rcases (sound_start settled zeroed).run careful with ⟨durable, fresh, tail, sound⟩ | broken
  · have found : kept = (durable ++ fresh).flatten := sound.layout.found
    have issued : final.issued = kept ++ tail := by rw [found]; exact sound.issued
    have promised : final.promised ≤ kept.length := by
      have bound : final.promised ≤ durable.flatten.length := sound.promised
      rw [found, flatten_append, length_append]
      omega
    have map : index.entries = mapOf kept := by
      rw [sound.layout.mount] at mounted
      cases mounted
      rw [found]
    refine ⟨⟨tail, issued.symm⟩, promised, map, ?_⟩
    intro before entry after split early last
    obtain ⟨rest, here, beginning⟩ := split_within (issued.symm.trans split) (by omega)
    unfold get
    rw [map, here]
    exact lookup_mapOf fun other member => last other (beginning.subset member)
  · obtain ⟨refusal, refused⟩ := broken.refused
    rw [refused] at mounted
    cases mounted

/-- The longest name there is, so that a block holds one entry. -/
def longName : Bytes := replicate nameMax 1

/-- A change is promised, and a cut loses two more, one of them not flushed; after the mount the
name changes again. -/
def lossRun : List Event :=
  [.mount, .call (.set Ns.path longName (Digest.ofBytes [1])), .call .barrier,
    .call (.set Ns.path longName (Digest.ofBytes [2])),
    .call (.set Ns.path longName (Digest.ofBytes [3])), .cut [], .mount,
    .call (.set Ns.path longName (Digest.ofBytes [4])), .call .barrier]

theorem mount_finds_promised_beginning_lost :
    ∃ index, Index.mount ((start (Disk.new 512 3)).run 0 3 lossRun).disk 0 3 = .ok index ∧
      index.get Ns.path longName = some (Digest.ofBytes [4]) := by
  have careful : Careful 0 3 (start (Disk.new 512 3)) lossRun := by
    refine ⟨nofun, nofun, nofun, nofun, nofun, ?_, nofun, nofun, nofun, trivial⟩
    intro lengths cut
    cases cut
    exact Disk.gentle_nil _
  have accepted : (Index.mount ((start (Disk.new 512 3)).run 0 3 lossRun).disk 0 3).isOk := by
    decide +kernel
  have kept : ((start (Disk.new 512 3)).run 0 3 lossRun).issued =
      [⟨Ns.path, Op.set, Digest.ofBytes [1], longName⟩,
        ⟨Ns.path, Op.set, Digest.ofBytes [4], longName⟩] ∧
      ((start (Disk.new 512 3)).run 0 3 lossRun).promised = 2 := by decide +kernel
  cases mounted : Index.mount ((start (Disk.new 512 3)).run 0 3 lossRun).disk 0 3 with
  | error refusal =>
    rw [mounted] at accepted
    cases accepted
  | ok index =>
    have found := (mount_finds_promised_beginning rfl (fun _ _ => rfl) careful mounted).2.2.2
      [_] _ [] kept.1 (by rw [kept.2]; decide) (by simp)
    exact ⟨index, rfl, found⟩

/-- Three changes of a name fill two blocks, and a cut lands only the second; after the mount
the name changes again, and a barrier promises it. -/
def holeRun : List Event :=
  [.mount, .call (.set Ns.path longName (Digest.ofBytes [1])),
    .call (.set Ns.path longName (Digest.ofBytes [2])),
    .call (.set Ns.path longName (Digest.ofBytes [3])), .cut [0, 512], .mount,
    .call (.set Ns.path longName (Digest.ofBytes [4])), .call .barrier]

/-- The only change that is left and promised is overridden by one the cut had lost. -/
theorem lost_change_overrides_promised :
    ((start (Disk.new 512 3)).run 0 3 holeRun).issued =
        [⟨Ns.path, Op.set, Digest.ofBytes [4], longName⟩] ∧
      ((start (Disk.new 512 3)).run 0 3 holeRun).promised = 1 ∧
      ∃ index, Index.mount ((start (Disk.new 512 3)).run 0 3 holeRun).disk 0 3 = .ok index ∧
        index.get Ns.path longName = some (Digest.ofBytes [2]) := by
  have stale : (Index.mount ((start (Disk.new 512 3)).run 0 3 holeRun).disk 0 3).toOption.bind
      (·.get Ns.path longName) = some (Digest.ofBytes [2]) := by decide +kernel
  refine ⟨by decide +kernel, by decide +kernel, ?_⟩
  cases mounted : Index.mount ((start (Disk.new 512 3)).run 0 3 holeRun).disk 0 3 with
  | error refusal =>
    rw [mounted] at stale
    cases stale
  | ok index =>
    rw [mounted] at stale
    exact ⟨index, rfl, stale⟩

end Machine

end FSystem.Index
