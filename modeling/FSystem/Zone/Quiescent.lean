import FSystem.Zone.Sweep

/-!
# A collection keeps what is live

A step of the collector changes nothing that is read, or resets a zone in which
nothing reachable is left.  Either way nothing is lost that the pinned roots
reach or that an open write set holds; and so, step by step, for a whole
collection.
-/

namespace FSystem.Zone

open Abi Hash Blob

variable {g : Geometry} {roots : Roots} {before between after : Store (ZoneMap g)}

/-- Two states of a store between which nothing that is read changed. -/
structure Unchanged (before after : Store (ZoneMap g)) : Prop extends Fades before after where
  read : ∀ logical, after.device.read logical g.blockBytes = before.device.read logical g.blockBytes

namespace Unchanged

theorem refl (store : Store (ZoneMap g)) : Unchanged store store :=
  ⟨.refl _, fun _ => rfl⟩

theorem trans (first : Unchanged before between) (second : Unchanged between after) :
    Unchanged before after :=
  ⟨first.toFades.trans second.toFades,
    fun logical => (second.read logical).trans (first.read logical)⟩

theorem get
    (unchanged : Unchanged before after)
    (sound : Store.Sound before)
    {hash : Digest}
    {room : Nat}
    {content : Bytes}
    (ok : before.get hash room = .ok content) :
    after.get hash room = .ok content := by
  refine Store.get_congr sound unchanged.superblock (by rw [unchanged.located]) ?_ ok
  intro start header _ _ index _ bytes read
  rw [sound.sized] at read ⊢
  exact (unchanged.read (start + index)).trans read

/-- A store whose map did some bookkeeping. -/
theorem of_bookkept {map : ZoneMap g} (bookkept : ZoneMap.Bookkept before.device map) :
    Unchanged before { before with device := map } where
  superblock := rfl
  located := rfl
  free := rfl
  dataFrom := bookkept.dataFrom
  thins logical place mapped := ⟨⟨place, bookkept.physical ▸ mapped⟩, bookkept.read logical⟩
  read := bookkept.read

/-- A store whose map moved the blocks that were copied. -/
theorem of_committed {map : ZoneMap g} (commits : ZoneMap.Committed before.device map)
    (grounded : Grounded before) : Unchanged before { before with device := map } where
  superblock := rfl
  located := rfl
  free := rfl
  dataFrom := commits.dataFrom
  thins logical place mapped := by
    refine ⟨?_, commits.read grounded.agree logical⟩
    cases copied : before.device.copies[logical]? with
    | none =>
      rw [commits.kept logical copied] at mapped
      exact ⟨place, mapped⟩
    | some copy => exact (grounded.wellFormed.copied logical copy copied).1
  read := commits.read grounded.agree

end Unchanged

/-- A zone in which nothing reachable is left was reset. -/
structure Swept (mark : Mark) (roots : Roots) (before after : Store (ZoneMap g))
    (zone : Nat) : Prop where
  invariants : Invariants.nothingReachableIsSwept before.device mark roots zone = true
  recycled : ZoneMap.Recycled before.device zone after.device
  superblock : after.superblock = before.superblock
  located : after.located = before.located
  free : after.free = before.free

variable {mark : Mark} {zone : Nat}

/-- Resetting a zone loses the blocks it held and changes no other. -/
theorem Swept.fades (swept : Swept mark roots before after zone) : Fades before after :=
    { swept with
  dataFrom := swept.recycled.dataFrom
  thins := by
    intro logical place mapped
    obtain ⟨was, outside⟩ := swept.recycled.mapped mapped
    refine ⟨⟨place, was⟩, swept.recycled.read fun other isOther => ?_⟩
    cases was.symm.trans isOther
    exact outside }

/-- The zone the next step of a sweep would reset. -/
def Collector.resets (collector : Collector) : Option Nat :=
  match collector.sweeping with
  | some ⟨zone, [], true⟩ => some zone
  | _ => none

/-- What a step of the collector does to the store. -/
theorem Collector.stepped_store
    {self next : Collector}
    {store result : Store (ZoneMap g)}
    {answer : Except Refusal Progress}
    (grounded : Grounded store)
    (stepped : Stepped self store roots (answer, next, result)) :
    Grounded result ∧
      (Unchanged store result ∨
        ∃ zone, self.phase = .sweeping ∧ self.resets = some zone ∧
          Swept self.mark roots store result zone) := by
  have bookkept : ∀ map, ZoneMap.Bookkept store.device map → map.WellFormed →
      Grounded { store with device := map } ∧ Unchanged store { store with device := map } := by
    intro map kept wellFormed
    have unchanged := Unchanged.of_bookkept kept
    exact ⟨unchanged.toFades.grounded grounded wellFormed (kept.copiesAgree grounded.agree),
      unchanged⟩
  cases stepped with
  | walked | finished | selected | reselects | spared | waits | held =>
    exact ⟨grounded, .inl (.refl _)⟩
  | published map phase walked tallied =>
    exact (bookkept map tallied.bookkept tallied.wellFormed).imp_right .inl
  | condemned zone rest map phase idle chosen ok =>
    obtain ⟨kept, wellFormed⟩ := ZoneMap.condemn_bookkept grounded.wellFormed ok
    exact (bookkept map kept wellFormed).imp_right .inl
  | copied sweep logical rest queue copiedBytes phase sweeping following =>
    have read := ZoneMap.read_copyForward grounded.wellFormed logical
    obtain ⟨physical, dataFrom⟩ := ZoneMap.copyForward_keeps grounded.wellFormed logical
    have unchanged : Unchanged store
        { store with device := (store.device.copyForward logical).2 } :=
      ⟨⟨rfl, rfl, rfl, dataFrom, fun other place mapped =>
        ⟨⟨place, physical ▸ mapped⟩, read other⟩⟩, read⟩
    exact ⟨unchanged.toFades.grounded grounded (grounded.wellFormed.copyForward logical)
      (grounded.agree.copyForward grounded.wellFormed logical), .inl unchanged⟩
  | committed sweep queue moved tallied drained before commits tally =>
    have unchanged := (Unchanged.of_committed commits grounded).trans
      (.of_bookkept tally.bookkept)
    exact ⟨unchanged.toFades.grounded grounded tally.wellFormed
      (tally.bookkept.copiesAgree commits.copiesAgree), .inl unchanged⟩
  | reset sweep queue map drained before invariants recycled =>
    have swept : Swept self.mark roots store { store with device := map } sweep.zone :=
      ⟨invariants, recycled, rfl, rfl, rfl⟩
    have resets : self.resets = some sweep.zone := by
      rcases sweep with ⟨zone, remaining, done⟩
      cases drained.copiedAll
      cases before
      simp [Collector.resets, drained.sweeping]
    exact ⟨swept.fades.grounded grounded (recycled.wellFormed grounded.wellFormed)
      recycled.copiesAgree, .inr ⟨sweep.zone, drained.phase, resets, swept⟩⟩

/-- Between two states of a store nothing was lost that the roots protect. -/
structure Kept (roots : Roots) (before after : Store (ZoneMap g)) : Prop where
  fades : Fades before after
  grounded : Grounded after
  live : ∀ hash, Live before roots hash → ∀ (room : Nat) (content : Bytes),
    before.get hash room = .ok content → after.get hash room = .ok content
  transient : ∀ logical ∈ roots.transientBlocks,
    after.device.read logical g.blockBytes = before.device.read logical g.blockBytes

namespace Kept

/-- An object that is live names what it named. -/
theorem names
    (kept : Kept roots before after)
    (sound : Store.Sound before)
    {parent child : Digest}
    (live : Live before roots parent)
    (names : Names before parent child) :
    Names after parent child := by
  obtain ⟨header, content, hashes, head, isObject, get, children, member⟩ := names
  have getAfter := kept.live parent live _ _ get
  obtain ⟨_, headerAfter, got⟩ := Store.get_ok kept.grounded.sound getAfter
  have same := kept.fades.head sound got.head
  rw [head] at same
  cases same
  exact ⟨header, content, hashes, got.head, isObject, getAfter, children, member⟩

/-- What a pinned root reached it reaches. -/
theorem reaches
    (kept : Kept roots before after)
    (sound : Store.Sound before)
    {root hash : Digest}
    (pinned : root ∈ roots.pinned)
    (reaches : Reaches before root hash) :
    Reaches after root hash := by
  induction reaches with
  | refl => exact .refl
  | tail reached names ih => exact ih.tail (kept.names sound ⟨root, pinned, reached⟩ names)

theorem refl (grounded : Grounded before) : Kept roots before before where
  fades := .refl before
  grounded := grounded
  live := fun _ _ _ _ get => get
  transient := fun _ _ => rfl

theorem trans (first : Kept roots before between) (second : Kept roots between after)
    (sound : Store.Sound before) : Kept roots before after where
  fades := first.fades.trans second.fades
  grounded := second.grounded
  live := by
    rintro hash ⟨root, pinned, reached⟩ room content get
    exact second.live hash ⟨root, pinned, first.reaches sound pinned reached⟩ room content
      (first.live hash ⟨root, pinned, reached⟩ room content get)
  transient := fun logical member =>
    (second.transient logical member).trans (first.transient logical member)

end Kept

theorem Unchanged.kept (unchanged : Unchanged before after) (sound : Store.Sound before)
    (grounded : Grounded after) : Kept roots before after where
  fades := unchanged.toFades
  grounded := grounded
  live := fun _ _ _ _ get => unchanged.get sound get
  transient := fun logical _ => unchanged.read logical

/-- A zone in which nothing reachable is left is reset without loss. -/
theorem Swept.kept
    (swept : Swept mark roots before after zone)
    (covers : Mark.Covers before mark)
    (walked : mark.pending = [])
    (sound : Store.Sound before)
    (grounded : Grounded after) :
    Kept roots before after := by
  have invariants := swept.invariants
  simp only [Invariants.nothingReachableIsSwept, Bool.and_eq_true, List.all_eq_true,
    Std.TreeSet.mem_toList, Bool.not_eq_true'] at invariants
  obtain ⟨⟨rooted, held⟩, unmarked⟩ := invariants
  -- a marked block is not in the zone, since no block of the zone is marked
  have outside : ∀ place, mark.bits.get place = true → place / g.zoneBlocks ≠ zone := by
    rintro place isMarked rfl
    have unset := mark.bits.get_eq_false_of_any unmarked (Nat.div_mul_le_self place _)
      (Nat.lt_div_mul_add before.device.zoneBlocks_pos)
    rw [isMarked] at unset
    cases unset
  refine ⟨swept.fades, grounded, ?_, ?_⟩
  · rintro hash ⟨root, pinned, reaches⟩ room content get
    have seen : hash ∈ mark.seen := by
      clear get
      induction reaches with
      | refl => exact covers.rooted _ (Std.TreeSet.mem_iff_contains.mpr (rooted root pinned))
      | tail reached names ih =>
        rcases covers.named _ ih _ names with done | waiting
        · exact done
        · rw [walked] at waiting
          cases waiting
    refine Store.get_congr sound swept.superblock (by rw [swept.located]) ?_ get
    intro start header located head index inside bytes ok
    rw [sound.sized] at ok ⊢
    refine (swept.recycled.read ?_).trans ok
    intro place mapped
    apply outside
    obtain ⟨_, header', got⟩ := Store.get_ok sound get
    have same := got.head
    rw [head] at same
    cases same
    rw [← got.length] at inside
    exact (covers.entries start _ (covers.listed hash seen start room content located get)).marked
      (start + index) place (Nat.le_add_right _ _) (Nat.add_lt_add_left inside _) mapped
  · intro logical member
    apply swept.recycled.read
    intro place mapped
    apply outside
    have isHeld := held logical member
    rw [mapped] at isHeld
    exact isHeld

namespace Collector

variable {self : Collector} {store : Store (ZoneMap g)}

/-- A step of a collector, whatever its state, loses nothing but blocks. -/
theorem step_store (self : Collector) (grounded : Grounded store) (roots : Roots) :
    Grounded (self.step store roots).2.2 ∧ Fades store (self.step store roots).2.2 := by
  by_cases idle : self.phase = .idle
  · rw [step_idle self idle]
    exact ⟨grounded, .refl store⟩
  · obtain ⟨stays, unchanged | ⟨zone, -, -, swept⟩⟩ :=
      stepped_store grounded (step_stepped self grounded.wellFormed idle)
    · exact ⟨stays, unchanged.toFades⟩
    · exact ⟨stays, swept.fades⟩

/-- The bitmap of a collector has a bit for every block of the device. -/
def Sized (g : Geometry) (collector : Collector) : Prop :=
  collector.mark.bits.bits = g.zoneCount * g.zoneBlocks

theorem Sized.catchUp (sized : Sized g self) (store : Store (ZoneMap g)) (roots : Roots) :
    Sized g (self.catchUp store roots) := by
  have asks := fun missing => congrArg Bitmap.bits (Mark.foldl_walk_asks missing self.mark).bits
  exact ((Mark.occupyTransient_grows ..).sized.trans (asks _)).trans sized

theorem Sized.begin (sized : Sized g self) (roots : Roots) : Sized g (self.begin roots).1 :=
  (congrArg Bitmap.bits
    (Mark.foldl_walk_asks roots.pinned.toList self.mark.restart).bits).trans sized

/-- A step keeps the bitmap's size. -/
theorem Sized.step (sized : Sized g self) (wellFormed : store.device.WellFormed) (roots : Roots) :
    Sized g (self.step store roots).2.1 := by
  by_cases idle : self.phase = .idle
  · rw [step_idle self idle]
    exact sized
  have caughtUp := sized.catchUp store roots
  have stepped := @step_stepped g store roots self wellFormed idle
  generalize self.step store roots = result at stepped ⊢
  cases stepped with
  | walked => exact (Mark.step_sized _).trans caughtUp
  | published => exact (Mark.occupyTransient_grows _ _).sized.trans caughtUp
  | committed =>
    obtain ⟨_, grows⟩ := Mark.rebuild_grows (self.catchUp store roots).mark roots
    exact grows.sized.trans caughtUp
  | finished | selected | reselects | spared | condemned | copied | waits | held | reset =>
    exact caughtUp

/-- A running collector's mark covers the store, and marking ends only with nothing left to walk. -/
structure Attends (collector : Collector) (store : Store (ZoneMap g)) : Prop where
  covers : collector.phase ≠ .idle → Mark.Covers store collector.mark
  walked : collector.phase = .selecting ∨ collector.phase = .sweeping → collector.mark.pending = []

/-- A collector whose mark covers the store with nothing left to walk attends to it. -/
theorem Attends.of_walked (covers : Mark.Covers store self.mark) (walked : self.mark.pending = []) :
    Attends self store :=
  ⟨fun _ => covers, fun _ => walked⟩

theorem Attends.catchUp (attends : Attends self store) (running : self.phase ≠ .idle)
    (roots : Roots) : Attends (self.catchUp store roots) store := by
  unfold Collector.catchUp
  generalize roots.pinned.toList.filter (fun root => !self.mark.roots.contains root) = missing
  have asks := Mark.foldl_walk_asks missing self.mark
  have grows := @Mark.occupyTransient_grows g store (missing.foldl Mark.walk self.mark)
    roots.transientBlocks
  constructor
  · intro _
    exact ((attends.covers running).of_asks asks).of_grows grows
  · intro past
    rw [grows.pending]
    cases missing with
    | nil => exact attends.walked past
    | cons root rest => simp at past

section

variable {answer : Except Refusal Progress} {next : Collector} {result : Store (ZoneMap g)}
  (grounded : Grounded store) (attends : Attends self store) (running : self.phase ≠ .idle)
  (stepped : Stepped self store roots (answer, next, result))

include grounded attends running stepped

/-- A collector that attends to a store goes on attending to it. -/
theorem stepped_attends : Attends next result := by
  have covers := attends.covers running
  obtain ⟨groundedAfter, effect⟩ := stepped_store grounded stepped
  have fades : Fades store result := by
    rcases effect with unchanged | ⟨zone, -, -, swept⟩
    · exact unchanged.toFades
    · exact swept.fades
  have lost := covers.of_lost fades grounded.sound groundedAfter.sound
  cases stepped with
  | walked queue phase walking =>
    refine ⟨fun _ => covers.step grounded, ?_⟩
    rintro (past | past) <;> cases phase.symm.trans past
  | published map phase walked tallied =>
    have grows := @Mark.occupyTransient_grows g store self.mark roots.transientBlocks
    refine .of_walked ?_ (grows.pending.trans walked)
    exact (covers.of_grows grows).of_lost fades grounded.sound groundedAfter.sound
      fun _ _ mapped => tallied.bookkept.physical ▸ mapped
  | finished phase | selected phase => exact .of_walked covers (attends.walked (.inl phase))
  | reselects phase | spared _ _ _ phase => exact .of_walked covers (attends.walked (.inr phase))
  | held _ _ _ drained => exact .of_walked covers (attends.walked (.inr drained.phase))
  | condemned zone rest map phase idle chosen ok =>
    obtain ⟨bookkept, -⟩ := ZoneMap.condemn_bookkept grounded.wellFormed ok
    exact .of_walked (lost fun _ _ mapped => bookkept.physical ▸ mapped)
      (attends.walked (.inr phase))
  | copied sweep logical rest queue copiedBytes phase sweeping following =>
    have physical := (ZoneMap.copyForward_keeps grounded.wellFormed logical).1
    exact .of_walked (lost fun _ _ mapped => physical ▸ mapped) (attends.walked (.inr phase))
  | committed sweep queue moved tallied drained before commits tally =>
    have moves := Unchanged.of_committed commits grounded
    have groundedMoved := moves.toFades.grounded grounded
      (commits.wellFormed grounded.wellFormed) commits.copiesAgree
    obtain ⟨relists, -⟩ := @Mark.rebuild_spec g { store with device := moved } self.mark
      roots (Mark.sized_of_bits groundedMoved.wellFormed covers.sized) fun start extent present =>
        (covers.entries start extent present).keyed
    refine .of_walked ?_ (relists.pending.trans (attends.walked (.inr drained.phase)))
    exact (covers.rebuild moves.toFades grounded.sound groundedMoved.sound roots).of_lost
      (Unchanged.of_bookkept tally.bookkept).toFades groundedMoved.sound groundedAfter.sound
      fun _ _ mapped => tally.bookkept.physical ▸ mapped
  | waits sweep drained before => exact attends
  | reset sweep queue map drained before invariants recycled =>
    exact .of_walked (lost fun _ _ mapped => (recycled.mapped mapped).1)
      (attends.walked (.inr drained.phase))

/-- A step of a collector that attends to a store keeps the store. -/
theorem stepped_kept : Kept roots store result := by
  obtain ⟨groundedAfter, unchanged | ⟨zone, phase, -, swept⟩⟩ := stepped_store grounded stepped
  · exact unchanged.kept grounded.sound groundedAfter
  · exact swept.kept (attends.covers running) (attends.walked (.inr phase)) grounded.sound
      groundedAfter

end

/-- A step, refused or not, keeps a store the collector attends to. -/
theorem step_kept (grounded : Grounded store) (attends : Attends self store) (roots : Roots) :
    Attends (self.step store roots).2.1 (self.step store roots).2.2 ∧
      Kept roots store (self.step store roots).2.2 := by
  by_cases idle : self.phase = .idle
  · rw [step_idle self idle]
    exact ⟨attends, .refl grounded⟩
  · have caughtUp := attends.catchUp idle roots
    have running := @catchUp_running g store roots self idle
    have stepped := @step_stepped g store roots self grounded.wellFormed idle
    exact ⟨stepped_attends grounded caughtUp running stepped,
      stepped_kept grounded caughtUp running stepped⟩

/-- A collection begins with nothing marked, and so attends to any store. -/
theorem begin_attends (sized : Sized g self) (roots : Roots) (store : Store (ZoneMap g)) :
    Attends (self.begin roots).1 store := by
  refine ⟨fun _ => (Mark.restart_covers sized store).of_asks (Mark.foldl_walk_asks _ _), ?_⟩
  rintro (past | past)
  · cases past
  · cases past

/-- Settling the queue at the end changes only the queue. -/
theorem settled_eq (self : Collector) (steps : Nat) :
    ∃ queue, self.settled steps = (.ok steps, { self with queue := queue }) := by
  obtain ⟨queue, ok, -⟩ := self.queue.settle_ok
  exact ⟨queue, by simp [settled, ok]⟩

variable (fuel steps : Nat)

/-- Only a collection that found nothing to sweep is done. -/
theorem step_done (wellFormed : store.device.WellFormed)
    (done : (self.step store roots).1 = .ok .done) : (self.step store roots).2.1.phase = .idle := by
  by_cases idle : self.phase = .idle
  · rw [step_idle self idle]
    exact idle
  have stepped := @step_stepped g store roots self wellFormed idle
  generalize self.step store roots = result at stepped done ⊢
  cases stepped with
  | walked =>
    revert done
    cases ((self.catchUp store roots).mark.step store).1 <;> nofun
  | finished => rfl
  | copied sweep logical =>
    revert done
    cases (store.device.copyForward logical).1 <;> nofun
  | _ => cases done

/-- What one turn of the loop does: it ends, or goes on. -/
theorem collectLoop_succ (wellFormed : store.device.WellFormed) (roots : Roots) :
    (∃ answer queue, collectLoop roots (fuel + 1) steps self store =
      (some answer, { (self.step store roots).2.1 with queue := queue },
        (self.step store roots).2.2)) ∨
      (∃ progress, (self.step store roots).1 = .ok progress) ∧
        collectLoop roots (fuel + 1) steps self store =
          collectLoop roots fuel (steps + 1) (self.step store roots).2.1
            (self.step store roots).2.2 := by
  have idle := @step_done g roots self store wellFormed
  rcases stepped : self.step store roots with ⟨answer, next, result⟩
  rw [stepped] at idle
  simp only [collectLoop, stepped]
  cases answer with
  | error refusal => exact .inl ⟨_, _, rfl⟩
  | ok progress =>
    obtain ⟨queue, ended⟩ := settled_eq next steps
    cases progress with
    | done =>
      have same : { next with phase := .idle } = next := by rw [← idle rfl]
      exact .inl ⟨.ok steps, queue, by simp [same, ended]⟩
    | waiting => exact .inl ⟨.ok steps, queue, by simp [ended]⟩
    | marked | published | selected | copied | committed | reset => exact .inr ⟨⟨_, rfl⟩, rfl⟩

/-- What every step keeps, whatever is queued, the loop of a collection keeps. -/
theorem collectLoop_induct
    (Keeps : Collector → Store (ZoneMap g) → Prop)
    (step : ∀ {self store}, Grounded store → Keeps self store →
      Keeps (self.step store roots).2.1 (self.step store roots).2.2)
    (requeue : ∀ {self store queue}, Keeps self store → Keeps { self with queue } store)
    (grounded : Grounded store)
    (keeps : Keeps self store) :
    Keeps (collectLoop roots fuel steps self store).2.1
      (collectLoop roots fuel steps self store).2.2 := by
  induction fuel generalizing steps self store with
  | zero => exact keeps
  | succ fuel ih =>
    have next := step grounded keeps
    rcases collectLoop_succ fuel steps grounded.wellFormed roots with
      ⟨answer, queue, result⟩ | ⟨-, result⟩
    · rw [result]
      exact requeue next
    · rw [result]
      exact ih (steps + 1) (self.step_store grounded roots).1 next

theorem collectLoop_sized (roots : Roots) (grounded : Grounded store) (sized : Sized g self) :
    Sized g (collectLoop roots fuel steps self store).2.1 :=
  collectLoop_induct fuel steps (fun self _ => Sized g self)
    (fun grounded sized => sized.step grounded.wellFormed roots) id grounded sized

/-- The loop of a collection keeps a store the collector attends to. -/
theorem collectLoop_kept (roots : Roots) (grounded : Grounded store)
    (attends : Attends self store) :
    Attends (collectLoop roots fuel steps self store).2.1
        (collectLoop roots fuel steps self store).2.2 ∧
      Kept roots store (collectLoop roots fuel steps self store).2.2 := by
  refine collectLoop_induct fuel steps (fun self after => Attends self after ∧ Kept roots store
    after) ?_ (fun kept => ⟨{ kept.1 with }, kept.2⟩) grounded ⟨attends, .refl grounded⟩
  intro _ _ groundedNext kept
  obtain ⟨attendsNext, next⟩ := step_kept groundedNext kept.1 roots
  exact ⟨attendsNext, kept.2.trans next grounded.sound⟩

/-- A whole collection keeps any store. -/
theorem collect_kept (fuel : Nat) (roots : Roots) (grounded : Grounded store)
    (sized : Sized g self) :
    Attends (collect fuel self store roots).2.1 (collect fuel self store roots).2.2.1 ∧
      Kept roots store (collect fuel self store roots).2.2.1 := by
  obtain ⟨attends, kept⟩ := collectLoop_kept fuel 0 (self.begin roots).2 grounded
    (begin_attends sized roots store)
  exact ⟨attends, { kept with }⟩

end Collector

end FSystem.Zone
