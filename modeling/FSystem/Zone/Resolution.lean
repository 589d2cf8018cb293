import FSystem.Zone.Boot

/-!
# What a mount walks and what the mark walks

Both walk from a root through the hashes that blobs name.  A mount reads every
blob it meets and descends into objects, generations and extents; the mark
descends into objects alone.  From a root whose whole tree can be read, the two visit
the same hashes exactly when the blobs the mark does not descend into name nothing it
would not reach anyway.
-/

namespace FSystem.Zone

open Abi Hash Blob

variable {g : Geometry} {store : Store (ZoneMap g)}

section Resolution

variable {named : List Digest} {content : Bytes}

theorem visit_eq_some_iff (hash : Digest) (named : List Digest) :
    visit store hash = some named ↔
      ∃ header content, store.head hash = .ok header ∧
        store.get hash header.contentBytes.toNat = .ok content ∧
        childrenIn header.kind content = some named := by
  unfold visit
  cases store.head hash with
  | error refusal => simp
  | ok header =>
    cases result : store.get hash header.contentBytes.toNat with
    | error refusal | ok content => simp [result]

theorem childrenIn_length {kind : Abi.Kind}
    (names : childrenIn kind content = some named) : named.length ≤ content.length / 32 := by
  cases kind with
  | chunk =>
    rw [← Option.some.inj names]
    exact Nat.zero_le _
  | extent | object | generation =>
    simp only [childrenIn, extentChildren, objectChildren] at names
    split at names
    · cases names
    split at names
    · cases names
    rename_i head parsed
    simp only [ne_eq, ite_not, Option.ite_none_right_eq_some] at names
    obtain ⟨whole, names⟩ := names
    rw [← Option.some.inj names, hashesAfter, List.length_map, List.length_range, ← whole,
      Nat.le_div_iff_mul_le (by decide)]
    exact Nat.le_add_left ..

/-- A mount's walk has fuel for every hash the located records name. -/
theorem resolution_ends (sound : Store.Sound store) (root : Digest) :
    resolution store root ≠ .unfinished := by
  refine Worklist.walk_ends (visit store) store.located.keys ?_ _ _ _ ?_
  · intro hash named visits _
    obtain ⟨header, -, head, -, -⟩ := (visit_eq_some_iff hash named).mp visits
    obtain ⟨start, -, located, -, -⟩ := Store.head_ok head
    rw [Std.TreeMap.mem_keys, Std.TreeMap.mem_iff_isSome_getElem?, located]
    rfl
  · rw [List.length_singleton, walkFuel, Worklist.edgesLeft]
    refine Nat.add_le_add_left ?_ 1
    rw [List.filter_eq_self.mpr (by simp)]
    refine List.sum_le_sum ?_
    intro hash _
    cases visits : visit store hash with
    | none => exact Nat.zero_le _
    | some named =>
      obtain ⟨header, content, head, got, names⟩ := (visit_eq_some_iff hash named).mp visits
      obtain ⟨_, _, whole⟩ := Store.get_ok sound got
      cases head.symm.trans whole.head
      simp only [head, Option.getD_some]
      exact (childrenIn_length names).trans (Nat.div_le_div_right whole.length.le)

theorem resolution_sound (root : Digest) : (resolution store root).Sound (visit store) root :=
  Worklist.walk_sound _ (.start root)

/-- Everything a root reaches can be read. -/
def Whole (store : Store (ZoneMap g)) (root : Digest) : Prop :=
  ∀ hash, Worklist.Reaches (visit store) root hash → ∃ named, visit store hash = some named

/-- The walk of a mount finishes exactly on the trees that can be read. -/
theorem resolves_iff_whole (sound : Store.Sound store) (root : Digest) :
    resolves store root = true ↔ Whole store root := by
  have walk := @resolution_sound g store root
  have ends := resolution_ends sound root
  unfold resolves
  cases outcome : resolution store root with
  | finished visited =>
    rw [outcome] at walk
    exact iff_of_true rfl fun hash reached => walk.2 hash ((walk.1 hash).mpr reached)
  | refused visited =>
    rw [outcome] at walk
    obtain ⟨-, hash, reached, missing⟩ := walk
    refine iff_of_false Bool.false_ne_true fun whole => ?_
    obtain ⟨named, visits⟩ := whole hash reached
    rw [missing] at visits
    cases visits
  | unfinished => exact absurd outcome ends

end Resolution

variable {hash : Digest}

namespace Mark

/-- What the mark reaches, it reaches through objects. -/
theorem reaches_iff (root hash : Digest) :
    Worklist.Reaches (visit store) root hash ↔ Reaches store root hash := by
  have same : Worklist.Names (visit store) = Names store := by
    ext parent child
    exact names_iff parent child
  unfold Worklist.Reaches Reaches
  rw [same]

/-- What asking for some hashes leaves pending. -/
theorem foldl_walk_only (hashes : List Digest) (self : Mark)
    (member : hash ∈ (hashes.foldl walk self).pending) : hash ∈ hashes ∨ hash ∈ self.pending := by
  induction hashes generalizing self with
  | nil => exact .inr member
  | cons first rest ih =>
    rcases ih (self.walk first) member with later | pending
    · exact .inl (List.mem_cons_of_mem _ later)
    unfold walk at pending
    split at pending
    next => exact .inr pending
    next =>
      rcases List.mem_cons.mp pending with same | before
      · exact .inl (same ▸ List.mem_cons_self)
      · exact .inr before

/-- Walking one hash, unrefused, is one step of a walk with a work list. -/
theorem step_walking
    {self : Mark}
    {root : Digest}
    {answer : Bool}
    (walking : Worklist.Walking (visit store) root self.seen self.pending)
    (ok : (self.step store).1 = .ok answer) :
    Worklist.Walking (visit store) root (self.step store).2.seen (self.step store).2.pending := by
  have walked := @step_walked g store self
  rw [ok] at walked
  generalize (self.step store).2 = after at walked ⊢
  cases walked with
  | nothing => exact walking
  | again hash rest next seen =>
    rw [next] at walking
    exact walking.skip seen
  | unresolved hash rest next fresh absent =>
    have visits : visit store hash = some [] := by simp [visit, Store.address, absent]
    rw [next] at walking
    exact walking.advance visits (fun _ member => member) (fun _ member => by cases member)
      (fun _ member => .inr member)
  | recorded hash rest start header hashes walked meets visits asked =>
    have asks : Asks _ walked := asked ▸ foldl_walk_asks hashes _
    rw [meets.next] at walking
    simp only [asks.seen, meet_grows.seen]
    refine walking.advance visits ?_ ?_ ?_
    · intro other member
      apply asks.pending
      rw [meet_grows.pending]
      exact member
    · intro other member
      rw [asked]
      exact (foldl_walk_covers hashes _ member).imp_left fun seen => by
        rwa [meet_grows.seen] at seen
    · intro other member
      rw [asked] at member
      exact (foldl_walk_only hashes _ member).imp_right fun pending => by
        rwa [meet_grows.pending] at pending

/-- Walk until nothing is left; `none` when a step is refused or the fuel runs out. -/
def complete (store : Store (ZoneMap g)) : Nat → Mark → Option Mark
  | 0, self => if self.walking then none else some self
  | fuel + 1, self =>
    if self.walking then
      match self.step store with
      | (.error _, _) => none
      | (.ok _, after) => complete store fuel after
    else some self

/-- A walk that completes keeps what every unrefused step keeps, and leaves nothing pending. -/
theorem complete_keeps
    (kept : Mark → Prop)
    (step : ∀ self answer, kept self → (self.step store).1 = .ok answer → kept (self.step store).2)
    {fuel : Nat}
    {self final : Mark}
    (start : kept self)
    (completes : complete store fuel self = some final) :
    kept final ∧ final.pending = [] := by
  fun_induction complete store fuel self with
  | case1 | case3 => cases completes
  | case2 self nothing | case5 _ self nothing =>
    obtain rfl := Option.some.inj completes
    exact ⟨start, by simpa [walking] using nothing⟩
  | case4 fuel self _ answer after stepped ih =>
    have further := step self answer start
    rw [stepped] at further
    exact ih (further rfl) completes

section Complete

variable {self final : Mark} {root : Digest} {fuel : Nat}

/-- A walk that completes has seen exactly what is reached through objects. -/
theorem complete_seen (completes : complete store fuel (self.restart.walk root) = some final)
    (hash : Digest) : hash ∈ final.seen ↔ Reaches store root hash := by
  have start : Worklist.Walking (visit store) root (self.restart.walk root).seen
      (self.restart.walk root).pending := by
    exact .start root
  obtain ⟨walking, nothing⟩ := complete_keeps
    (fun mark => Worklist.Walking (visit store) root mark.seen mark.pending)
    (fun _ _ walking ok => step_walking walking ok) start completes
  rw [nothing] at walking
  rw [walking.finished.1 hash, reaches_iff]

end Complete

end Mark

section Agreement

variable {root : Digest}

/-- A blob the mark reaches and does not descend into names only hashes reached through objects. -/
def Covered (store : Store (ZoneMap g)) (root : Digest) : Prop :=
  ∀ parent header named, Reaches store root parent → store.head parent = .ok header → header.kind ≠
    .object → visit store parent = some named → ∀ child ∈ named, Reaches store root child

/-- A mount descends wherever the mark does. -/
theorem Names.visited {parent child : Digest} (names : Names store parent child) :
    Worklist.Names (visit store) parent child := by
  obtain ⟨header, content, hashes, head, isObject, got, children, member⟩ := names
  refine ⟨hashes, (visit_eq_some_iff parent hashes).mpr ⟨header, content, head, got, ?_⟩, member⟩
  rw [isObject]
  exact children

theorem Reaches.visited (reached : Reaches store root hash) :
    Worklist.Reaches (visit store) root hash :=
  Relation.ReflTransGen.mono (fun _ _ names => Names.visited names) _ _ reached

/-- Under a covered root the mark reaches whatever a mount does. -/
theorem Covered.reaches (covered : Covered store root)
    (reached : Worklist.Reaches (visit store) root hash) : Reaches store root hash := by
  induction reached with
  | refl => exact .refl
  | tail _ edge ih =>
    obtain ⟨named, visits, member⟩ := edge
    obtain ⟨header, content, head, got, children⟩ := (visit_eq_some_iff _ named).mp visits
    by_cases isObject : header.kind = .object
    · rw [isObject] at children
      exact ih.tail ⟨header, content, named, head, isObject, got, children, member⟩
    · exact covered _ header named ih head isObject visits _ member

/-- The small device with an object of one chunk on it. -/
def treeStore : Store (ZoneMap System.small) := (System.smallStore.putObject [1]).2

/-- Its hash. -/
def treeRoot : Digest := (System.smallStore.putObject [1]).1.toOption.get (by decide +kernel)

end Agreement

end FSystem.Zone
