import Mathlib.Data.List.Basic

/-!
# Grapheme clusters

The rules between two scalars look back over the whole text before them.  The state that is
carried from scalar to scalar says as much of that text as the rules ask, so the positions the
iterator hands out are those at which the rules break.
-/

namespace FSystem.Text.Grapheme

/-- The property Grapheme_Cluster_Break. -/
inductive GraphemeClusterBreak where
  | prepend | CR | LF | control | extend | regionalIndicator | spacingMark | L | V | T | LV | LVT
  | ZWJ | other
  deriving DecidableEq

/-- The property Indic_Conjunct_Break. -/
inductive IndicConjunctBreak where
  | linker | consonant | extend | none
  deriving DecidableEq

/-- The property tables.  The joiner is no pictograph. -/
structure Properties where
  graphemeClusterBreak : Char → GraphemeClusterBreak
  extendedPictographic : Char → Bool
  indicConjunctBreak : Char → IndicConjunctBreak
  joiner : ∀ c, graphemeClusterBreak c = .ZWJ → extendedPictographic c = false

/-- The rule that decided one position. -/
inductive Rule where
  | GB1 | GB3 | GB4 | GB5 | GB6 | GB7 | GB8 | GB9 | GB9a | GB9b | GB9c | GB11 | GB12 | GB13 | GB999

/-- Whether a rule breaks. -/
def Rule.breaks : Rule → Bool
  | .GB1 | .GB4 | .GB5 | .GB999 => true
  | _ => false

/-- How far an emoji sequence came. -/
inductive Emoji where
  | none | pictograph | joined
  deriving DecidableEq

/-- How far a conjunct came. -/
inductive Conjunct where
  | none | consonant | linked
  deriving DecidableEq

/-- What is carried forward of the scalars before a position. -/
structure Clusters where
  previous : Option GraphemeClusterBreak
  oddIndicators : Bool
  indicatorsFromStart : Bool
  emoji : Emoji
  conjunct : Conjunct

namespace Clusters

/-- The state at the start of text. -/
def new : Clusters := ⟨none, false, false, .none, .none⟩

variable (self : Clusters) (class_ : GraphemeClusterBreak) (pictographic : Bool)
  (incb : IndicConjunctBreak)

/-- The rule that decides before a character. -/
def decide : Rule :=
  match self.previous with
  | none => .GB1
  | some previous =>
    match previous, class_ with
    | .CR, .LF => .GB3
    | .control, _ | .CR, _ | .LF, _ => .GB4
    | _, .control | _, .CR | _, .LF => .GB5
    | .L, .L | .L, .V | .L, .LV | .L, .LVT => .GB6
    | .LV, .V | .LV, .T | .V, .V | .V, .T => .GB7
    | .LVT, .T | .T, .T => .GB8
    | _, .extend | _, .ZWJ => .GB9
    | _, .spacingMark => .GB9a
    | .prepend, _ => .GB9b
    | _, _ =>
      if self.conjunct = .linked ∧ incb = .consonant then .GB9c
      else if self.emoji = .joined ∧ pictographic then .GB11
      else if previous = .regionalIndicator ∧ class_ = .regionalIndicator ∧
          self.oddIndicators then
        if self.indicatorsFromStart then .GB12 else .GB13
      else .GB999

/-- What is kept of a character. -/
def record : Clusters :=
  let continues := self.previous == some .regionalIndicator
  { previous := some class_
    oddIndicators := class_ == .regionalIndicator && !(continues && self.oddIndicators)
    indicatorsFromStart :=
      if continues then self.indicatorsFromStart else self.previous.isNone
    emoji :=
      if pictographic then .pictograph
      else
        match self.emoji, class_ with
        | .pictograph, .extend => .pictograph
        | .pictograph, .ZWJ => .joined
        | _, _ => .none
    conjunct :=
      match self.conjunct, incb with
      | _, .consonant => .consonant
      | .consonant, .linker | .linked, .linker => .linked
      | .consonant, .extend => .consonant
      | .linked, .extend => .linked
      | _, _ => .none }

variable (properties : Properties) (c : Char)

/-- The rule before a scalar, and the state behind it. -/
def push : Rule × Clusters :=
  let class_ := properties.graphemeClusterBreak c
  let pictographic := properties.extendedPictographic c
  let incb := properties.indicConjunctBreak c
  (self.decide class_ pictographic incb, self.record class_ pictographic incb)

end Clusters

/-- The iterator over the boundaries of a text. -/
structure ClusterBoundaries where
  text : List Char
  at_ : Nat
  rules : Clusters

/-- The boundaries of a text, from its start. -/
def clusterBoundaries (text : List Char) : ClusterBoundaries := ⟨text, 0, .new⟩

/-- Push scalars until a rule breaks. -/
def pushAll (properties : Properties) : List Char → Nat → Clusters → Option Nat × Nat × Clusters
  | [], at_, rules => (none, at_, rules)
  | c :: rest, at_, rules =>
    match rules.push properties c with
    | (rule, rules) =>
      if rule.breaks then (some at_, at_ + 1, rules) else pushAll properties rest (at_ + 1) rules

/-- The next boundary. -/
def ClusterBoundaries.next (properties : Properties) (self : ClusterBoundaries) :
    Option Nat × ClusterBoundaries :=
  match pushAll properties (self.text.drop self.at_) self.at_ self.rules with
  | (some found, at_, rules) => (some found, { self with at_, rules })
  | (none, at_, rules) =>
    if at_ = self.text.length ∧ self.text ≠ [] then
      (some self.text.length, { self with at_ := at_ + 1, rules })
    else (none, { self with at_, rules })

/-- The positions an iterator hands out until it ends. -/
inductive Yields (properties : Properties) : ClusterBoundaries → List Nat → Prop where
  | stop {self after : ClusterBoundaries} :
    self.next properties = (none, after) → Yields properties self []
  | step {self after : ClusterBoundaries} {found : Nat} {rest : List Nat} :
    self.next properties = (some found, after) → Yields properties after rest →
      Yields properties self (found :: rest)

section Standard

/-- Looking back over scalars of one kind to a scalar and what is before it. -/
def LooksBack (skip : Char → Prop) (stop : Char → List Char → Prop) : List Char → Prop
  | [] => False
  | c :: back => stop c back ∨ skip c ∧ LooksBack skip stop back

variable (properties : Properties) (back : List Char) (next : Char)

/-- A consonant, and extenders and linkers behind it. -/
def Conjoined : Prop :=
  LooksBack (fun c => properties.indicConjunctBreak c = .extend ∨
    properties.indicConjunctBreak c = .linker)
    (fun c _ => properties.indicConjunctBreak c = .consonant) back

/-- A consonant, and extenders and linkers behind it, with a linker among them. -/
def Linked : Prop :=
  LooksBack (fun c => properties.indicConjunctBreak c = .extend ∨
    properties.indicConjunctBreak c = .linker)
    (fun c earlier => properties.indicConjunctBreak c = .linker ∧ Conjoined properties earlier) back

/-- A pictograph, and extenders behind it. -/
def Pictured : Prop :=
  LooksBack (fun c => properties.graphemeClusterBreak c = .extend)
    (fun c _ => properties.extendedPictographic c = true) back

/-- A pictograph, extenders and a joiner behind it. -/
def Joined : Prop :=
  ∃ joiner earlier, back = joiner :: earlier ∧
    properties.graphemeClusterBreak joiner = .ZWJ ∧ Pictured properties earlier

/-- The regional indicators right before a position are odd in number. -/
def OddIndicators : Prop :=
  (back.takeWhile (properties.graphemeClusterBreak · == .regionalIndicator)).length % 2 = 1

/-- The rules break before a scalar, given the text before it, the nearest first. -/
def Breaks : Prop :=
  match back with
  -- GB1
  | [] => True
  | last :: _ =>
    let before := properties.graphemeClusterBreak last
    let after := properties.graphemeClusterBreak next
    -- GB3
    ¬(before = .CR ∧ after = .LF) ∧
      -- GB4 and GB5
      (before ∈ [.control, .CR, .LF] ∨ after ∈ [.control, .CR, .LF] ∨
        -- GB6 to GB8
        ¬(before = .L ∧ after ∈ [.L, .V, .LV, .LVT] ∨ before ∈ [.LV, .V] ∧ after ∈ [.V, .T] ∨
          before ∈ [.LVT, .T] ∧ after = .T ∨
          -- GB9, GB9a and GB9b
          after ∈ [.extend, .ZWJ] ∨ after = .spacingMark ∨ before = .prepend ∨
          -- GB9c
          Linked properties back ∧ properties.indicConjunctBreak next = .consonant ∨
          -- GB11
          Joined properties back ∧ properties.extendedPictographic next = true ∨
          -- GB12 and GB13
          after = .regionalIndicator ∧ OddIndicators properties back))

/-- The positions at which the rules break a text: GB2 breaks at its end. -/
def Boundary (text : List Char) (position : Nat) : Prop :=
  text ≠ [] ∧ (position = text.length ∨
    ∃ next, text[position]? = some next ∧ Breaks properties (text.take position).reverse next)

end Standard

/-- The state says of the text before a position what the rules ask. -/
structure Reads (properties : Properties) (back : List Char) (rules : Clusters) : Prop where
  previous : rules.previous = back.head?.map properties.graphemeClusterBreak
  odd : rules.oddIndicators = true ↔ OddIndicators properties back
  pictured : rules.emoji = .pictograph ↔ Pictured properties back
  joined : rules.emoji = .joined ↔ Joined properties back
  conjoined : rules.conjunct ≠ .none ↔ Conjoined properties back
  linked : rules.conjunct = .linked ↔ Linked properties back

namespace Reads

variable {properties : Properties} {back : List Char} {rules : Clusters}

theorem new : Reads properties [] .new where
  previous := rfl
  odd := by simp [OddIndicators, Clusters.new]
  pictured := iff_of_false nofun id
  joined := iff_of_false nofun nofun
  conjoined := iff_of_false (not_not.mpr rfl) id
  linked := iff_of_false nofun id

variable (reads : Reads properties back rules) (c : Char)

include reads

/-- The step lemma. -/
theorem push : Reads properties (c :: back) (rules.push properties c).2 := by
  have joins : Joined properties (c :: back) ↔
      properties.graphemeClusterBreak c = .ZWJ ∧ Pictured properties back := by
    refine ⟨?_, fun joins => ⟨c, back, rfl, joins⟩⟩
    rintro ⟨_, _, split, joins⟩
    cases split
    exact joins
  have joiner := properties.joiner c
  simp only [Clusters.push, Clusters.record]
  constructor
  case previous => rfl
  case odd =>
    have odd := reads.odd
    rw [reads.previous]
    simp only [OddIndicators] at odd ⊢
    by_cases indicates : properties.graphemeClusterBreak c = .regionalIndicator
    · cases back with
      | nil => simp [indicates]
      | cons last earlier =>
        by_cases continues : properties.graphemeClusterBreak last = .regionalIndicator
        · simp only [List.takeWhile_cons, continues, beq_self_eq_true, if_true,
            List.length_cons] at odd
          simp [indicates, continues, ← Bool.not_eq_true, odd]
          omega
        · simp [indicates, continues]
    · simp [indicates]
  case pictured =>
    rw [Pictured, LooksBack, ← Pictured, ← reads.pictured]
    generalize properties.graphemeClusterBreak c = class_
    cases properties.extendedPictographic c <;> cases rules.emoji <;> cases class_ <;> simp
  case joined =>
    rw [joins, ← reads.pictured]
    revert joiner
    generalize properties.graphemeClusterBreak c = class_
    cases properties.extendedPictographic c <;> cases rules.emoji <;> cases class_ <;> simp
  case conjoined =>
    rw [Conjoined, LooksBack, ← Conjoined, ← reads.conjoined]
    cases rules.conjunct <;> cases properties.indicConjunctBreak c <;> simp
  case linked =>
    rw [Linked, LooksBack, ← Linked, ← reads.linked, ← reads.conjoined]
    cases rules.conjunct <;> cases properties.indicConjunctBreak c <;> simp

/-- The state decides as the rules do. -/
theorem decides : (rules.push properties c).1.breaks = true ↔ Breaks properties back c := by
  cases back with
  | nil => simp [Clusters.push, Clusters.decide, reads.previous, Breaks, Rule.breaks]
  | cons last earlier =>
    have adjoins : rules.oddIndicators = true →
        properties.graphemeClusterBreak last = .regionalIndicator := by
      rw [reads.odd, OddIndicators, List.takeWhile_cons]
      split <;> simp_all
    simp only [Clusters.push, Clusters.decide, reads.previous, Breaks, List.head?_cons,
      Option.map_some, ← reads.linked, ← reads.joined, ← reads.odd]
    generalize properties.graphemeClusterBreak last = before at adjoins ⊢
    generalize properties.graphemeClusterBreak c = after
    cases before <;> cases after <;> simp only [apply_ite Rule.breaks] <;>
      simp_all [Rule.breaks, imp_iff_not_or]

end Reads

section Iterating

variable {properties : Properties} {text rest : List Char} {position : Nat} {rules : Clusters}
  {c : Char}

/-- The iterator stops before a scalar or goes on as it does behind it. -/
theorem next_cons (here : text.drop position = c :: rest) :
    ClusterBoundaries.next properties ⟨text, position, rules⟩ =
      if (rules.push properties c).1.breaks then
        (some position, ⟨text, position + 1, (rules.push properties c).2⟩)
      else ClusterBoundaries.next properties ⟨text, position + 1, (rules.push properties c).2⟩ := by
  cases breaks : (rules.push properties c).1.breaks <;>
    simp [ClusterBoundaries.next, ← List.tail_drop, here, pushAll, breaks]

theorem boundary_iff (there : text[position]? = some c) :
    Boundary properties text position ↔ Breaks properties (text.take position).reverse c := by
  have inside := (List.getElem?_eq_some_iff.mp there).1
  have nonempty : text ≠ [] := List.ne_nil_of_length_pos (Nat.zero_lt_of_lt inside)
  simp [Boundary, nonempty, Nat.ne_of_lt inside, there]

/-- From any position on, the iterator hands out the boundaries from there on. -/
theorem Reads.yields (reads : Reads properties (text.take position).reverse rules)
    (nonempty : text ≠ []) (inside : position ≤ text.length) (here : text.drop position = rest) :
    ∃ positions, Yields properties ⟨text, position, rules⟩ positions ∧
      positions.Pairwise (· < ·) ∧
      ∀ other, other ∈ positions ↔ position ≤ other ∧ Boundary properties text other := by
  induction rest generalizing position rules with
  | nil =>
    obtain rfl := Nat.le_antisymm inside (List.drop_eq_nil_iff.mp here)
    have last : ClusterBoundaries.next properties ⟨text, text.length, rules⟩ =
        (some text.length, ⟨text, text.length + 1, rules⟩) := by
      simp [ClusterBoundaries.next, pushAll, nonempty]
    have ended : ClusterBoundaries.next properties ⟨text, text.length + 1, rules⟩ =
        (none, ⟨text, text.length + 1, rules⟩) := by
      simp [ClusterBoundaries.next, List.drop_eq_nil_of_le (Nat.le_succ _), pushAll]
    refine ⟨[text.length], .step last (.stop ended), List.pairwise_singleton .., fun other => ?_⟩
    rw [List.mem_singleton]
    constructor
    · rintro rfl
      exact ⟨Nat.le_refl _, nonempty, .inl rfl⟩
    · rintro ⟨beyond, -, atEnd | ⟨next, there, -⟩⟩
      · exact atEnd
      · exact absurd (List.getElem?_eq_some_iff.mp there).1 (Nat.not_lt.mpr beyond)
  | cons c rest ih =>
    have there : text[position]? = some c := by rw [← List.head?_drop, here, List.head?_cons]
    have onward : (text.take (position + 1)).reverse = c :: (text.take position).reverse := by
      simp [List.take_add_one, there]
    obtain ⟨later, yields, ordered, bounds⟩ := ih (onward ▸ reads.push c)
      (List.getElem?_eq_some_iff.mp there).1 (by rw [← List.tail_drop, here, List.tail_cons])
    have steps : ClusterBoundaries.next properties ⟨text, position, rules⟩ = _ := next_cons here
    have decides := (reads.decides c).trans (boundary_iff there).symm
    have splits (other : Nat) : position ≤ other ↔ other = position ∨ position + 1 ≤ other := by
      omega
    by_cases breaks : (rules.push properties c).1.breaks = true
    · rw [if_pos breaks] at steps
      refine ⟨position :: later, .step steps yields,
        List.pairwise_cons.mpr ⟨fun other member => ((bounds other).mp member).1, ordered⟩,
        fun other => ?_⟩
      rw [List.mem_cons, bounds, splits, or_and_right, and_iff_left_of_imp (a := other = position)]
      rintro rfl
      exact decides.mp breaks
    · rw [if_neg breaks] at steps
      refine ⟨later, ?_, ordered, fun other => ?_⟩
      · cases yields with
        | stop stops => exact .stop (steps.trans stops)
        | step first yields => exact .step (steps.trans first) yields
      · rw [bounds, splits, or_and_right, or_iff_right]
        rintro ⟨rfl, bound⟩
        exact breaks (decides.mpr bound)

end Iterating

/-- The positions the iterator hands out are, in order, those at which the rules break. -/
theorem clusters_are_the_standards (properties : Properties) (text : List Char) :
    ∃ positions, Yields properties (clusterBoundaries text) positions ∧
      positions.Pairwise (· < ·) ∧
      ∀ position, position ∈ positions ↔ Boundary properties text position := by
  by_cases empty : text = []
  · subst empty
    exact ⟨[], .stop rfl, .nil, fun position => iff_of_false nofun fun bounds => bounds.1 rfl⟩
  · have yields := (@Reads.new properties).yields empty (Nat.zero_le _) rfl
    simpa only [Nat.zero_le, true_and, clusterBoundaries] using yields

/-- An iterator hands out one list of positions. -/
theorem Yields.unique
    {properties : Properties}
    {self : ClusterBoundaries}
    {positions other : List Nat}
    (first : Yields properties self positions)
    (second : Yields properties self other) :
    positions = other := by
  induction first generalizing other with
  | stop ends =>
    cases second with
    | stop => rfl
    | step finds => cases ends.symm.trans finds
  | step finds _ ih =>
    cases second with
    | stop ends => cases finds.symm.trans ends
    | step again rest =>
      cases finds.symm.trans again
      rw [ih rest]

/-- What the tables say of the scalars of `greeting`. -/
def sample : Properties where
  graphemeClusterBreak c :=
    if 0x1F1E6 ≤ c.toNat ∧ c.toNat ≤ 0x1F1FF then .regionalIndicator
    else if c.toNat = 0x200D then .ZWJ
    else if c.toNat ∈ [0x094D, 0xFE0F] then .extend
    else .other
  extendedPictographic c := c.toNat ∈ [0x2764, 0x1F468, 0x1F469]
  indicConjunctBreak c :=
    if 0x0915 ≤ c.toNat ∧ c.toNat ≤ 0x0939 then .consonant
    else if c.toNat = 0x094D then .linker
    else if c.toNat ∈ [0x200D, 0xFE0F] then .extend
    else .none
  joiner c joins := by
    have isJoiner : c.toNat = 0x200D := by
      by_contra other
      split_ifs at joins
    rw [isJoiner]
    rfl

/-- Two flags, a woman, a heart and a man joined, and a conjunct of two consonants. -/
def greeting : List Char :=
  [0x1F1E9, 0x1F1EA, 0x1F1EB, 0x1F1F7, 0x1F469, 0x200D, 0x2764, 0xFE0F, 0x200D, 0x1F468, 0x0915,
    0x094D, 0x0937].map Char.ofNat

theorem clusters_are_the_standards_greeting :
    ∀ position, Boundary sample greeting position ↔ position ∈ [0, 2, 4, 10, 13] := by
  intro position
  obtain ⟨positions, yields, -, bounds⟩ := clusters_are_the_standards sample greeting
  have found : Yields sample (clusterBoundaries greeting) [0, 2, 4, 10, 13] :=
    .step rfl (.step rfl (.step rfl (.step rfl (.step rfl (.stop rfl)))))
  rw [← bounds, yields.unique found]

end FSystem.Text.Grapheme
