import FSystem.Semantic.Tree
import FSystem.Library.Runs

/-!
# Frames land whole

A frame is what arrives between two commits, whatever became of the commits.  A frame's own
edits are what its entries decode to under the agreement as it stands at each of them.  A
commit is whole if the tree after it is the tree before the frame, or that tree with exactly
the frame's own edits made in order, and the former whenever anything of the frame was
refused.
-/

namespace FSystem.Semantic

/-- An entry on the link, with its payload. -/
structure Submission where
  entry : Sqe
  payload : Payload
  deriving DecidableEq

namespace Submission

/-- Whether an entry ends a frame. -/
def Closes (self : Submission) : Prop := self.entry.opcode = Op.commit.code

instance (self : Submission) : Decidable self.Closes :=
  inferInstanceAs (Decidable (_ = _))

/-- The edits some entries stand for, under the agreement they find. -/
def edits (agreed : Option Agreed) : List Submission → Except Refusal (List Delta)
  | [] => .ok []
  | submission :: rest =>
    match Delta.decode submission.entry submission.payload agreed Interface.vocabulary with
    | .error refusal => .error refusal
    | .ok delta =>
      match Session.agreement agreed delta.body with
      | .error refusal => .error refusal
      | .ok agreed =>
        match edits agreed rest with
        | .error refusal => .error refusal
        | .ok later => .ok (delta :: later)

end Submission

namespace Remote

/-- The far side after an entry. -/
def next (self : Remote) (submission : Submission) : Remote :=
  (self.receive submission.entry submission.payload).2

/-- The far side after some entries. -/
def after (self : Remote) (submissions : List Submission) : Remote :=
  Runs.run next self submissions

/-- An entry is refused. -/
def Refuses (self : Remote) (submission : Submission) : Prop :=
  ∃ lost, (self.receive submission.entry submission.payload).1 = .error lost

/-- A frame and its commit are received whole by a far side before the frame. -/
structure Whole (remote : Remote) (frame : List Submission) (commit : Submission) : Prop where
  landed :
    (remote.after (frame ++ [commit])).tree.nodes = remote.tree.nodes ∨
      ∃ edits applied, Submission.edits remote.session.agreed frame = .ok edits ∧
        remote.tree.nodes.each Applied.zero edits =
          .ok ((remote.after (frame ++ [commit])).tree.nodes, applied)
  refused : ∀ earlier submission later, frame ++ [commit] = earlier ++ submission :: later →
    (remote.after earlier).Refuses submission →
      (remote.after (frame ++ [commit])).tree.nodes = remote.tree.nodes

section Steps

variable {self : Remote} {submission : Submission}

/-- The session refuses every entry: the frame is poisoned, or the epoch is over. -/
def Dead (self : Remote) : Prop := self.session.refused.isSome ∨ self.session.poison.isSome

/-- What the session refuses changes the session only. -/
theorem receive_of_accept_error {fault : Fault} {session : Session}
    (refuses : self.session.accept submission.entry submission.payload Interface.vocabulary =
      (.error fault, session)) :
    self.next submission = { self with session := session } := by
  rw [next, receive, refuses]

/-- A dead session refuses, and only a commit brings it back. -/
theorem next_of_dead (dead : self.Dead) (submission : Submission) :
    (self.next submission).tree = self.tree ∧
      (¬submission.Closes → (self.next submission).Dead) := by
  obtain ⟨fault, session, answer, kept⟩ : ∃ fault session,
      self.session.accept submission.entry submission.payload Interface.vocabulary =
        (.error fault, session) ∧ (¬submission.Closes → session = self.session) := by
    rw [Session.accept]
    rcases refused : self.session.refused with _ | standing
    · rcases poison : self.session.poison with _ | standing
      · simp [Dead, refused, poison] at dead
      · exact ⟨_, _, rfl, fun goesOn => if_neg goesOn⟩
    · exact ⟨_, _, rfl, fun _ => rfl⟩
  rw [receive_of_accept_error answer]
  refine ⟨rfl, fun goesOn => ?_⟩
  rw [Dead, kept goesOn]
  exact dead

/-- A live session refuses an entry, and is dead unless it is a commit, or hands on its delta. -/
theorem accept_of_live (live : ¬self.Dead) :
    (∃ fault session, self.session.accept submission.entry submission.payload Interface.vocabulary =
      (.error fault, session) ∧
        (¬submission.Closes → session.refused.isSome ∨ session.poison.isSome)) ∨
    ∃ delta agreed,
      Delta.decode submission.entry submission.payload self.session.agreed
        Interface.vocabulary = .ok delta ∧
      Session.agreement self.session.agreed delta.body = .ok agreed ∧
      self.session.accept submission.entry submission.payload Interface.vocabulary =
        if submission.Closes then
          (.ok (.frame delta), { self.session with position := 0, agreed := agreed })
        else (.ok (.staged delta), { self.session with
          position := saturatingSucc self.session.position, agreed := agreed }) := by
  rw [Dead, not_or, Option.not_isSome_iff_eq_none, Option.not_isSome_iff_eq_none] at live
  rw [Session.accept, live.1, live.2]
  rcases decoded : Delta.decode submission.entry submission.payload self.session.agreed
    Interface.vocabulary with refusal | delta
  · refine .inl ⟨_, _, rfl, fun (goesOn : ¬submission.entry.opcode = Op.commit.code) => ?_⟩
    rw [Session.refuse, if_neg goesOn]
    by_cases negotiates : Op.isHandshake submission.entry.opcode = some true
    · rw [if_pos negotiates]
      exact .inl rfl
    · rw [if_neg negotiates]
      exact .inr rfl
  · dsimp only
    rcases agreement : Session.agreement self.session.agreed delta.body with refusal | agreed
    · exact .inl ⟨_, _, rfl, fun _ => .inl rfl⟩
    · refine .inr ⟨delta, agreed, rfl, agreement, ?_⟩
      dsimp only
      rw [live.1, live.2]
      rfl

/-- What a commit does to the tree: nothing, or all that is staged. -/
theorem next_commit (live : ¬self.Dead) (closes : submission.Closes) :
    (self.next submission).tree.nodes = self.tree.nodes ∨
      ¬self.Refuses submission ∧ ∃ applied,
        self.tree.nodes.each Applied.zero self.staged.entries =
          .ok ((self.next submission).tree.nodes, applied) := by
  rcases accept_of_live live with ⟨fault, session, answer, -⟩ | ⟨delta, agreed, -, -, answer⟩
  · rw [receive_of_accept_error answer]
    exact .inl rfl
  rw [if_pos closes] at answer
  rcases made : self.tree.nodes.each Applied.zero self.staged.entries with
    rejected | ⟨nodes, applied⟩
  · left
    rw [next, receive, answer]
    rw [Tree.apply, made]
  right
  have received : self.receive submission.entry submission.payload =
      (.ok (some applied), ⟨{ self.session with position := 0, agreed := agreed }, Staged.empty,
        { self.tree with
          nodes := nodes
          frames := self.tree.frames + 1
          edits := self.tree.edits + self.staged.entries.length },
        self.frames + 1⟩) := by
    rw [receive, answer]
    rw [Tree.apply, made]
  rw [Refuses, next, received]
  exact ⟨(fun ⟨_, impossible⟩ => nomatch impossible), applied, rfl⟩

/-- An entry that a live far side with room takes into the frame. -/
theorem next_of_live (live : ¬self.Dead) (goesOn : ¬submission.Closes)
    (room : self.staged.entries.length < frameEntriesMax) :
    (self.next submission).tree = self.tree ∧
      ((self.next submission).Dead ∨
        ¬self.Refuses submission ∧ ∃ delta,
          Delta.decode submission.entry submission.payload self.session.agreed
            Interface.vocabulary = .ok delta ∧
          Session.agreement self.session.agreed delta.body =
            .ok (self.next submission).session.agreed ∧
          (self.next submission).staged.entries = self.staged.entries ++ [delta]) := by
  rcases accept_of_live live with
    ⟨fault, session, answer, dead⟩ | ⟨delta, agreed, decoded, agreement, answer⟩
  · rw [receive_of_accept_error answer]
    exact ⟨rfl, .inl (dead goesOn)⟩
  rw [if_neg goesOn] at answer
  have isEdit : ¬delta.body.op = .commit :=
    fun isCommit => goesOn ((Delta.isCommit_of_decode decoded).mp isCommit)
  have received : self.receive submission.entry submission.payload =
      (.ok none,
        { self with
          session := { self.session with
            position := saturatingSucc self.session.position, agreed := agreed }
          staged := ⟨self.staged.entries ++ [delta], by
            rw [List.length_append]
            exact room⟩ }) := by
    rw [receive, answer]
    dsimp only
    rw [Staged.offer, if_neg isEdit, dif_pos room]
  rw [Refuses, next, received]
  exact ⟨rfl, .inr ⟨(fun ⟨_, impossible⟩ => nomatch impossible), delta, decoded, agreement, rfl⟩⟩

end Steps

section Frames

variable {self : Remote} {frame : List Submission} {commit : Submission}

theorem after_cons (submission : Submission) :
    self.after (submission :: frame) = (self.next submission).after frame := rfl

theorem after_append (rest : List Submission) :
    self.after (frame ++ rest) = (self.after frame).after rest :=
  List.foldl_append

/-- A dead session stays so to the end of the frame. -/
theorem after_of_dead (dead : self.Dead) (goesOn : ∀ submission ∈ frame, ¬submission.Closes) :
    (self.after frame).tree = self.tree ∧ (self.after frame).Dead := by
  induction frame generalizing self with
  | nil => exact ⟨rfl, dead⟩
  | cons submission rest ih =>
    obtain ⟨here, later⟩ := List.forall_mem_cons.mp goesOn
    obtain ⟨tree, stays⟩ := next_of_dead dead submission
    obtain ⟨treeLater, deadLater⟩ := ih (stays here) later
    exact ⟨treeLater.trans tree, deadLater⟩

/-- No entry of a frame is refused. -/
def Takes : Remote → List Submission → Prop :=
  Runs.Along next fun remote submission => ¬remote.Refuses submission

/-- A far side with room keeps the tree, and the session is dead or the frame's edits are staged. -/
theorem after_of_room (goesOn : ∀ submission ∈ frame, ¬submission.Closes)
    (room : self.staged.entries.length + frame.length ≤ frameEntriesMax) :
    (self.after frame).tree = self.tree ∧
      ((self.after frame).Dead ∨ self.Takes frame ∧ ∃ edits,
        Submission.edits self.session.agreed frame = .ok edits ∧
        (self.after frame).staged.entries = self.staged.entries ++ edits) := by
  induction frame generalizing self with
  | nil => exact ⟨rfl, .inr ⟨trivial, [], rfl, (List.append_nil _).symm⟩⟩
  | cons submission rest ih =>
    by_cases dead : self.Dead
    · exact (after_of_dead dead goesOn).imp_right .inl
    obtain ⟨here, later⟩ := List.forall_mem_cons.mp goesOn
    rw [List.length_cons] at room
    obtain ⟨tree, outcome⟩ := next_of_live dead here (by omega)
    rw [after_cons]
    rcases outcome with dead | ⟨taken, delta, decoded, agreement, staged⟩
    · obtain ⟨treeLater, deadLater⟩ := after_of_dead dead later
      exact ⟨treeLater.trans tree, .inl deadLater⟩
    have roomNext : (self.next submission).staged.entries.length + rest.length ≤
        frameEntriesMax := by
      rw [staged, List.length_append, List.length_singleton]
      omega
    obtain ⟨treeLater, outcomeLater⟩ := ih later roomNext
    refine ⟨treeLater.trans tree, outcomeLater.imp_right ?_⟩
    rintro ⟨takenLater, edits, editsLater, stagedLater⟩
    refine ⟨⟨taken, takenLater⟩, delta :: edits, ?_, ?_⟩
    · rw [Submission.edits, decoded]
      dsimp only
      rw [agreement]
      dsimp only
      rw [editsLater]
    · rw [stagedLater, staged, List.append_assoc]
      rfl

/-- A frame that fits the stage lands whole where nothing is staged before it. -/
theorem whole_of_clear (clear : self.staged.entries = []) (short : frame.length ≤ frameEntriesMax)
    (goesOn : ∀ submission ∈ frame, ¬submission.Closes) (closes : commit.Closes) :
    self.Whole frame commit := by
  have last : self.after (frame ++ [commit]) = (self.after frame).next commit := after_append _
  have landed : (self.after (frame ++ [commit])).tree.nodes = self.tree.nodes ∨
      (self.Takes (frame ++ [commit])) ∧
        ∃ edits applied, Submission.edits self.session.agreed frame = .ok edits ∧
          self.tree.nodes.each Applied.zero edits =
            .ok ((self.after (frame ++ [commit])).tree.nodes, applied) := by
    rw [last]
    have room : self.staged.entries.length + frame.length ≤ frameEntriesMax := by
      simpa [clear] using short
    obtain ⟨tree, outcome⟩ := after_of_room goesOn room
    by_cases dead : (self.after frame).Dead
    · rw [(next_of_dead dead commit).1, tree]
      exact .inl rfl
    obtain ⟨taken, edits, isEdits, staged⟩ := outcome.resolve_left dead
    rcases next_commit dead closes with stands | ⟨takesCommit, applied, made⟩
    · rw [stands, tree]
      exact .inl rfl
    have takes : self.Takes (frame ++ [commit]) :=
      (Runs.along_append _ _).mpr ⟨taken, takesCommit, trivial⟩
    refine .inr ⟨takes, edits, applied, isEdits, ?_⟩
    rw [← tree, ← made, staged, clear]
    rfl
  refine ⟨landed.imp_right fun ⟨_, rest⟩ => rest, ?_⟩
  intro earlier submission later split refuses
  rcases landed with stands | ⟨taken, -⟩
  · exact stands
  · rw [split] at taken
    exact absurd refuses ((Runs.along_append _ _).mp taken).2.1

end Frames

/-- Remote frames are whole: after any entries, refused or not, if nothing is staged when a
frame begins and the frame is no longer than what is staged at once, then after its commit
the tree is the one before the frame or that tree with exactly the frame's edits made in
order, and the former if any of its entries or the commit was refused. -/
theorem frames_land_whole
    (epoch : UInt32)
    (before frame : List Submission)
    (commit : Submission)
    (goesOn : ∀ submission ∈ frame, ¬submission.Closes)
    (closes : commit.Closes)
    (clear : ((opening epoch).after before).staged.entries = [])
    (short : frame.length ≤ frameEntriesMax) : ((opening epoch).after before).Whole frame commit :=
  whole_of_clear clear short goesOn closes

section Samples

/-- An entry with an opcode and the front of a payload. -/
def sample (opcode : UInt8) (front : Bytes) : Submission where
  entry := ⟨opcode, 0, 0, 0, 0, 0, 0, 0, 0, UInt32.ofNat payloadBytes, 0, (0, 0)⟩
  payload := ⟨(front ++ Bytes.zeros payloadBytes).take payloadBytes, by simp [Bytes.zeros]⟩

def agree : Submission := sample Op.declareVocabulary.code [1, 0, 1, 0]
def declareSeven : Submission := sample Op.declareNode.code [7]
def standSeven (bits : UInt8) : Submission := sample Op.setState.code [7, 0, 0, 0, 0, 0, 0, 0, bits]
def unknown : Submission := sample 0xEE []
def close : Submission := sample Op.commit.code [9]

/-- The first frame of a channel: the agreement and one node. -/
theorem frames_land_whole_first : ((opening 0).after []).Whole [agree, declareSeven] close :=
  frames_land_whole 0 [] [agree, declareSeven] close (by decide) (by decide) rfl (by decide)

/-- What was staged of a refused frame lands with the next commit, whose own frame is empty;
and of a frame that is too long, only a part lands. -/
theorem refused_frame_lands_later :
    close.Closes ∧
      ¬((opening 0).after [agree, declareSeven, unknown, close]).Whole [] close ∧
      ¬((opening 0).after [agree, declareSeven, close]).Whole
        (List.replicate frameEntriesMax (standSeven 1) ++ [standSeven 2]) close := by
  refine ⟨by decide, ?_, ?_⟩
  · intro whole
    have moved : ((opening 0).after [agree, declareSeven, unknown, close, close]).tree.nodes ≠
        ((opening 0).after [agree, declareSeven, unknown, close]).tree.nodes := by
      decide +kernel
    rcases whole.landed with stands | ⟨edits, applied, isEdits, made⟩
    · exact moved stands
    · cases isEdits
      exact moved (congrArg Prod.fst (Except.ok.inj made)).symm
  · intro whole
    have stands := whole.refused (List.replicate frameEntriesMax (standSeven 1)) (standSeven 2)
      [close] (List.append_assoc _ _ _) ⟨.tree .full, by decide +kernel⟩
    exact absurd stands (by decide +kernel)

end Samples

end Remote

end FSystem.Semantic
