import FSystem.Semantic.Wire

/-!
# The session of a semantic channel

Reception remembers three things about the entries before: the version agreed, the refusal
that poisoned the frame being assembled, and the refused negotiation that ended the epoch.
A poisoned frame is refused to its commit; a refused negotiation, for good.
-/

namespace FSystem.Semantic

/-- Why an entry was refused, and which entry of its frame earned it. -/
structure Fault where
  refusal : Refusal
  position : UInt32
  deriving DecidableEq

/-- One channel's reception. -/
structure Session where
  epoch : UInt32
  agreed : Option Agreed
  /-- How many entries of the current frame have been offered. -/
  position : UInt32
  poison : Option Fault
  refused : Option Fault
  deriving DecidableEq

/-- An accepted entry is one of a frame's edits, or the commit that closes it. -/
inductive Received
  | staged (delta : Delta)
  | frame (delta : Delta)
  deriving DecidableEq

/-- A count that stops at the largest value. -/
def saturatingSucc (count : UInt32) : UInt32 :=
  if count.toNat = 2 ^ 32 - 1 then count else count + 1

namespace Session

/-- A channel on which nothing has been agreed yet. -/
def opening (epoch : UInt32) : Session := ⟨epoch, none, 0, none, none⟩

/-- The session after a refused entry that did not close a poisoned frame. -/
def refuse (self : Session) (entry : Sqe) (fault : Fault) : Session :=
  if Op.isHandshake entry.opcode = some true then { self with refused := some fault }
  else if entry.opcode = Op.commit.code then { self with position := 0 }
  else { self with poison := some fault }

/-- The agreement after a decoded entry. -/
def agreement (agreed : Option Agreed) (body : Entry) : Except Refusal (Option Agreed) :=
  match body with
  | .declareVocabulary handshake => handshake.negotiate.map some
  | _ => .ok agreed

/-- Offer the next entry of a channel. -/
def accept (self : Session) (entry : Sqe) (payload : Payload) (vocabulary : Vocabulary) :
    Except Fault Received × Session :=
  match self.refused with
  | some standing => (.error standing, self)
  | none =>
    match self.poison with
    | some standing =>
      (.error standing,
        if entry.opcode = Op.commit.code then { self with poison := none, position := 0 }
        else self)
    | none =>
      let offered := { self with position := saturatingSucc self.position }
      match Delta.decode entry payload self.agreed vocabulary with
      | .error refusal =>
        (.error ⟨refusal, self.position⟩, offered.refuse entry ⟨refusal, self.position⟩)
      | .ok delta =>
        match agreement self.agreed delta.body with
        | .error refusal =>
          (.error ⟨refusal, self.position⟩,
            { offered with refused := some ⟨refusal, self.position⟩ })
        | .ok agreed =>
          if entry.opcode = Op.commit.code then
            (.ok (.frame delta), { offered with agreed := agreed, position := 0 })
          else (.ok (.staged delta), { offered with agreed := agreed })

end Session

end FSystem.Semantic
