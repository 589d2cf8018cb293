import FSystem.Blob.Chunk

/-!
# What one byte does to the chunker

The register rolls whatever else happens, a candidate starts the candidate count anew
whether a chunk ends at it or not, and only the cut count remembers where the last chunk
ended.
-/

namespace FSystem.Blob

/-- The register after one more byte. -/
def roll (register : UInt64) (byte : UInt8) : UInt64 :=
  (register <<< 1) + gearTable.getD byte.toNat 0

/-- A register whose masked bits are zero is a candidate. -/
def IsCandidate (register : UInt64) : Prop := register &&& mask = 0

instance (register : UInt64) : Decidable (IsCandidate register) :=
  inferInstanceAs (Decidable (register &&& mask = 0))

namespace Chunker

variable (self : Chunker) (byte : UInt8)

/-- The candidate count before the byte's own candidate is looked at. -/
def since : Nat :=
  if self.sinceCandidate < chunkMinBytes then self.sinceCandidate + 1
  else self.sinceCandidate

/-- The content accepts a cut after the byte. -/
def Accepts : Prop :=
  IsCandidate (roll self.register byte) ∧ chunkMinBytes ≤ self.since ∧
    chunkMinBytes ≤ self.sinceCut + 1

instance : Decidable (self.Accepts byte) :=
  inferInstanceAs (Decidable (_ ∧ _ ∧ _))

/-- A chunk ends after the byte. -/
def Ends : Prop := self.Accepts byte ∨ self.sinceCut + 1 = chunkMaxBytes

instance : Decidable (self.Ends byte) := inferInstanceAs (Decidable (_ ∨ _))

/-- The chunker after one byte, and whether a chunk ends after it. -/
theorem step_eq :
    self.step byte = (decide (self.Ends byte),
      { register := roll self.register byte
        sinceCandidate := if IsCandidate (roll self.register byte) then 0 else self.since
        sinceCut := if self.Ends byte then 0 else self.sinceCut + 1 }) := by
  have unfolded : self.step byte =
      if self.Accepts byte then (true, ⟨roll self.register byte, 0, 0⟩)
      else if self.sinceCut + 1 = chunkMaxBytes then
        (true, ⟨roll self.register byte,
          if IsCandidate (roll self.register byte) then 0 else self.since, 0⟩)
      else (false, ⟨roll self.register byte,
        if IsCandidate (roll self.register byte) then 0 else self.since,
        self.sinceCut + 1⟩) := rfl
  rw [unfolded]
  by_cases accepts : self.Accepts byte
  · have ends : self.Ends byte := .inl accepts
    rw [if_pos accepts, if_pos ends, if_pos accepts.1, decide_eq_true ends]
  rw [if_neg accepts]
  by_cases full : self.sinceCut + 1 = chunkMaxBytes
  · have ends : self.Ends byte := .inr full
    rw [if_pos full, if_pos ends, decide_eq_true ends]
  · have continues : ¬self.Ends byte := not_or.mpr ⟨accepts, full⟩
    rw [if_neg full, if_neg continues, decide_eq_false continues]

end Chunker

end FSystem.Blob
