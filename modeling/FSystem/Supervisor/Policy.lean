import FSystem.Library.Runs

/-!
# The restart policy

What a supervisor does about a place: it decides on a death by the place's manifest and by a
tally of restarts the board carries from run to run, stops an occupant that is stuck, and fills
a place whose tally was never touched.
-/

namespace FSystem.Supervisor

namespace Restart

def never : UInt8 := 1
def onFault : UInt8 := 2
def always : UInt8 := 3

end Restart

namespace Cause

def fault : UInt64 := 1
def exit : UInt64 := 2
def timedOut : UInt64 := 5

/-- A cause with a detail in the high half. -/
def pack (cause detail : UInt64) : UInt64 := (detail <<< 32) ||| (cause &&& 0xFFFFFFFF)

/-- The cause of a packed word. -/
def of (packed : UInt64) : UInt64 := packed &&& 0xFFFFFFFF

end Cause

/-- What a manifest says about restarts. -/
structure Record where
  restart : UInt8
  backoffFirstTicks : Nat
  backoffMaxTicks : Nat
  maxRestarts : Nat
  budgetWindowTicks : Nat
  deriving DecidableEq

/-- Why a policy is refused. -/
inductive Refusal
  | notUnderThisPolicy
  | quantity
  deriving DecidableEq

namespace Record

/-- Whether the policy restarts after a death of this cause. -/
def restartsAfterCause (self : Record) (cause : UInt64) : Bool :=
  if cause = Cause.fault ∨ cause = Cause.timedOut then
    self.restart == Restart.onFault || self.restart == Restart.always
  else if cause = Cause.exit then self.restart == Restart.always
  else false

/-- The pause after some more doublings. -/
def doubled (self : Record) (pause : Nat) : Nat → Nat
  | 0 => pause
  | left + 1 =>
    let pause := min (pause * 2) (2 ^ 32 - 1)
    if self.backoffMaxTicks ≤ pause then self.backoffMaxTicks else self.doubled pause left

/-- The pause before the next respawn. -/
def backoffTicks (self : Record) (nth : Nat) : Nat := self.doubled self.backoffFirstTicks nth

/-- Whether a record's restart policy can be followed. -/
def checkRestart (self : Record) : Except Refusal Unit :=
  let quantities :=
    [self.backoffFirstTicks, self.backoffMaxTicks, self.maxRestarts, self.budgetWindowTicks]
  if self.restart = Restart.never then
    if quantities.all (· == 0) then .ok () else .error .notUnderThisPolicy
  else if quantities.contains 0 then .error .quantity
  else if self.backoffMaxTicks < self.backoffFirstTicks ∨
      self.budgetWindowTicks < self.backoffMaxTicks then .error .quantity
  else .ok ()

end Record

/-- What a supervisor does about a place whose occupant has ended. -/
inductive Verdict
  | leave
  | restart (pause : Nat)
  | retire
  deriving DecidableEq

/-- The restarts in the current window, and when it opened. -/
structure Budget where
  used : Nat
  opened : Nat
  deriving DecidableEq

/-- The tally of a place no decision was taken about. -/
def Budget.untouched : Budget := ⟨0, 0⟩

/-- Whether the window of a tally has elapsed. -/
def Record.elapsed (self : Record) (budget : Budget) (now : Nat) : Bool :=
  self.budgetWindowTicks ≤ now - budget.opened

/-- The tally a decision is taken on: a window that has elapsed opens again. -/
def Record.windowed (self : Record) (budget : Budget) (now : Nat) : Budget :=
  if self.elapsed budget now then ⟨0, now⟩ else budget

/-- Decide on a death. -/
def decide (record : Record) (budget : Budget) (cause : UInt64) (now : Nat) :
    Verdict × Budget :=
  if !record.restartsAfterCause cause then (.leave, budget)
  else
    let budget := record.windowed budget now
    if record.maxRestarts ≤ budget.used then (.retire, budget)
    else (.restart (record.backoffTicks budget.used), { budget with used := budget.used + 1 })

/-- What a running occupant publishes about itself. -/
structure Liveness where
  outstandingWaits : UInt64
  abandonedFrames : UInt64
  deriving DecidableEq

/-- The fate of an occupant that is still running. -/
def fate (now : Liveness) (seen : UInt64) : Option UInt64 :=
  if now.abandonedFrames ≤ seen then none
  else if now.outstandingWaits = 0 then none
  else some (Cause.pack Cause.timedOut now.abandonedFrames)

/-- What a run knows about one place. -/
structure Facts where
  ended : Option UInt64
  occupied : Bool
  taken : Bool
  budget : Budget
  liveness : Liveness
  seen : UInt64
  deriving DecidableEq

/-- What a run does about one place. -/
structure Answer where
  verdict : Verdict
  budget : Budget
  stop : Option UInt64
  seen : UInt64
  deriving DecidableEq

/-- Answer one row of the board. -/
def answer (record : Record) (facts : Facts) (now : Nat) : Answer :=
  let seen := if facts.occupied then facts.liveness.abandonedFrames else facts.seen
  if facts.taken then ⟨.leave, facts.budget, none, seen⟩
  else
    match facts.ended with
    | some packed =>
      let decided := decide record facts.budget (Cause.of packed) now
      ⟨decided.1, decided.2, none, seen⟩
    | none =>
      if facts.occupied then ⟨.leave, facts.budget, fate facts.liveness facts.seen, seen⟩
      else if facts.budget = Budget.untouched then ⟨.restart 0, facts.budget, none, seen⟩
      else ⟨.leave, facts.budget, none, seen⟩

end FSystem.Supervisor
