import Mathlib.Algebra.Ring.Nat

/-!
# Structured errors

A completion's result is a count, or the negation of a domain and a code in one word.
-/

namespace FSystem.Abi

/-- Who or what refused. -/
inductive Domain
  | authority
  | admission
  | resource
  | peer
  | argument
  | device
  deriving DecidableEq

namespace Domain

/-- The number of a domain. -/
def code : Domain → Nat
  | .authority => 1
  | .admission => 2
  | .resource => 3
  | .peer => 4
  | .argument => 5
  | .device => 6

end Domain

/-- The codes of the admission domain that are used. -/
inductive Admission
  | notHeld
  deriving DecidableEq

/-- The code of an admission error. -/
def Admission.code : Admission → Nat
  | .notHeld => 4

/-- The codes of the argument domain that are used. -/
inductive Argument
  | malformedHeader
  | unknownOpcode
  | unknownFlag
  | reservedNotZero
  | badAddress
  | badClass
  deriving DecidableEq

/-- The code of an argument error. -/
def Argument.code : Argument → Nat
  | .malformedHeader => 1
  | .unknownOpcode => 2
  | .unknownFlag => 3
  | .reservedNotZero => 4
  | .badAddress => 5
  | .badClass => 8

/-- Pack a domain and a code into a result. -/
def packError (domain : Domain) (code : Nat) : Int := -((domain.code <<< 16 ||| code : Nat) : Int)

end FSystem.Abi
