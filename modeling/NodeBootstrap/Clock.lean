import NodeBootstrap.Failure

/-!
# The clock

A pause has a length in seconds. A clock of the system takes numbers only, none below zero and none
beyond what it can count; the clock of a host that is a stand-in takes anything and waits for
nothing.
-/

set_option autoImplicit false

namespace NodeBootstrap

/-- What pauses are made by. -/
inductive Clock
  /-- A stand-in. -/
  | standIn
  /-- A clock of the system, with the greatest length that it can count, in nanoseconds. -/
  | system (longest : Nat)
  deriving DecidableEq, Repr

namespace Clock

/-- A clock that counts nanoseconds in 64 bits with a sign. -/
def usual : Clock := .system (Binary64.twoTo 63 - 1)

/-- Whether a floating-point number of seconds lies between zero and a length in nanoseconds. -/
def reaches (longest : Nat) : Binary64 → Bool
  | .finite negative mantissa exponent =>
    let nanoseconds := mantissa * Binary64.tenTo 9
    mantissa = 0 || !negative &&
      if 0 ≤ exponent then nanoseconds * Binary64.twoTo exponent.toNat ≤ longest
      else nanoseconds ≤ longest * Binary64.twoTo (-exponent).toNat
  | .infinite _ | .nan => false

/-- Why a clock refuses a length, if it does. A truth value counts as one or zero. -/
def refusal? : Clock → Value → Option Failure
  | .standIn, _ => none
  | .system longest, .float x => if reaches longest x then none else some .environment
  | .system longest, length =>
    match length.asCount? with
    | none => some (.kind .unusable)
    | some seconds =>
      if 0 ≤ seconds ∧ seconds * Binary64.tenTo 9 ≤ longest then none else some .environment

end Clock

end NodeBootstrap
