import NodeBootstrap.Value

/-!
# The order of values

Numbers of all kinds have one order, and truth values take part in it as one and zero. Texts go by
code points, days by the calendar, and tuples by the first items that differ. Values of kinds that
have no common order cannot be sorted together.

Values that are equal in this order are one key of a mapping.
-/

set_option autoImplicit false

namespace NodeBootstrap.Value

/-- A number as a quotient; the infinities are quotients by zero. -/
def ratio? : Value → Option (Int × Nat)
  | .bool b => some (if b then 1 else 0, 1)
  | .int n => some (n, 1)
  | .float (.finite negative mantissa exponent) =>
    let m : Int := if negative then -mantissa else mantissa
    some (if 0 ≤ exponent then (m * Binary64.twoTo exponent.toNat, 1)
      else (m, Binary64.twoTo (-exponent).toNat))
  | .float (.infinite negative) => some (if negative then -1 else 1, 0)
  | _ => none

/-- The order of quotients. -/
def compareRatios : Int × Nat → Int × Nat → Ordering
  | (m, 0), (n, 0) => compare m n
  | (m, c), (n, d) => compare (m * d) (n * c)

/-- The parts of a day or a moment, the greatest first. -/
def momentParts (t : Timestamp) : List Nat :=
  [t.year, t.month, t.day] ++
    (t.time.map fun c => [c.hour, c.minute, c.second, c.microsecond]).getD []

mutual

/-- The order of two values, if they have one. -/
def compare? : Value → Value → Option Ordering
  | .null, .null => some .eq
  | .text a, .text b => some (if a = b then .eq else if Text.le a b then .lt else .gt)
  | .timestamp a, .timestamp b =>
    if a.time.isSome = b.time.isSome then some (compare (momentParts a) (momentParts b)) else none
  | .tuple a, .tuple b => compareItems? a b
  | .float .nan, .float .nan => some .eq
  | a, b =>
    match ratio? a, ratio? b with
    | some m, some n => some (compareRatios m n)
    | _, _ => none

/-- The order of two rows of values. -/
def compareItems? : List Value → List Value → Option Ordering
  | [], [] => some .eq
  | [], _ :: _ => some .lt
  | _ :: _, [] => some .gt
  | a :: as, b :: bs =>
    match compare? a b with
    | some .eq => compareItems? as bs
    | r => r

end

/-- Whether two values are one key. -/
def isSameKey (a b : Value) : Bool := compare? a b = some .eq

/-- Values in order, `none` if two of them have none. A value alone needs no order. -/
def sorted? (values : List Value) : Option (List Value) :=
  if values.length ≤ 1 ∨ values.all fun a => values.all fun b => (compare? a b).isSome then
    some (values.mergeSort fun a b => compare? a b ≠ some .gt)
  else none

end NodeBootstrap.Value
