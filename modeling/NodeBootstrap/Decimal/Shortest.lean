import NodeBootstrap.Decimal.Binary64
import NodeBootstrap.Text.Basic

/-!
# The shortest decimal that reads back

A finite number is written with the fewest significant digits that read back as the same number, and
among those with the digits nearest to it. The reals that round to a number form an interval, its
ends included exactly when the mantissa is even; for 1, 2, … 17 digits the two neighbours of the
number on that decimal grid are held against the interval, and the first grid with a hit wins.

`FloatLayout` holds what the digits do not decide: where positional notation ends, the mark of the
exponent and the texts of the numbers that have no digits.
-/

set_option autoImplicit false

namespace NodeBootstrap

/-- A positive decimal number `digits * 10^exponent`. -/
structure DecimalDigits where
  digits : Nat
  exponent : Int
  deriving DecidableEq, Repr

namespace Binary64

/-- The interval of reals that round to a positive number and the number itself, as numerators of
one denominator. Below a power of two the grid of numbers is twice as fine. -/
structure Interval where
  low : Nat
  value : Nat
  high : Nat
  den : Nat
  closed : Bool

/-- The interval of `mantissa * 2^exponent`. -/
def interval (mantissa : Nat) (exponent : Int) : Interval :=
  let atPower := mantissa = twoTo 52 ∧ leastExponent < exponent
  let quarter := exponent - 2
  let factor := if 0 ≤ quarter then twoTo quarter.toNat else 1
  { low := (4 * mantissa - if atPower then 1 else 2) * factor
    value := 4 * mantissa * factor
    high := (4 * mantissa + 2) * factor
    den := if 0 ≤ quarter then 1 else twoTo (-quarter).toNat
    closed := mantissa % 2 = 0 }

/-- The interval in units of `10^exponent`. -/
def Interval.inUnits (i : Interval) (exponent : Int) : Interval :=
  if 0 ≤ exponent then { i with den := i.den * tenTo exponent.toNat }
  else
    let factor := tenTo (-exponent).toNat
    { i with low := i.low * factor, value := i.value * factor, high := i.high * factor }

/-- Whether a whole number of units lies in an interval. -/
def Interval.contains (i : Interval) (n : Nat) : Bool :=
  if i.closed then i.low ≤ n * i.den && n * i.den ≤ i.high
  else i.low < n * i.den && n * i.den < i.high

/-- The neighbour of the value among the whole numbers of units that lies in the interval, the
nearer one if both do, the even one if they are equally near. -/
def Interval.neighbour? (i : Interval) : Option Nat :=
  let below := i.value / i.den
  let rest := i.value % i.den
  if rest = 0 then some below
  else
    match i.contains below, i.contains (below + 1) with
    | true, true =>
      if 2 * rest < i.den ∨ (2 * rest = i.den ∧ below % 2 = 0) then some below
      else some (below + 1)
    | true, false => some below
    | false, true => some (below + 1)
    | false, false => none

/-- The exponent of the leading decimal digit of a quotient. -/
def leadingExponent (num den : Nat) : Int :=
  let estimate : Int := Int.fdiv (((num.log2 : Int) - den.log2) * 30103) 100000
  let reaches (e : Int) : Bool :=
    if 0 ≤ e then den * tenTo e.toNat ≤ num else den ≤ num * tenTo (-e).toNat
  if reaches (estimate + 1) then estimate + 1
  else if reaches estimate then estimate
  else estimate - 1

/-- The first grid with a hit, from `count` digits on; `fuel` grids are tried. -/
def shortestFrom (i : Interval) (leading : Int) : Nat → Nat → DecimalDigits
  | 0, count =>
    let exponent := leading - count + 1
    let grid := i.inUnits exponent
    ⟨roundDiv grid.value grid.den, exponent⟩
  | fuel + 1, count =>
    let exponent := leading - count + 1
    match (i.inUnits exponent).neighbour? with
    | some n => ⟨n, exponent⟩
    | none => shortestFrom i leading fuel (count + 1)

/-- The shortest decimal that reads back as `mantissa * 2^exponent`. Seventeen digits always do. -/
def shortest (mantissa : Nat) (exponent : Int) : DecimalDigits :=
  let i := interval mantissa exponent
  shortestFrom i (leadingExponent i.value i.den) 16 1

end Binary64

/-- How floating-point numbers are laid out. The exponent meant is that of the leading digit. -/
structure FloatLayout where
  /-- The first exponent that is written positionally. -/
  positionalFrom : Int
  /-- The first exponent above it that is not. -/
  positionalBelow : Int
  /-- What stands before an exponent. -/
  exponentMark : Text
  /-- The least number of digits of an exponent. -/
  exponentWidth : Nat
  /-- What a whole number ends with in positional notation. -/
  wholeEnd : Text
  infinity : Text
  nan : Text

namespace FloatLayout

/-- An exponent with its sign. -/
def exponentText (layout : FloatLayout) (exponent : Int) : Text :=
  let digits := Text.ofNat exponent.natAbs
  layout.exponentMark ++ (if exponent < 0 then text "-" else text "+") ++
    List.replicate (layout.exponentWidth - digits.length) (.char '0') ++ digits

/-- Digits without the zeros at their end. -/
def significant (digits : Text) : Text := Text.dropRightWhile (· = .char '0') digits

/-- A positive decimal number. -/
def magnitude (layout : FloatLayout) (d : DecimalDigits) : Text :=
  let all := Text.ofNat d.digits
  let leading : Int := d.exponent + all.length - 1
  let digits := significant all
  if layout.positionalFrom ≤ leading ∧ leading < layout.positionalBelow then
    if leading < 0 then
      text "0." ++ List.replicate ((-leading).toNat - 1) (.char '0') ++ digits
    else
      let places := leading.toNat + 1
      if digits.length ≤ places then
        digits ++ List.replicate (places - digits.length) (.char '0') ++ layout.wholeEnd
      else digits.take places ++ text "." ++ digits.drop places
  else
    let fraction := digits.drop 1
    digits.take 1 ++ (if fraction.isEmpty then [] else text "." ++ fraction) ++
      layout.exponentText leading

/-- A floating-point number. -/
def write (layout : FloatLayout) : Binary64 → Text
  | .nan => layout.nan
  | .infinite negative => (if negative then text "-" else []) ++ layout.infinity
  | .finite negative mantissa exponent =>
    (if negative then text "-" else []) ++
      (if mantissa = 0 then text "0" ++ layout.wholeEnd
      else layout.magnitude (Binary64.shortest mantissa exponent))

end FloatLayout

end NodeBootstrap
