import NodeBootstrap.Text.Basic

/-!
# Days and moments

A day of the calendar that is in use today, or a moment of one with its distance from universal time
if that is known. `Timestamp.exists?` says whether the calendar and the clock have it.
-/

set_option autoImplicit false

namespace NodeBootstrap

/-- A time of day, to the microsecond. The offset is in minutes. -/
structure ClockTime where
  hour : Nat
  minute : Nat
  second : Nat
  microsecond : Nat
  offset : Option Int
  deriving DecidableEq, Repr, Inhabited

/-- A day, or a moment of one. -/
structure Timestamp where
  year : Nat
  month : Nat
  day : Nat
  time : Option ClockTime
  deriving DecidableEq, Repr, Inhabited

/-- Whether a year has a 29th of February. -/
def isLeapYear (year : Nat) : Bool := year % 4 = 0 && (year % 100 ≠ 0 || year % 400 = 0)

/-- How many days a month has. -/
def daysOfMonth (year month : Nat) : Nat :=
  if month = 2 then if isLeapYear year then 29 else 28
  else if month = 4 ∨ month = 6 ∨ month = 9 ∨ month = 11 then 30
  else 31

namespace Timestamp

/-- Whether there is such a day and such a time. Years go from 1 to 9999. -/
def exists? (t : Timestamp) : Bool :=
  1 ≤ t.year && t.year ≤ 9999 && 1 ≤ t.month && t.month ≤ 12 && 1 ≤ t.day &&
    t.day ≤ daysOfMonth t.year t.month &&
    t.time.all fun c => c.hour ≤ 23 && c.minute ≤ 59 && c.second ≤ 59

/-- A number with zeros in front, up to a width. -/
def padded (width n : Nat) : Text :=
  let digits := Text.ofNat n
  List.replicate (width - digits.length) (.char '0') ++ digits

/-- The text of an offset: a sign, hours and minutes. -/
def offsetText (minutes : Int) : Text :=
  text (if minutes < 0 then "-" else "+") ++ padded 2 (minutes.natAbs / 60) ++ text ":" ++
    padded 2 (minutes.natAbs % 60)

/-- The text of a time of day; a fraction is written only if there is one. -/
def clockText (c : ClockTime) : Text :=
  padded 2 c.hour ++ text ":" ++ padded 2 c.minute ++ text ":" ++ padded 2 c.second ++
    (if c.microsecond = 0 then [] else text "." ++ padded 6 c.microsecond) ++
    (c.offset.map offsetText).getD []

/-- The text of a day or a moment. -/
def display (t : Timestamp) : Text :=
  padded 4 t.year ++ text "-" ++ padded 2 t.month ++ text "-" ++ padded 2 t.day ++
    (t.time.map fun c => text " " ++ clockText c).getD []

end Timestamp

end NodeBootstrap
