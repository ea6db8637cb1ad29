import NodeBootstrap.OrderedMap
import NodeBootstrap.Decimal.Shortest

/-!
# JSON documents

A document as a tree. A number keeps its spelling in parts, so that nothing is lost before somebody
asks what it is worth: without fraction and exponent it is a whole number of any size, otherwise the
nearest floating-point number. Three words stand for numbers that have no digits.

The members of an object have distinct keys in the order in which those were first written.
-/

set_option autoImplicit false

namespace NodeBootstrap

/-- A number as it is spelled: digits before the point, digits after it (none without a point), and
from the mark on an exponent (nothing without one). -/
structure DecimalLiteral where
  negative : Bool
  whole : Text
  fraction : Text
  exponent : Text
  deriving DecidableEq, Repr

namespace DecimalLiteral

/-- The number that a row of decimal digits writes. -/
def digitsValue (digits : Text) : Nat :=
  digits.foldl (fun n c => 10 * n + (c.toNat - 48)) 0

/-- Whether a number is spelled as a whole number. -/
def isWhole (l : DecimalLiteral) : Bool := l.fraction.isEmpty && l.exponent.isEmpty

/-- The text of a number. -/
def spelling (l : DecimalLiteral) : Text :=
  (if l.negative then text "-" else []) ++ l.whole ++
    (if l.fraction.isEmpty then [] else text "." ++ l.fraction) ++ l.exponent

/-- The value of a whole number. -/
def wholeValue (l : DecimalLiteral) : Int :=
  let n : Int := digitsValue l.whole
  if l.negative then -n else n

/-- The value of an exponent from its mark on; zero without one. -/
def exponentValue (l : DecimalLiteral) : Int :=
  match l.exponent.drop 1 with
  | .char '-' :: digits => -(digitsValue digits : Int)
  | .char '+' :: digits => digitsValue digits
  | digits => digitsValue digits

/-- The nearest floating-point number. -/
def binary (l : DecimalLiteral) : Binary64 :=
  .ofDecimal l.negative (digitsValue (l.whole ++ l.fraction)) (l.exponentValue - l.fraction.length)

end DecimalLiteral

/-- A JSON value. -/
inductive Json
  | null
  | bool (b : Bool)
  | number (literal : DecimalLiteral)
  | nan
  | infinite (negative : Bool)
  | string (t : Text)
  | array (items : List Json)
  | object (members : List (Text × Json))
  deriving Inhabited

namespace Json

/-- The value of a member of an object. -/
def member? (key : Text) : Json → Option Json
  | .object members => OrderedMap.get? members key
  | _ => none

/-- Empty and zero values count as absent where a part of a document may be left out. -/
def isEmptyOrZero : Json → Bool
  | .null => true
  | .bool b => !b
  | .number l => if l.isWhole then l.wholeValue = 0 else l.binary.isZero
  | .nan => false
  | .infinite _ => false
  | .string t => t.isEmpty
  | .array items => items.isEmpty
  | .object members => members.isEmpty

end Json

end NodeBootstrap
