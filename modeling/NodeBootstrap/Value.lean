import NodeBootstrap.Json.Basic
import NodeBootstrap.Text.Quoted
import NodeBootstrap.Timestamp

/-!
# Values of settings and flags

A setting can be of any kind that a settings file can write, and a flag is given one of them: texts
for the most part, but nothing keeps a file from writing a number or a list. Unlike a JSON object, a
mapping in a settings file can have keys of any kind.

A value has two texts. `Value.shown` is its text inside of messages and of other values, where texts
stand in quotes; `Value.display` is its text on its own, which for a text is the text itself.
-/

set_option autoImplicit false

namespace NodeBootstrap

/-- A value of a setting or of a flag. -/
inductive Value
  | null
  | bool (b : Bool)
  | int (n : Int)
  | float (x : Binary64)
  | timestamp (t : Timestamp)
  | text (t : Text)
  | list (items : List Value)
  /-- A list that is a key of a mapping. -/
  | tuple (items : List Value)
  | map (entries : List (Value × Value))
  deriving Inhabited

/-- What can be wrong with the kind of a value. -/
inductive KindFault
  /-- A value of this kind cannot stand here. -/
  | unusable
  /-- Something was asked of the value that values of this kind do not have. -/
  | noSuchPart
  deriving DecidableEq, Repr

namespace Value

/-- Floating-point numbers in messages: laid out as in documents, but for the words. -/
def floatLayout : FloatLayout where
  positionalFrom := -4
  positionalBelow := 16
  exponentMark := NodeBootstrap.text "e"
  exponentWidth := 2
  wholeEnd := NodeBootstrap.text ".0"
  infinity := NodeBootstrap.text "inf"
  nan := NodeBootstrap.text "nan"

mutual

/-- The text of a value inside of another text. -/
def shown : Value → Text
  | .null => NodeBootstrap.text "None"
  | .bool true => NodeBootstrap.text "True"
  | .bool false => NodeBootstrap.text "False"
  | .int n => Text.ofInt n
  | .float x => floatLayout.write x
  | .timestamp t => t.display
  | .text t => t.quoted
  | .list items =>
    NodeBootstrap.text "[" ++ Text.join (NodeBootstrap.text ", ") (shownItems items) ++
      NodeBootstrap.text "]"
  | .tuple items =>
    NodeBootstrap.text "(" ++ Text.join (NodeBootstrap.text ", ") (shownItems items) ++
      NodeBootstrap.text (if items.length = 1 then ",)" else ")")
  | .map entries =>
    NodeBootstrap.text "\x7b" ++ Text.join (NodeBootstrap.text ", ") (shownEntries entries) ++
      NodeBootstrap.text "\x7d"

/-- The items of a list, one text each. -/
def shownItems : List Value → List Text
  | [] => []
  | v :: rest => shown v :: shownItems rest

/-- The entries of a mapping, one text each. -/
def shownEntries : List (Value × Value) → List Text
  | [] => []
  | (k, v) :: rest => (shown k ++ NodeBootstrap.text ": " ++ shown v) :: shownEntries rest

end

/-- The text of a value on its own. -/
def display : Value → Text
  | .text t => t
  | v => v.shown

/-- Whether a value is none. -/
def isNull : Value → Bool
  | .null => true
  | _ => false

/-- The whole number of a value that counts; a truth value counts as one or zero. -/
def asCount? : Value → Option Int
  | .int n => some n
  | .bool b => some (if b then 1 else 0)
  | _ => none

/-- Empty and zero values count as absent where a value may be left out. -/
def isEmptyOrZero : Value → Bool
  | .null => true
  | .bool b => !b
  | .int n => n = 0
  | .float x => x.isZero
  | .timestamp _ => false
  | .text t => t.isEmpty
  | .list items | .tuple items => items.isEmpty
  | .map entries => entries.isEmpty

mutual

/-- A JSON value as a value. -/
def ofJson : Json → Value
  | .null => .null
  | .bool b => .bool b
  | .number l => if l.isWhole then .int l.wholeValue else .float l.binary
  | .nan => .float .nan
  | .infinite negative => .float (.infinite negative)
  | .string t => .text t
  | .array items => .list (ofJsonItems items)
  | .object members => .map (ofJsonMembers members)

/-- The items of an array as values. -/
def ofJsonItems : List Json → List Value
  | [] => []
  | v :: rest => ofJson v :: ofJsonItems rest

/-- The members of an object as entries. -/
def ofJsonMembers : List (Text × Json) → List (Value × Value)
  | [] => []
  | (k, v) :: rest => (.text k, ofJson v) :: ofJsonMembers rest

end

end Value

end NodeBootstrap
