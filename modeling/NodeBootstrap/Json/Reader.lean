import NodeBootstrap.Json.Basic
import NodeBootstrap.Text.Blank

/-!
# Reading JSON

A cursor is a place in a document: how many code points lie before it and the text from there on.
`Json.valueAt` reads the value at a cursor and gives the cursor behind it; the readers of whole
documents and of objects with spans both rest on it, so they share one grammar.

The grammar is that of JSON with three more words (`NaN`, `Infinity`, `-Infinity`). Strings hold no
raw control characters; an escape of a high surrogate half and an escape of a low one right behind
it are one character, and any other half stays alone. A number is the longest text that spells one.
A key written twice keeps its first place and its last value. Whole numbers have a limit of 4300
digits.

Faults are a reason and an offset. `Json.Fault.message` also gives line and column, so it needs the
document.
-/

set_option autoImplicit false

namespace NodeBootstrap

/-- A place in a document. -/
structure Cursor where
  offset : Nat
  rest : Text
  deriving DecidableEq, Repr

namespace Json

/-- Why a text is no JSON. -/
inductive Reason
  | expectingValue
  | expectingName
  | expectingColon
  | expectingComma
  | unterminatedString
  | controlCharacter
  | invalidEscape
  | invalidUnicodeEscape
  | extraData
  | tooManyDigits (count : Nat)
  deriving DecidableEq, Repr

/-- A reason and the place it was found at. -/
structure Fault where
  reason : Reason
  offset : Nat
  deriving DecidableEq, Repr

/-- The most digits that a whole number may have. -/
def digitLimit : Nat := 4300

/-- The words for a reason. -/
def Reason.message : Reason → Text
  | .expectingValue => text "Expecting value"
  | .expectingName => text "Expecting property name enclosed in double quotes"
  | .expectingColon => text "Expecting ':' delimiter"
  | .expectingComma => text "Expecting ',' delimiter"
  | .unterminatedString => text "Unterminated string starting at"
  | .controlCharacter => text "Invalid control character at"
  | .invalidEscape => text "Invalid \\escape"
  | .invalidUnicodeEscape => text "Invalid \\uXXXX escape"
  | .extraData => text "Extra data"
  | .tooManyDigits count =>
    text "Exceeds the limit (" ++ Text.ofNat digitLimit ++
      text " digits) for integer string conversion: value has " ++ Text.ofNat count ++
      text " digits; use sys.set_int_max_str_digits() to increase the limit"

/-- Reasons with their places in a document: line and column count from one, and a column counts
from the last line feed. Too many digits have no place. -/
def Fault.message (document : Text) (f : Fault) : Text :=
  match f.reason with
  | .tooManyDigits _ => f.reason.message
  | _ =>
    let before := document.take f.offset
    let line := before.count (.char '\n') + 1
    let column := (Text.takeRightWhile (· ≠ .char '\n') before).length + 1
    f.reason.message ++ text ": line " ++ Text.ofNat line ++ text " column " ++ Text.ofNat column ++
      text " (char " ++ Text.ofNat f.offset ++ text ")"

end Json

/-- The blanks between the parts of a document. -/
def CodePoint.isJsonBlank (c : CodePoint) : Bool :=
  c = .char ' ' || c = .char '\t' || c = .char '\n' || c = .char '\r'

namespace Cursor

/-- The start of a document. -/
def start (document : Text) : Cursor := ⟨0, document⟩

/-- A place in a document; none lies beyond the end. -/
def within (document : Text) (offset : Nat) : Cursor :=
  ⟨min offset document.length, document.drop offset⟩

/-- The first place that is no blank. -/
def skipBlanks (c : Cursor) : Cursor :=
  ⟨c.offset + (c.rest.takeWhile CodePoint.isJsonBlank).length,
    c.rest.dropWhile CodePoint.isJsonBlank⟩

end Cursor

namespace Json

/-! ## Strings -/

/-- The character that a letter behind a backslash stands for. -/
def simpleEscape? : CodePoint → Option CodePoint
  | .char '"' => some (.char '"')
  | .char '\\' => some (.char '\\')
  | .char '/' => some (.char '/')
  | .char 'b' => some (.char '\x08')
  | .char 'f' => some (.char '\x0c')
  | .char 'n' => some (.char '\n')
  | .char 'r' => some (.char '\r')
  | .char 't' => some (.char '\t')
  | _ => none

/-- The code point that four hexadecimal digits name. -/
def hexUnit? (a b c d : CodePoint) : Option CodePoint := do
  let a ← a.hexValue?
  let b ← b.hexValue?
  let c ← c.hexValue?
  let d ← d.hexValue?
  return .ofNat (((a * 16 + b) * 16 + c) * 16 + d)

/-- Whether a text begins with the escape of a low surrogate half. -/
def beginsWithLowEscape : Text → Bool
  | .char '\\' :: .char 'u' :: a :: b :: c :: d :: _ =>
    (hexUnit? a b c d).any CodePoint.isLowSurrogate
  | _ => false

/-- An escaped code point in front of the string that was read from `rest`. -/
def joinEscape (unit : CodePoint) (rest following : Text) : Text :=
  if unit.isHighSurrogate && beginsWithLowEscape rest then
    match following with
    | low :: others => .joinSurrogates unit low :: others
    | [] => [unit]
  else unit :: following

/-- The string up to its closing quote, and the cursor behind that. `opening` is the offset of the
opening quote, `offset` that of the text. A fault in an escape lies at its backslash, one in the
digits of an escape at the letter before them. -/
def stringBody (opening offset : Nat) : Text → Except Fault (Text × Cursor)
  | [] => .error ⟨.unterminatedString, opening⟩
  | .char '"' :: rest => .ok ([], ⟨offset + 1, rest⟩)
  | [.char '\\'] => .error ⟨.unterminatedString, opening⟩
  | .char '\\' :: .char 'u' :: a :: b :: c :: d :: rest =>
    match hexUnit? a b c d, rest with
    | some unit, _ :: _ => do
      let (following, behind) ← stringBody opening (offset + 6) rest
      return (joinEscape unit rest following, behind)
    | _, _ => .error ⟨.invalidUnicodeEscape, offset + 1⟩
  | .char '\\' :: .char 'u' :: _ => .error ⟨.invalidUnicodeEscape, offset + 1⟩
  | .char '\\' :: letter :: rest =>
    match simpleEscape? letter with
    | some c => do
      let (following, behind) ← stringBody opening (offset + 2) rest
      return (c :: following, behind)
    | none => .error ⟨.invalidEscape, offset⟩
  | c :: rest =>
    if c.toNat < 0x20 then .error ⟨.controlCharacter, offset⟩
    else do
      let (following, behind) ← stringBody opening (offset + 1) rest
      return (c :: following, behind)

/-! ## Numbers -/

/-- The digits that a text begins with and the rest. -/
def spanDigits (t : Text) : Text × Text :=
  (t.takeWhile CodePoint.isDigit, t.dropWhile CodePoint.isDigit)

/-- The whole part: a zero alone, or digits that begin with another. -/
def wholePart? : Text → Option (Text × Text)
  | [] => none
  | c :: rest =>
    if c = .char '0' then some ([c], rest)
    else if c.isDigit then some (spanDigits (c :: rest))
    else none

/-- The fraction behind a point; without a digit there the point is no part of the number. -/
def fractionPart (t : Text) : Text × Text :=
  match t with
  | .char '.' :: c :: rest => if c.isDigit then spanDigits (c :: rest) else ([], t)
  | _ => ([], t)

/-- The exponent from its mark on; without a digit the mark is no part of the number. -/
def exponentPart (t : Text) : Text × Text :=
  match t with
  | mark :: rest =>
    if mark = .char 'e' ∨ mark = .char 'E' then
      let (sign, digits) : Text × Text :=
        match rest with
        | c :: others => if c = .char '+' ∨ c = .char '-' then ([c], others) else ([], rest)
        | [] => ([], [])
      match spanDigits digits with
      | ([], _) => ([], t)
      | (found, behind) => (mark :: sign ++ found, behind)
    else ([], t)
  | [] => ([], t)

/-- The longest number that a text begins with, and the rest. -/
def numberAt? (t : Text) : Option (DecimalLiteral × Text) :=
  let (negative, unsigned) : Bool × Text :=
    match t with
    | .char '-' :: rest => (true, rest)
    | _ => (false, t)
  match wholePart? unsigned with
  | none => none
  | some (whole, rest) =>
    let (fraction, rest) := fractionPart rest
    let (exponent, rest) := exponentPart rest
    some (⟨negative, whole, fraction, exponent⟩, rest)

/-! ## Values -/

/-- The words that stand for values. -/
def words : List (Text × Json) :=
  [(text "null", .null), (text "true", .bool true), (text "false", .bool false), (text "NaN", .nan),
    (text "Infinity", .infinite false), (text "-Infinity", .infinite true)]

/-- The word that a text begins with. -/
def wordAt? (t : Text) : Option (Text × Json) := words.find? fun w => w.1.isPrefixOf t

/-- A value that is a word or a number. -/
def scalarAt (c : Cursor) : Except Fault (Json × Cursor) :=
  match wordAt? c.rest with
  | some (word, v) => .ok (v, ⟨c.offset + word.length, c.rest.drop word.length⟩)
  | none =>
    match numberAt? c.rest with
    | none => .error ⟨.expectingValue, c.offset⟩
    | some (l, rest) =>
      if l.isWhole ∧ digitLimit < l.whole.length then
        .error ⟨.tooManyDigits l.whole.length, c.offset⟩
      else .ok (.number l, ⟨c.offset + (c.rest.length - rest.length), rest⟩)

mutual

/-- The value at a cursor. Blanks are not skipped in front of it. -/
def readValue : Nat → Cursor → Except Fault (Json × Cursor)
  | 0, c => .error ⟨.expectingValue, c.offset⟩
  | fuel + 1, c =>
    match c.rest with
    | .char '"' :: rest => do
      let (s, behind) ← stringBody c.offset (c.offset + 1) rest
      return (.string s, behind)
    | .char '{' :: rest =>
      let inside := Cursor.skipBlanks ⟨c.offset + 1, rest⟩
      match inside.rest with
      | .char '}' :: rest => return (.object [], ⟨inside.offset + 1, rest⟩)
      | _ => do
        let (members, behind) ← readMembers fuel inside
        return (.object (OrderedMap.ofList members), behind)
    | .char '[' :: rest =>
      let inside := Cursor.skipBlanks ⟨c.offset + 1, rest⟩
      match inside.rest with
      | .char ']' :: rest => return (.array [], ⟨inside.offset + 1, rest⟩)
      | _ => do
        let (items, behind) ← readItems fuel inside
        return (.array items, behind)
    | _ => scalarAt c

/-- The members of an object from a key on, up to and with the closing brace. -/
def readMembers : Nat → Cursor → Except Fault (List (Text × Json) × Cursor)
  | 0, c => .error ⟨.expectingName, c.offset⟩
  | fuel + 1, c => do
    let .char '"' :: rest := c.rest | .error ⟨.expectingName, c.offset⟩
    let (key, behindKey) ← stringBody c.offset (c.offset + 1) rest
    let colon := behindKey.skipBlanks
    let .char ':' :: rest := colon.rest | .error ⟨.expectingColon, colon.offset⟩
    let (v, behind) ← readValue fuel (Cursor.skipBlanks ⟨colon.offset + 1, rest⟩)
    let comma := behind.skipBlanks
    match comma.rest with
    | .char '}' :: rest => return ([(key, v)], ⟨comma.offset + 1, rest⟩)
    | .char ',' :: rest =>
      let (members, behind) ← readMembers fuel (Cursor.skipBlanks ⟨comma.offset + 1, rest⟩)
      return ((key, v) :: members, behind)
    | _ => .error ⟨.expectingComma, comma.offset⟩

/-- The items of an array from the first on, up to and with the closing bracket. -/
def readItems : Nat → Cursor → Except Fault (List Json × Cursor)
  | 0, c => .error ⟨.expectingValue, c.offset⟩
  | fuel + 1, c => do
    let (v, behind) ← readValue fuel c
    let comma := behind.skipBlanks
    match comma.rest with
    | .char ']' :: rest => return ([v], ⟨comma.offset + 1, rest⟩)
    | .char ',' :: rest =>
      let (items, behind) ← readItems fuel (Cursor.skipBlanks ⟨comma.offset + 1, rest⟩)
      return (v :: items, behind)
    | _ => .error ⟨.expectingComma, comma.offset⟩

end

/-- The value at a cursor and the cursor behind it. Only the first item of an array is read without
a code point being taken, so two calls for each code point and one more are fuel enough. -/
def valueAt (c : Cursor) : Except Fault (Json × Cursor) := readValue (2 * c.rest.length + 1) c

/-- The one value of a document, blanks around it. -/
def ofText (document : Text) : Except Fault Json := do
  let (v, behind) ← valueAt (Cursor.start document).skipBlanks
  let last := behind.skipBlanks
  if last.rest.isEmpty then return v else .error ⟨.extraData, last.offset⟩

end Json

end NodeBootstrap
