/-!
# Text

A text is a list of code points. Half of a surrogate pair can stand alone in a text: an escape in
a JSON string or a lenient decoder lets it through, and only writing the text as UTF-8 refuses it.
So a code point is a character or one of the 2048 surrogate halves.

Positions in a text count code points. `Text.le` is the order by code points in which names are
listed.
-/

set_option autoImplicit false

namespace NodeBootstrap

/-- One unit of text: a character, or half of a surrogate pair that stands alone. -/
inductive CodePoint
  | char (c : Char)
  | surrogate (half : Fin 2048)
  deriving DecidableEq, Repr, Inhabited

namespace CodePoint

/-- The number of a code point; the halves fill the gap that characters leave. -/
def toNat : CodePoint → Nat
  | .char c => c.toNat
  | .surrogate half => 0xD800 + half.val

/-- The code point of a number, `none` above U+10FFFF. -/
def ofNat? (n : Nat) : Option CodePoint :=
  if h : n.isValidChar then some (.char (Char.ofNatAux n h))
  else if h : 0xD800 ≤ n ∧ n < 0xE000 then some (.surrogate ⟨n - 0xD800, by omega⟩)
  else none

/-- The code point of a number; a number that is none reads as the replacement character. -/
def ofNat (n : Nat) : CodePoint := (ofNat? n).getD (.char '\ufffd')

/-- Whether a code point is half of a surrogate pair. -/
def isSurrogate : CodePoint → Bool
  | .char _ => false
  | .surrogate _ => true

/-- The halves that a host reads the bytes 0x80 to 0xFF of a name or an argument as, where they are
no UTF-8, and writes as those bytes again. -/
def isStrayByte (c : CodePoint) : Bool := 0xDC80 ≤ c.toNat && c.toNat < 0xDD00

/-- Whether a code point can stand in a name or an argument that a host takes as bytes. -/
def isSpellable (c : CodePoint) : Bool := c ≠ .char '\x00' && (!c.isSurrogate || c.isStrayByte)

/-- The first 1024 halves open a pair. -/
def isHighSurrogate (c : CodePoint) : Bool := 0xD800 ≤ c.toNat && c.toNat < 0xDC00

/-- The last 1024 halves close a pair. -/
def isLowSurrogate (c : CodePoint) : Bool := 0xDC00 ≤ c.toNat && c.toNat < 0xE000

/-- The character that two halves of a pair stand for. -/
def joinSurrogates (high low : CodePoint) : CodePoint :=
  ofNat (0x10000 + (high.toNat - 0xD800) * 0x400 + (low.toNat - 0xDC00))

/-- The ten decimal digits of ASCII; number spellings use no other. -/
def isDigit : CodePoint → Bool
  | .char c => c.isDigit
  | .surrogate _ => false

/-- The value of a hexadecimal digit of either case. -/
def hexValue? : CodePoint → Option Nat
  | .char c =>
    if '0' ≤ c && c ≤ '9' then some (c.toNat - '0'.toNat)
    else if 'a' ≤ c && c ≤ 'f' then some (c.toNat - 'a'.toNat + 10)
    else if 'A' ≤ c && c ≤ 'F' then some (c.toNat - 'A'.toNat + 10)
    else none
  | .surrogate _ => none

end CodePoint

/-- A text: code points in reading order. -/
abbrev Text := List CodePoint

/-- Texts that compare as equal are the same, so a text can be looked for in a list of texts. -/
instance : LawfulBEq Text := inferInstance

/-- Contents of a file or of a payload. -/
abbrev Bytes := List UInt8

/-- The text of a literal. -/
def text (s : String) : Text := s.toList.map .char

namespace Text

/-- The characters of a text as a string, if no surrogate half stands alone in it. -/
def toString? (t : Text) : Option String :=
  (t.mapM fun
    | CodePoint.char c => some c
    | CodePoint.surrogate _ => none).map String.ofList

/-- A natural number in decimal digits. -/
def ofNat (n : Nat) : Text := (Nat.toDigits 10 n).map .char

/-- An integer in decimal digits, with a minus sign when it is negative. -/
def ofInt : Int → Text
  | .ofNat n => ofNat n
  | .negSucc n => .char '-' :: ofNat (n + 1)

/-- A number in lower-case hexadecimal digits, filled up with zeros to a width. -/
def ofHex (width n : Nat) : Text :=
  let digits := Nat.toDigits 16 n
  (List.replicate (width - digits.length) '0' ++ digits).map .char

/-- Parts with a separator between each two. -/
def join (separator : Text) (parts : List Text) : Text := List.intercalate separator parts

/-- The text before the first separator and, if there is one, the text after it. -/
def splitOnce (separator : CodePoint) : Text → Text × Option Text
  | [] => ([], none)
  | c :: rest =>
    if c = separator then ([], some rest)
    else
      let (before, after) := splitOnce separator rest
      (c :: before, after)

/-- The parts between separators; a text without one is its only part. -/
def splitOn (separator : CodePoint) : Text → List Text
  | [] => [[]]
  | c :: rest =>
    if c = separator then [] :: splitOn separator rest
    else match splitOn separator rest with
      | [] => [[c]]
      | part :: parts => (c :: part) :: parts

/-- What follows a beginning, if the text has it. -/
def afterStart? : Text → Text → Option Text
  | t, [] => some t
  | [], _ :: _ => none
  | c :: t, d :: start => if c = d then afterStart? t start else none

/-- A text without its last code points of a class. -/
def dropRightWhile (p : CodePoint → Bool) (t : Text) : Text := (t.reverse.dropWhile p).reverse

/-- The last code points of a class. -/
def takeRightWhile (p : CodePoint → Bool) (t : Text) : Text := (t.reverse.takeWhile p).reverse

/-- The order by code points, a text before its extensions. -/
def le : Text → Text → Bool
  | [], _ => true
  | _ :: _, [] => false
  | a :: s, b :: t => if a = b then le s t else a.toNat < b.toNat

/-- Texts in the order by code points; equal ones keep their order. -/
def sort (ts : List Text) : List Text := ts.mergeSort le

end Text

end NodeBootstrap
