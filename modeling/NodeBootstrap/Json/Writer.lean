import NodeBootstrap.Json.Basic

/-!
# Writing JSON

One writer with a layout: the texts between items and behind keys, and whether strings are kept to
ASCII. In either case quotes, backslashes and control characters are escaped; in ASCII every code
point outside the printable range is, those above U+FFFF as two surrogate halves.

Numbers are written by value and not by spelling: whole numbers in plain digits, others in the
shortest form that reads back.
-/

set_option autoImplicit false

namespace NodeBootstrap.Json

/-- How a document is laid out. -/
structure Layout where
  itemSeparator : Text
  keySeparator : Text
  asciiOnly : Bool

/-- Without blanks, and code points as they are. -/
def Layout.compact : Layout := ⟨text ",", text ":", false⟩

/-- A blank behind separators, and ASCII only. -/
def Layout.spaced : Layout := ⟨text ", ", text ": ", true⟩

/-- Floating-point numbers in documents: positional from 10^-4 to below 10^16, with a point and a
zero if they are whole, and otherwise with an exponent of at least two digits. -/
def floatLayout : FloatLayout where
  positionalFrom := -4
  positionalBelow := 16
  exponentMark := text "e"
  exponentWidth := 2
  wholeEnd := text ".0"
  infinity := text "Infinity"
  nan := text "NaN"

/-- The letter that a code point is escaped with. -/
def escapeLetter? : CodePoint → Option Char
  | .char '"' => some '"'
  | .char '\\' => some '\\'
  | .char '\n' => some 'n'
  | .char '\r' => some 'r'
  | .char '\t' => some 't'
  | .char '\x0c' => some 'f'
  | .char '\x08' => some 'b'
  | _ => none

/-- A code point by its number: one unit, or two above U+FFFF. -/
def unicodeEscape (n : Nat) : Text :=
  if n < 0x10000 then text "\\u" ++ Text.ofHex 4 n
  else
    text "\\u" ++ Text.ofHex 4 (0xD800 + (n - 0x10000) / 0x400) ++
      text "\\u" ++ Text.ofHex 4 (0xDC00 + (n - 0x10000) % 0x400)

/-- One code point of a string. -/
def escaped (asciiOnly : Bool) (c : CodePoint) : Text :=
  match escapeLetter? c with
  | some letter => [.char '\\', .char letter]
  | none =>
    if c.toNat < 0x20 ∨ (asciiOnly ∧ 0x7E < c.toNat) then unicodeEscape c.toNat else [c]

/-- A string in quotes. -/
def stringText (asciiOnly : Bool) (t : Text) : Text :=
  .char '"' :: t.flatMap (escaped asciiOnly) ++ [.char '"']

mutual

/-- A value. -/
def write (layout : Layout) : Json → Text
  | .null => text "null"
  | .bool true => text "true"
  | .bool false => text "false"
  | .number l => if l.isWhole then Text.ofInt l.wholeValue else floatLayout.write l.binary
  | .nan => floatLayout.nan
  | .infinite negative => (if negative then text "-" else []) ++ floatLayout.infinity
  | .string t => stringText layout.asciiOnly t
  | .array items => text "[" ++ Text.join layout.itemSeparator (writeItems layout items) ++ text "]"
  | .object members =>
    text "\x7b" ++ Text.join layout.itemSeparator (writeMembers layout members) ++ text "\x7d"

/-- The items of an array, one text each. -/
def writeItems (layout : Layout) : List Json → List Text
  | [] => []
  | v :: rest => write layout v :: writeItems layout rest

/-- The members of an object, one text each. -/
def writeMembers (layout : Layout) : List (Text × Json) → List Text
  | [] => []
  | (key, v) :: rest =>
    (stringText layout.asciiOnly key ++ layout.keySeparator ++ write layout v) ::
      writeMembers layout rest

end

end NodeBootstrap.Json
