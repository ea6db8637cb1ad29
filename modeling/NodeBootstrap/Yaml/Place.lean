import NodeBootstrap.Text.Basic

/-!
# Places in a YAML document

A place is the text from there on with what is needed to judge indentation: how much text lies
before it, and its line and column. Only a line feed ends a line here; the next-line character and
the two separators read as line breaks too, but the column goes on behind them. A byte order mark
takes no column.

The end of a document counts as a blank and as the end of a line, so the classes of characters are
over what a place may find in front of it.
-/

set_option autoImplicit false

namespace NodeBootstrap.Yaml

/-- A place in a document. -/
structure Place where
  rest : Text
  index : Nat
  line : Nat
  column : Nat
  deriving Repr

/-! ## Classes of characters -/

/-- A mark of the order of bytes, which shows nothing. -/
def byteOrderMark : CodePoint := .char '\ufeff'

/-- The ends of lines, and that of the document. -/
def endsLineHere : Option CodePoint → Bool
  | none => true
  | some c => c = .char '\n' || c = .char '\x85'

/-- What ends a word of a plain scalar, and makes an indicator in front of it one. -/
def endsWordHere (c : Option CodePoint) : Bool :=
  endsLineHere c || c = some (.char ' ') || c = some (.char '\t')

/-- The separators, which break a line and stay in the text. -/
def isSeparator (c : CodePoint) : Bool := c = .char '\u2028' || c = .char '\u2029'

/-- All that breaks a line. -/
def isBreak (c : CodePoint) : Bool := c = .char '\n' || c = .char '\x85' || isSeparator c

/-- What has to follow an anchor, a tag or a directive. -/
def endsPropertyHere : Option CodePoint → Bool
  | none => true
  | some c => c = .char ' ' || isBreak c

/-- Spaces and tabs. -/
def isSpaceOrTab (c : CodePoint) : Bool := c = .char ' ' || c = .char '\t'

/-- A character of a list. -/
def isOneOf (characters : String) (c : CodePoint) : Bool := (text characters).contains c

/-- The letters and digits of ASCII. -/
def isLetterOrDigit : CodePoint → Bool
  | .char c => c.isAlphanum
  | .surrogate _ => false

/-- What a document may hold: no control characters but a few blanks, and nothing that is no
character. -/
def isAdmitted (c : CodePoint) : Bool :=
  let n := c.toNat
  n = 0x9 || n = 0xA || n = 0xD || n = 0x85 || (0x20 ≤ n && n ≤ 0x7E) || (0xA0 ≤ n && n < 0xD800) ||
    (0xE000 ≤ n && n ≤ 0xFFFD) || 0x10000 ≤ n

namespace Place

/-- The start of a document. -/
def start (t : Text) : Place := ⟨t, 0, 0, 0⟩

/-- What lies some characters ahead. -/
def ahead (p : Place) (n : Nat) : Option CodePoint := p.rest[n]?

/-- The next character. -/
def next (p : Place) : Option CodePoint := p.rest.head?

/-- The place behind the next character. -/
def step (p : Place) : Place :=
  match p.rest with
  | [] => p
  | c :: rest =>
    if c = .char '\n' then ⟨rest, p.index + 1, p.line + 1, 0⟩
    else if c = byteOrderMark then ⟨rest, p.index + 1, p.line, p.column⟩
    else ⟨rest, p.index + 1, p.line, p.column + 1⟩

/-- The place some characters ahead. -/
def forward : Nat → Place → Place
  | 0, p => p
  | n + 1, p => forward n p.step

/-- The longest run of characters of a class, and the place behind it. -/
def run (p : Place) (inClass : CodePoint → Bool) : Text × Place :=
  let word := p.rest.takeWhile inClass
  (word, p.forward word.length)

/-- The place behind the characters of a class. -/
def skip (p : Place) (inClass : CodePoint → Bool) : Place := (p.run inClass).2

/-- The place behind spaces. -/
def skipSpaces (p : Place) : Place := p.skip (· = .char ' ')

/-- The place at the end of the line. -/
def skipLine (p : Place) : Place := p.skip fun c => !endsLineHere (some c)

/-- The line break in front of a place: what it reads as, and the place behind it. -/
def break? (p : Place) : Option (CodePoint × Place) :=
  match p.rest with
  | [] => none
  | c :: _ =>
    if isSeparator c then some (c, p.step)
    else if isBreak c then some (.char '\n', p.step)
    else none

/-- Whether three dashes stand in front of a place. -/
def atDocumentStart (p : Place) : Bool :=
  (Text.afterStart? p.rest (text "---")).any fun rest => endsWordHere rest.head?

/-- Whether three points stand in front of a place. -/
def atDocumentEnd (p : Place) : Bool :=
  (Text.afterStart? p.rest (text "...")).any fun rest => endsWordHere rest.head?

/-- Whether a line with the mark of a document stands in front of a place. -/
def atDocumentMark (p : Place) : Bool := p.atDocumentStart || p.atDocumentEnd

/-- What line breaks read as inside of a scalar that goes on behind them: a single line feed is a
space, and of several the first is left out. -/
def foldedBreaks (first : CodePoint) (others : Text) : Text :=
  if first ≠ .char '\n' then first :: others
  else if others.isEmpty then text " "
  else others

end Place

end NodeBootstrap.Yaml
