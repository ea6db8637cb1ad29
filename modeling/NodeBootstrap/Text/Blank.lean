import NodeBootstrap.Text.Basic

/-!
# Blanks and lines

A blank is a code point that Unicode makes a space or a separator of lines, paragraphs or fields.
Flag values that hold one are quoted, commands are cut at them and lines are stripped of them.

A line ends at any of eleven boundaries, a carriage return together with the line feed that follows
it. `Text.lines` takes the boundaries away; `Text.stripped` takes the blanks from both ends.
-/

set_option autoImplicit false

namespace NodeBootstrap

/-- Whether a code point is a blank. -/
def CodePoint.isBlank (c : CodePoint) : Bool :=
  let n := c.toNat
  (0x09 ≤ n && n ≤ 0x0D) || (0x1C ≤ n && n ≤ 0x20) || n = 0x85 || n = 0xA0 || n = 0x1680 ||
    (0x2000 ≤ n && n ≤ 0x200A) || n = 0x2028 || n = 0x2029 || n = 0x202F || n = 0x205F || n = 0x3000

/-- Whether a code point ends a line. -/
def CodePoint.endsLine (c : CodePoint) : Bool :=
  let n := c.toNat
  (0x0A ≤ n && n ≤ 0x0D) || (0x1C ≤ n && n ≤ 0x1E) || n = 0x85 || n = 0x2028 || n = 0x2029

namespace Text

/-- Whether a text is made of blanks and has at least one. -/
def isBlank (t : Text) : Bool := !t.isEmpty && t.all CodePoint.isBlank

/-- A text without the blanks at its ends. -/
def stripped (t : Text) : Text := dropRightWhile CodePoint.isBlank (t.dropWhile CodePoint.isBlank)

/-- The lines of a text without their ends. A boundary at the very end opens no further line. -/
def lines : Text → List Text
  | [] => []
  | .char '\r' :: .char '\n' :: rest => [] :: lines rest
  | c :: rest =>
    if c.endsLine then [] :: lines rest
    else match lines rest with
      | [] => [[c]]
      | line :: others => (c :: line) :: others

end Text

end NodeBootstrap
