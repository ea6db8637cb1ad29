import NodeBootstrap.Text.Printable

/-!
# Quoted text

Messages show a text in quotes, so that blanks and unprintable code points in it can be told apart.
Single quotes are used unless the text holds some and no double quote. Between them the quote and
the backslash are escaped, three control characters have letters, and every other code point that
is not printable is written by its number in two, four or eight hexadecimal digits.
-/

set_option autoImplicit false

namespace NodeBootstrap

/-- One code point between quotes of the given kind. -/
def CodePoint.quoted (quote : CodePoint) (c : CodePoint) : Text :=
  if c = quote ∨ c = .char '\\' then [.char '\\', c]
  else if c = .char '\n' then text "\\n"
  else if c = .char '\r' then text "\\r"
  else if c = .char '\t' then text "\\t"
  else if c.isPrintable then [c]
  else
    let n := c.toNat
    if n < 0x100 then text "\\x" ++ Text.ofHex 2 n
    else if n < 0x10000 then text "\\u" ++ Text.ofHex 4 n
    else text "\\U" ++ Text.ofHex 8 n

/-- The quote that a text is shown in. -/
def Text.quoteMark (t : Text) : CodePoint :=
  if .char '\'' ∈ t ∧ .char '"' ∉ t then .char '"' else .char '\''

/-- A text in quotes. -/
def Text.quoted (t : Text) : Text :=
  let quote := t.quoteMark
  quote :: t.flatMap (CodePoint.quoted quote) ++ [quote]

end NodeBootstrap
