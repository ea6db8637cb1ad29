import NodeBootstrap.Text.Basic

/-!
# Words of a command

A command is split into words as a shell splits it. Words are separated by spaces, tabs, carriage
returns and line feeds outside of quotes; a quoted part may stand anywhere in a word and an empty
one makes a word. A backslash takes the next code point as it is; in double quotes only a backslash
and a double quote are taken so, and before any other the backslash stays. Single quotes hide
everything.
-/

set_option autoImplicit false

namespace NodeBootstrap.ShellWords

/-- Why a command cannot be split. -/
inductive Fault
  | noClosingQuotation
  | noEscapedCharacter
  deriving DecidableEq, Repr

/-- The words for a fault. -/
def Fault.message : Fault → Text
  | .noClosingQuotation => text "No closing quotation"
  | .noEscapedCharacter => text "No escaped character"

/-- What separates words. -/
def isSeparator (c : CodePoint) : Bool :=
  c = .char ' ' || c = .char '\t' || c = .char '\r' || c = .char '\n'

/-- Where the reader of a command stands. -/
inductive Place
  /-- Between two words. -/
  | between
  /-- In a word, outside of quotes. -/
  | bare
  /-- Behind a backslash outside of quotes. -/
  | bareEscape
  /-- Inside of single quotes. -/
  | single
  /-- Inside of double quotes. -/
  | double
  /-- Behind a backslash inside of double quotes. -/
  | doubleEscape
  deriving DecidableEq, Repr

/-- The words of the rest of a command; `word` is what has been read of the current one. -/
def splitFrom : Place → Text → Text → Except Fault (List Text)
  | .between, _, [] => .ok []
  | .bare, word, [] => .ok [word]
  | .single, _, [] | .double, _, [] => .error .noClosingQuotation
  | .bareEscape, _, [] | .doubleEscape, _, [] => .error .noEscapedCharacter
  | .between, word, c :: rest =>
    if isSeparator c then splitFrom .between word rest
    else if c = .char '\\' then splitFrom .bareEscape [] rest
    else if c = .char '\'' then splitFrom .single [] rest
    else if c = .char '"' then splitFrom .double [] rest
    else splitFrom .bare [c] rest
  | .bare, word, c :: rest =>
    if isSeparator c then (splitFrom .between [] rest).map (word :: ·)
    else if c = .char '\\' then splitFrom .bareEscape word rest
    else if c = .char '\'' then splitFrom .single word rest
    else if c = .char '"' then splitFrom .double word rest
    else splitFrom .bare (word ++ [c]) rest
  | .bareEscape, word, c :: rest => splitFrom .bare (word ++ [c]) rest
  | .single, word, c :: rest =>
    if c = .char '\'' then splitFrom .bare word rest else splitFrom .single (word ++ [c]) rest
  | .double, word, c :: rest =>
    if c = .char '"' then splitFrom .bare word rest
    else if c = .char '\\' then splitFrom .doubleEscape word rest
    else splitFrom .double (word ++ [c]) rest
  | .doubleEscape, word, c :: rest =>
    if c = .char '\\' ∨ c = .char '"' then splitFrom .double (word ++ [c]) rest
    else splitFrom .double (word ++ [.char '\\', c]) rest

/-- The words of a command. -/
def split (command : Text) : Except Fault (List Text) := splitFrom .between [] command

end NodeBootstrap.ShellWords
