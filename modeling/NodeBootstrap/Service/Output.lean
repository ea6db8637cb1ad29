import NodeBootstrap.Text.Blank
import NodeBootstrap.Text.Word

/-!
# What the service control program prints

The program prints labels with values behind a colon. A label counts where a line begins with it,
blanks aside, and the blanks may reach over line ends: in front of the label, between it and the
colon and behind that. The first place in the output where a value can be read is the one that
counts.
-/

set_option autoImplicit false

namespace NodeBootstrap.ServiceOutput

/-- What follows a label and its colon at the beginning of a text, blanks in front of both aside. -/
def labelled? (label t : Text) : Option Text :=
  match Text.afterStart? (t.dropWhile CodePoint.isBlank) label with
  | none => none
  | some rest =>
    match rest.dropWhile CodePoint.isBlank with
    | .char ':' :: value => some value
    | _ => none

/-- The first that can be read at the start of a line. -/
def firstAtLineStart {α : Type} (read : Text → Option α) : Bool → Text → Option α
  | atStart, [] => if atStart then read [] else none
  | atStart, c :: rest =>
    match if atStart then read (c :: rest) else none with
    | some a => some a
    | none => firstAtLineStart read (c = .char '\n') rest

/-- A value up to the end of its line; one blank in front of it, a line end too, is passed over. -/
def restOfLine (value : Text) : Text :=
  let value :=
    match value with
    | c :: rest => if c.isBlank then rest else value
    | [] => []
  value.takeWhile (· ≠ .char '\n')

/-- The start command in the printed config of a service. -/
def startCommand? (output : Text) : Option Text :=
  (firstAtLineStart (labelled? (text "BINARY_PATH_NAME")) true output).map fun value =>
    (restOfLine value).stripped

/-- The word behind a number. -/
def wordBehindNumber? (value : Text) : Option Text :=
  let value := value.dropWhile CodePoint.isBlank
  let number := value.takeWhile CodePoint.isDecimalDigit
  let rest := value.dropWhile CodePoint.isDecimalDigit
  let word := (rest.dropWhile CodePoint.isBlank).takeWhile CodePoint.isWord
  if number.isEmpty || !rest.head?.any CodePoint.isBlank || word.isEmpty then none else some word

/-- The state in the printed status of a service. -/
def state? (output : Text) : Option Text :=
  firstAtLineStart (fun t => (labelled? (text "STATE") t).bind wordBehindNumber?) true output

end NodeBootstrap.ServiceOutput
