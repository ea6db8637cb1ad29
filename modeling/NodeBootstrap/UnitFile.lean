import NodeBootstrap.Path.Slash
import NodeBootstrap.Text.Blank

/-!
# Unit files

The start command of a unit: the first line that begins, blanks aside, with `ExecStart=`. A line
that ends with a backslash goes on with the next one; the pieces are stripped and joined by one
blank each, and empty ones are left out. A command that ends with a backslash at the end of the file
goes on with nothing.
-/

set_option autoImplicit false

namespace NodeBootstrap.UnitFile

/-- What the line of a start command begins with. -/
def execStartMark : Text := text "ExecStart="

/-- Whether a line goes on with the next one. -/
def continues (line : Text) : Bool := line.getLast? = some (.char '\\')

/-- The pieces of a command: the first as it is given and the others from the lines behind it. -/
def pieces (piece : Text) : List Text → List Text
  | [] => if continues piece then [Text.stripped piece.dropLast, []] else [piece]
  | line :: rest =>
    if continues piece then Text.stripped piece.dropLast :: pieces (Text.stripped line) rest
    else [piece]

/-- The start command in the lines of a unit. -/
def execStartIn : List Text → Option Text
  | [] => none
  | line :: rest =>
    match (Text.stripped line).afterStart? execStartMark with
    | some piece => some (Text.join (text " ") ((pieces piece rest).filter (!·.isEmpty)))
    | none => execStartIn rest

/-- The start command of a unit. -/
def execStart? (contents : Text) : Option Text := execStartIn (Text.lines contents)

/-- The name of the file that a flag of a unit points at: `none` if the path names no file. -/
def fileNameOf? (path : Text) : Option Text :=
  let name := Path.baseName path
  if name = [] ∨ name = text "." ∨ name = text ".." then none else some name

end NodeBootstrap.UnitFile
