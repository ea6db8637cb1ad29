import NodeBootstrap.Text.Basic

/-!
# Paths with slashes

Paths as the host that runs the program reads them: names between slashes, an absolute path begins
with a slash. Joining is on texts and resolves nothing; `normal` takes out what names nothing.
-/

set_option autoImplicit false

namespace NodeBootstrap.Path

/-- The separator of names. -/
def slash : CodePoint := .char '/'

/-- Whether a path begins with a slash. -/
def isAbsolute (path : Text) : Bool := path.head? = some slash

/-- Whether a path ends with a slash. -/
def endsInSlash (path : Text) : Bool := path.getLast? = some slash

/-- A path behind a directory; an absolute one leaves the directory behind. -/
def join (directory path : Text) : Text :=
  if isAbsolute path then path
  else if directory.isEmpty || endsInSlash directory then directory ++ path
  else directory ++ [slash] ++ path

/-- What follows the last slash. -/
def baseName (path : Text) : Text := Text.takeRightWhile (· ≠ slash) path

/-- A path up to its last slash and what follows that. Slashes at the end of the first part are
dropped unless there is nothing else in it. -/
def split (path : Text) : Text × Text :=
  let head := Text.dropRightWhile (· ≠ slash) path
  let shorter := Text.dropRightWhile (· = slash) head
  (if shorter.isEmpty then head else shorter, baseName path)

/-- The names of a path. -/
def names (path : Text) : List Text := (Text.splitOn slash path).filter (!·.isEmpty)

/-- The names of a path; one dot is dropped, and two dots take back the name before them. -/
def normalNames (path : Text) : List Text :=
  ((names path).foldl (fun back name =>
    if name = text "." then back
    else if name = text ".." ∧ back ≠ [] ∧ back.head? ≠ some (text "..") then back.drop 1
    else name :: back) []).reverse

/-- A path below the working directory without dots and spare slashes. -/
def normal (path : Text) : Text := Text.join [slash] (normalNames path)

end NodeBootstrap.Path
