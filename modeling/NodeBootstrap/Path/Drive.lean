import NodeBootstrap.Text.Case

/-!
# Paths with drives

Paths as the Windows node reads them. Both slashes separate names. In front may stand a drive: any
one code point and a colon, or the host and share of a network path (`\\host\share`, also written
`\\?\UNC\host\share`), or a device. A network path that is cut off before its third separator is
drive altogether.

`join` puts a path behind another: an absolute path replaces the other from its root on, a path on
another drive replaces it altogether. Drives are compared without regard to case.
-/

set_option autoImplicit false

namespace NodeBootstrap.DrivePath

/-- The separator that is written. -/
def backslash : CodePoint := .char '\\'

/-- Whether a code point separates names. -/
def isSeparator (c : CodePoint) : Bool := c = .char '\\' || c = .char '/'

/-- What begins the long spelling of a network path, in capitals. -/
def longNetworkMark : Text := text "\\\\?\\UNC\\"

/-- ASCII letters in capitals. -/
def capitals (t : Text) : Text :=
  t.map fun
    | CodePoint.char c => .char c.toUpper
    | c => c

/-- The place of the first backslash at or behind a place. -/
def backslashFrom? (t : Text) (start : Nat) : Option Nat :=
  ((t.drop start).findIdx? (· = backslash)).map (· + start)

/-- The drive of a path and the path on it. -/
def splitDrive (path : Text) : Text × Text :=
  let even : Text := path.map fun c => if c = .char '/' then backslash else c
  if even.take 2 = [backslash, backslash] then
    let start := if capitals (even.take 8) = longNetworkMark then 8 else 2
    match backslashFrom? even start with
    | none => (path, [])
    | some i =>
      match backslashFrom? even (i + 1) with
      | none => (path, [])
      | some j => (path.take j, path.drop j)
  else if even[1]? = some (.char ':') then (path.take 2, path.drop 2)
  else ([], path)

/-- What follows the last separator on the drive. -/
def baseName (path : Text) : Text := Text.takeRightWhile (!isSeparator ·) (splitDrive path).2

/-- A drive and a path on it as one path. Behind a host and share a separator is put in. -/
def glue (drive path : Text) : Text :=
  if path.head?.any (!isSeparator ·) && drive.getLast?.any (· ≠ .char ':') then
    drive ++ [backslash] ++ path
  else drive ++ path

/-- A path behind a directory. -/
def join (directory path : Text) : Text :=
  let (drive, base) := splitDrive directory
  let (newDrive, new) := splitDrive path
  if new.head?.any isSeparator then
    glue (if !newDrive.isEmpty || drive.isEmpty then newDrive else drive) new
  else if !newDrive.isEmpty && newDrive.lowerCase ≠ drive.lowerCase then glue newDrive new
  else
    let drive := if newDrive.isEmpty then drive else newDrive
    let base := if base.getLast?.any (!isSeparator ·) then base ++ [backslash] else base
    glue drive (base ++ new)

end NodeBootstrap.DrivePath
