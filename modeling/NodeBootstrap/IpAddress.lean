import NodeBootstrap.Text.Basic

/-!
# Addresses of nodes

An address of version 4 is four decimal numbers below 256 between dots, without leading zeros. One
of version 6 is eight groups of up to four hexadecimal digits between colons; the last two groups
may be written as an address of version 4, and two colons in a row stand once for one group of zeros
or more.
-/

set_option autoImplicit false

namespace NodeBootstrap.IpAddress

/-- Whether a text is a number of an address of version 4. -/
def isOctet (t : Text) : Bool :=
  !t.isEmpty && t.length ≤ 3 && t.all CodePoint.isDigit &&
    (t.length = 1 || t.head? ≠ some (.char '0')) &&
    t.foldl (fun n c => 10 * n + (c.toNat - 48)) 0 < 256

/-- Whether a text is an address of version 4. -/
def isVersion4 (t : Text) : Bool :=
  let parts := Text.splitOn (.char '.') t
  parts.length = 4 && parts.all isOctet

/-- Whether a text is a group of an address of version 6. -/
def isGroup (t : Text) : Bool := !t.isEmpty && t.length ≤ 4 && t.all (·.hexValue?.isSome)

/-- The number of groups that a row of parts writes; only the last part may be of version 4. -/
def groupCount? (final : Bool) : List Text → Option Nat
  | [] => some 0
  | [part] =>
    if isGroup part then some 1 else if final && isVersion4 part then some 2 else none
  | part :: rest => if isGroup part then (groupCount? final rest).map (· + 1) else none

/-- The groups between colons; an empty text has none. -/
def groups (t : Text) : List Text := if t.isEmpty then [] else Text.splitOn (.char ':') t

/-- The texts before and behind the first two colons in a row. -/
def splitAtGap : Text → Text × Option Text
  | [] => ([], none)
  | .char ':' :: .char ':' :: rest => ([], some rest)
  | c :: rest =>
    let (before, behind) := splitAtGap rest
    (c :: before, behind)

/-- Whether a text is an address of version 6. -/
def isVersion6 (t : Text) : Bool :=
  match splitAtGap t with
  | (whole, none) => groupCount? true (groups whole) = some 8
  | (before, some behind) =>
    match groupCount? false (groups before), groupCount? true (groups behind) with
    | some m, some n => m + n ≤ 7
    | _, _ => false

/-- Whether a text is an address of either version. -/
def isValid (t : Text) : Bool := isVersion4 t || isVersion6 t

end NodeBootstrap.IpAddress
