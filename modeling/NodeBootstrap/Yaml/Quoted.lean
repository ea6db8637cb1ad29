import NodeBootstrap.Yaml.Fault
import NodeBootstrap.Yaml.Place

/-!
# Quoted scalars

Between single quotes all characters stand for themselves, and a quote is written twice. Between
double quotes a backslash begins an escape. In both, line breaks with the blanks around them read as
in plain scalars, an escaped line break as nothing, and the mark of a document may not stand inside.
-/

set_option autoImplicit false

namespace NodeBootstrap.Yaml.Quoted

/-- The character that a letter behind a backslash stands for. -/
def escape? : CodePoint → Option CodePoint
  | .char '0' => some (.char '\x00')
  | .char 'a' => some (.char '\x07')
  | .char 'b' => some (.char '\x08')
  | .char 't' => some (.char '\t')
  | .char '\t' => some (.char '\t')
  | .char 'n' => some (.char '\n')
  | .char 'v' => some (.char '\x0b')
  | .char 'f' => some (.char '\x0c')
  | .char 'r' => some (.char '\r')
  | .char 'e' => some (.char '\x1b')
  | .char ' ' => some (.char ' ')
  | .char '"' => some (.char '"')
  | .char '/' => some (.char '/')
  | .char '\\' => some (.char '\\')
  | .char 'N' => some (.char '\x85')
  | .char '_' => some (.char '\xa0')
  | .char 'L' => some (.char '\u2028')
  | .char 'P' => some (.char '\u2029')
  | _ => none

/-- The count of hexadecimal digits behind a letter behind a backslash. -/
def digitCount? : CodePoint → Option Nat
  | .char 'x' => some 2
  | .char 'u' => some 4
  | .char 'U' => some 8
  | _ => none

/-- The code point that hexadecimal digits name. -/
def coded (count : Nat) (t : Text) : Except Fault CodePoint :=
  match (t.take count).mapM CodePoint.hexValue? with
  | some digits =>
    if digits.length < count then .error .malformed
    else
      let code := digits.foldl (fun n d => 16 * n + d) 0
      match CodePoint.ofNat? code with
      | some c => .ok c
      | none => .error (.noSuchCharacter code)
  | none => .error .malformed

/-- Line breaks and the blanks among them, up to a text. -/
def breaks : Nat → Place → Except Fault (Text × Place)
  | 0, p => .ok ([], p)
  | fuel + 1, p =>
    if p.atDocumentMark then .error .malformed
    else
      let p := p.skip isSpaceOrTab
      match p.break? with
      | none => .ok ([], p)
      | some (c, p) => do
        let (others, p) ← breaks fuel p
        return (c :: others, p)

/-- An escape, from the letter behind the backslash on. -/
def escape (p : Place) : Except Fault (Text × Place) :=
  match p.next with
  | none => .error .malformed
  | some letter =>
    match escape? letter, digitCount? letter, p.break? with
    | some c, _, _ => .ok ([c], p.step)
    | none, some count, _ => do
      let c ← coded count p.step.rest
      return ([c], p.step.forward count)
    | none, none, some (_, behind) => breaks (p.rest.length + 1) behind
    | none, none, none => .error .malformed

/-- Blanks and line breaks inside of a scalar. -/
def blanks (p : Place) : Except Fault (Text × Place) :=
  let (spaces, p) := p.run isSpaceOrTab
  match p.break? with
  | none => .ok (spaces, p)
  | some (first, p) => do
    let (others, p) ← breaks (p.rest.length + 1) p
    return (Place.foldedBreaks first others, p)

/-- The scalar up to its closing quote, and the place behind that. -/
def contents (double : Bool) : Nat → Place → Except Fault (Text × Place)
  | 0, _ => .error .malformed
  | fuel + 1, p =>
    match p.next with
    | none => .error .malformed
    | some c =>
      let quote := CodePoint.char (if double then '"' else '\x27')
      if c = quote then
        if !double ∧ p.ahead 1 = some quote then do
          let (others, behind) ← contents double fuel (p.forward 2)
          return (quote :: others, behind)
        else .ok ([], p.step)
      else do
        let (piece, p) ←
          if double ∧ c = .char '\\' then escape p.step
          else if isSpaceOrTab c ∨ isBreak c then blanks p
          else .ok ([c], p.step)
        let (others, behind) ← contents double fuel p
        return (piece ++ others, behind)

/-- A quoted scalar from its opening quote on, and the place behind it. -/
def read (double : Bool) (p : Place) : Except Fault (Text × Place) :=
  contents double (p.rest.length + 1) p.step

end NodeBootstrap.Yaml.Quoted
