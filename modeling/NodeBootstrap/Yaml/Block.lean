import NodeBootstrap.Yaml.Fault
import NodeBootstrap.Yaml.Place

/-!
# Block scalars

A block scalar is the lines that are indented deeper than what holds it. A literal one keeps its
line breaks; a folded one joins lines by a space, except next to lines that begin with a blank and
where lines are empty. The header says what becomes of the line breaks at the end, and may give the
indentation; otherwise the first line does.
-/

set_option autoImplicit false

namespace NodeBootstrap.Yaml.Block

/-- What becomes of the line breaks at the end of a block scalar. -/
inductive Ending
  /-- One stays. -/
  | clip
  | strip
  | keep
  deriving DecidableEq, Repr

/-- What stands behind the mark of a block scalar. -/
structure Header where
  ending : Ending
  indent : Option Nat
  deriving Repr

/-- The ending that a character asks for. -/
def ending? : CodePoint → Option Ending
  | .char '+' => some .keep
  | .char '-' => some .strip
  | _ => none

/-- The indentation that a character gives; zero is none. -/
def indent? (c : CodePoint) : Option Nat := if c.isDigit then some (c.toNat - 48) else none

/-- The two parts of a header, in either order. -/
def parts (p : Place) : Header × Place :=
  match p.next.bind ending?, p.next.bind indent? with
  | some ending, _ =>
    match p.step.next.bind indent? with
    | some n => (⟨ending, some n⟩, p.forward 2)
    | none => (⟨ending, none⟩, p.step)
  | none, some n =>
    match p.step.next.bind ending? with
    | some ending => (⟨ending, some n⟩, p.forward 2)
    | none => (⟨.clip, some n⟩, p.step)
  | none, none => (⟨.clip, none⟩, p)

/-- The header, and the place at the start of the next line. -/
def header (p : Place) : Except Fault (Header × Place) :=
  let (h, p) := parts p
  if h.indent = some 0 ∨ !endsPropertyHere p.next then .error .malformed
  else
    let p := p.skipSpaces
    let p := if p.next = some (.char '#') then p.skipLine else p
    if endsLineHere p.next then .ok (h, (p.break?.map (·.2)).getD p) else .error .malformed

/-- The empty lines before the first one that is not, with the deepest indentation among all of them
and the column at which the first empty line ended. -/
def firstLines : Nat → Place → Nat → Option Nat → Text × Nat × Option Nat × Place
  | 0, p, deepest, first => ([], deepest, first, p)
  | fuel + 1, p, deepest, first =>
    let (spaces, p) := p.run (· = .char ' ')
    let deepest := if spaces.isEmpty then deepest else max deepest p.column
    match p.break? with
    | none => ([], deepest, first, p)
    | some (c, behind) =>
      let (others, result) := firstLines fuel behind deepest (some (first.getD p.column))
      (c :: others, result)

/-- The place behind spaces, at most up to a column. -/
def skipIndent (indent : Nat) (p : Place) : Place :=
  p.forward (min (indent - p.column) (p.rest.takeWhile (· = .char ' ')).length)

/-- Empty lines, and the place behind the indentation of the next line. -/
def emptyLines (indent : Nat) : Nat → Place → Text × Place
  | 0, p => ([], p)
  | fuel + 1, p =>
    let p := skipIndent indent p
    match p.break? with
    | none => ([], p)
    | some (c, p) =>
      let (others, p) := emptyLines indent fuel p
      (c :: others, p)

/-- The lines of a block scalar: their text, the line break behind the last one, the empty lines
behind that, and the place there. -/
def lines (folded atRoot : Bool) (indent : Nat) :
    Nat → Text → Place → Text × Text × Text × Place
  | 0, empty, p => ([], [], empty, p)
  | fuel + 1, empty, p =>
    if p.column ≠ indent ∨ p.rest.isEmpty then ([], [], empty, p)
    else
      let beginsWithBlank := p.next.any isSpaceOrTab
      let (line, p) := p.run fun c => !endsLineHere (some c)
      let (lineBreak, p) : Text × Place :=
        match p.break? with
        | some (c, p) => ([c], p)
        | none => ([], p)
      let (following, p) := emptyLines indent (p.rest.length + 1) p
      if p.column ≠ indent ∨ p.rest.isEmpty ∨ (atRoot ∧ p.column = 0 ∧ p.atDocumentMark) then
        (empty ++ line, lineBreak, following, p)
      else
        let joint :=
          if folded ∧ lineBreak = text "\n" ∧ !beginsWithBlank ∧ !p.next.any isSpaceOrTab then
            if following.isEmpty then text " " else []
          else lineBreak
        let (others, result) := lines folded atRoot indent fuel following p
        (empty ++ line ++ joint ++ others, result)

/-- A block scalar from its mark on, and the place behind it. `indent` is the indentation of what
holds it, less than zero for a scalar that is the whole document. -/
def read (folded : Bool) (indent : Int) (p : Place) : Except Fault (Text × Place) := do
  let (h, p) ← header p.step
  let least := (indent + 1).toNat
  let fuel := p.rest.length + 1
  let (empty, width, p) ←
    match h.indent with
    | some n =>
      let width := max least 1 + n - 1
      let (empty, p) := emptyLines width fuel p
      pure (empty, width, p)
    | none =>
      let (empty, deepest, first, p) := firstLines fuel p 0 none
      if first.any fun column => 0 < column ∧ column < deepest then throw .malformed
      pure (empty, max least deepest, p)
  let atRoot := h.indent.isNone && least = 0
  let (content, lineBreak, following, p) := lines folded atRoot width fuel empty p
  return match h.ending with
    | .clip => (content ++ lineBreak, p)
    | .strip => (content, p)
    | .keep => (content ++ lineBreak ++ following, p)

end NodeBootstrap.Yaml.Block
