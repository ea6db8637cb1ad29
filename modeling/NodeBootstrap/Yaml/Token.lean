import NodeBootstrap.Json.Basic
import NodeBootstrap.Text.Utf8
import NodeBootstrap.Yaml.Fault
import NodeBootstrap.Yaml.Place

/-!
# Tokens of a YAML document

Tokens are the marks and scalars of a document, and the beginnings and ends of collections that only
the indentation shows. This module also reads those that begin with a mark of their own and have no
say in the layout: directives, anchors, references to anchors, and tags.
-/

set_option autoImplicit false

namespace NodeBootstrap.Yaml

/-- A line that says how the document is to be read. -/
inductive Directive
  | version (v : Version)
  /-- What a handle in tags stands for. -/
  | handle (name expansion : Text)
  /-- A directive of another kind, which has no effect. -/
  | other
  deriving DecidableEq, Repr

/-- A token. -/
inductive Token
  | directive (d : Directive)
  | documentStart
  | documentEnd
  | streamEnd
  | blockSequenceStart
  | blockMappingStart
  | blockEnd
  | flowSequenceStart
  | flowSequenceEnd
  | flowMappingStart
  | flowMappingEnd
  | flowEntry
  | blockEntry
  | key
  | value
  | reference (name : Text)
  | anchor (name : Text)
  /-- A tag by its handle, if it has one, and what stands behind that. -/
  | tag (handle : Option Text) (suffix : Text)
  | scalar (plain : Bool) (content : Text)
  deriving DecidableEq, Repr

namespace Property

/-! ## Anchors -/

/-- The characters of the name of an anchor. -/
def isAnchorCharacter (c : CodePoint) : Bool :=
  isAdmitted c && 0x20 < c.toNat && c.toNat ≠ 0x85 && c ≠ byteOrderMark &&
    !isOneOf ",[]\x7b\x7d" c

/-- The name of an anchor, from its mark on. -/
def anchorName (p : Place) : Except Fault (Text × Place) :=
  let (name, p) := p.step.run isAnchorCharacter
  if name.isEmpty then .error .malformed
  else if endsWordHere p.next || p.next.any (isOneOf ",[]\x7b\x7d") then .ok (name, p)
  else .error .malformed

/-! ## Tags -/

/-- Letters, digits, dashes and underscores. -/
def isHandleCharacter (c : CodePoint) : Bool := isLetterOrDigit c || isOneOf "-_" c

/-- A handle: an exclamation mark alone in front of a space, or a word between two of them. -/
def tagHandle (p : Place) : Except Fault (Text × Place) :=
  if p.next ≠ some (.char '!') then .error .malformed
  else if p.ahead 1 = some (.char ' ') then .ok (text "!", p.step)
  else
    let (word, behind) := p.step.run isHandleCharacter
    if behind.next = some (.char '!') then
      .ok (text "!" ++ word ++ text "!", behind.step)
    else .error .malformed

/-- The characters of what stands behind a handle; a percent sign begins an escape. -/
def isTagCharacter (version : Version) (c : CodePoint) : Bool :=
  isLetterOrDigit c || isOneOf "-;/?:@&=+$,_.!~*'()[]" c || (version ≠ .former && c = .char '#')

/-- The bytes of escapes in a row, and the place behind them. -/
def escapedBytes : Nat → Place → Except Fault (Bytes × Place)
  | 0, p => .ok ([], p)
  | fuel + 1, p =>
    match p.rest with
    | .char '%' :: digits =>
      match (digits.take 2).mapM CodePoint.hexValue? with
      | some [high, low] => do
        let (others, p) ← escapedBytes fuel (p.forward 3)
        return (UInt8.ofNat (16 * high + low) :: others, p)
      | _ => .error .malformed
    | _ => .ok ([], p)

/-- The runs of characters and escapes that stand behind a handle. -/
def tagPieces (version : Version) : Nat → Place → Except Fault (Text × Place)
  | 0, p => .ok ([], p)
  | fuel + 1, p => do
    let (plain, p) := p.run (isTagCharacter version)
    let (bytes, p) ← escapedBytes (p.rest.length + 1) p
    let escaped ← (Utf8.decode bytes).mapError fun _ => .malformed
    if plain.isEmpty ∧ bytes.isEmpty then return ([], p)
    let (others, p) ← tagPieces version fuel p
    return (plain ++ escaped ++ others, p)

/-- What stands behind a handle; it cannot be empty. -/
def tagSuffix (version : Version) (p : Place) : Except Fault (Text × Place) := do
  let (suffix, behind) ← tagPieces version (p.rest.length + 1) p
  if behind.index = p.index then throw .malformed
  return (suffix, behind)

/-- Whether a text has a second exclamation mark before it ends, so that a handle of its own stands
in front of it. -/
def hasHandle : Text → Bool
  | [] => false
  | c :: rest => c = .char '!' || (!endsPropertyHere (some c) && hasHandle rest)

/-- A tag, from its exclamation mark on: in full between angle brackets, the mark alone, or a handle
with what stands behind it. -/
def tag (version : Version) (p : Place) : Except Fault (Token × Place) := do
  let (token, behind) ←
    if p.ahead 1 = some (.char '<') then do
      let (suffix, p) ← tagSuffix version (p.forward 2)
      if p.next ≠ some (.char '>') then throw .malformed
      pure (Token.tag none suffix, p.step)
    else if endsWordHere (p.ahead 1) then pure (Token.tag none (text "!"), p.step)
    else do
      let (handle, p) ←
        if hasHandle p.step.rest then tagHandle p else pure (text "!", p.step)
      let (suffix, p) ← tagSuffix version p
      pure (Token.tag (some handle) suffix, p)
  if endsPropertyHere behind.next then return (token, behind) else throw .malformed

/-! ## Directives -/

/-- The characters of the name of a directive. -/
def isDirectiveCharacter (c : CodePoint) : Bool := isLetterOrDigit c || isOneOf "-_:." c

/-- A number of a version. -/
def versionNumber (p : Place) : Except Fault (Nat × Place) :=
  let (digits, p) := p.run CodePoint.isDigit
  if digits.isEmpty then .error .malformed else .ok (DecimalLiteral.digitsValue digits, p)

/-- Two numbers with a point between them. -/
def versionDirective (p : Place) : Except Fault (Directive × Place) := do
  let (major, p) ← versionNumber p.skipSpaces
  if p.next ≠ some (.char '.') then throw .malformed
  let (minor, p) ← versionNumber p.step
  if endsPropertyHere p.next then return (.version ⟨major, minor⟩, p) else throw .malformed

/-- A handle and what it stands for. -/
def handleDirective (version : Version) (p : Place) : Except Fault (Directive × Place) := do
  let (name, p) ← tagHandle p.skipSpaces
  if p.next ≠ some (.char ' ') then throw .malformed
  let (expansion, p) ← tagSuffix version p.skipSpaces
  if endsPropertyHere p.next then return (.handle name expansion, p) else throw .malformed

/-- A directive, from its percent sign on, and the place behind its line. -/
def directive (version : Version) (p : Place) : Except Fault (Directive × Place) := do
  let (name, p) := p.step.run isDirectiveCharacter
  if name.isEmpty ∨ !endsPropertyHere p.next then throw .malformed
  let (d, p) ←
    if name = text "YAML" then versionDirective p
    else if name = text "TAG" then handleDirective version p
    else pure (.other, p.skipLine)
  let p := p.skipSpaces
  let p := if p.next = some (.char '#') then p.skipLine else p
  if endsLineHere p.next then return (d, (p.break?.map (·.2)).getD p) else throw .malformed

end Property

end NodeBootstrap.Yaml
