import NodeBootstrap.Yaml.Block
import NodeBootstrap.Yaml.Plain
import NodeBootstrap.Yaml.Quoted
import NodeBootstrap.Yaml.Token

/-!
# Layout

The tokens of a document with its indentation made explicit. Outside of flow collections a token
that stands deeper than the collection around it begins a collection, and one that stands less deep
ends those that stand deeper.

Whether a scalar or a flow collection is a key shows only at the colon behind it. So each that could
be one is kept as a candidate: the first token of a line, or one behind a mark that allows a key.
The colon then puts the mark of a key in front of the candidate. A candidate must lie in one line
and within 1024 characters, and one that begins a line of a block mapping must turn out to be a key.

`Tokens.ofText` stops at the first fault. What reads the tokens meets it only when it needs a token
that is not there, so a fault of the structure further up comes first.
-/

set_option autoImplicit false

namespace NodeBootstrap.Yaml

/-- The tokens of a document up to a fault; a document without one ends by the mark of its end. -/
structure Tokens where
  ready : List Token
  fault : Fault

/-- A kind of flow collection. -/
inductive FlowKind
  | sequence
  | mapping
  deriving DecidableEq, Repr

/-- A token that may turn out to begin a key: its number, the depth of the flow collections around
it, and where it stands. -/
structure KeyCandidate where
  token : Nat
  depth : Nat
  required : Bool
  index : Nat
  line : Nat
  column : Nat
  deriving Repr

/-- How far a document has been read. -/
structure Layout where
  place : Place
  version : Version
  /-- The open flow collections, the innermost first. -/
  flow : List FlowKind
  /-- The column of the innermost block collection, less than zero outside of all. -/
  indent : Int
  /-- The columns of the block collections around it. -/
  outer : List Int
  /-- Whether the next token may begin a key. -/
  keyAllowed : Bool
  candidates : List KeyCandidate
  /-- The tokens so far, the last first. -/
  tokens : List Token
  /-- How many there are. -/
  count : Nat
  /-- Tokens that belong in front of the one with a number. -/
  insertions : List (Nat × List Token)

namespace Layout

/-- The start of a document. -/
def start (t : Text) : Layout :=
  let place := Place.start t
  { place := if place.next = some byteOrderMark then place.step else place
    version := .current
    flow := []
    indent := -1
    outer := []
    keyAllowed := true
    candidates := []
    tokens := []
    count := 0
    insertions := [] }

/-- Whether no flow collection is open. -/
def inBlock (l : Layout) : Bool := l.flow.isEmpty

/-- The layout with one more token. -/
def emit (l : Layout) (t : Token) : Layout :=
  { l with tokens := t :: l.tokens, count := l.count + 1 }

/-! ## Candidates -/

/-- The candidate among the open collections of the same depth. -/
def candidate? (l : Layout) : Option KeyCandidate :=
  l.candidates.find? fun c => c.depth = l.flow.length

/-- The layout without that candidate; one that had to be a key is missing its colon. -/
def dropCandidate (l : Layout) : Except Fault Layout :=
  match l.candidate? with
  | none => .ok l
  | some c =>
    if c.required then .error .malformed
    else .ok { l with candidates := l.candidates.filter fun c => c.depth ≠ l.flow.length }

/-- The layout without the candidates that lie too far back. -/
def dropStale (l : Layout) : Except Fault Layout :=
  let isStale (c : KeyCandidate) : Bool :=
    c.line ≠ l.place.line || c.index + 1024 < l.place.index
  if l.candidates.any fun c => isStale c && c.required then .error .malformed
  else .ok { l with candidates := l.candidates.filter fun c => !isStale c }

/-- The layout with the next token as a candidate, if a key may begin there. -/
def addCandidate (l : Layout) : Except Fault Layout :=
  if !l.keyAllowed then .ok l
  else do
    let l ← l.dropCandidate
    let c : KeyCandidate :=
      { token := l.count
        depth := l.flow.length
        required := l.inBlock && l.indent = l.place.column
        index := l.place.index
        line := l.place.line
        column := l.place.column }
    return { l with candidates := c :: l.candidates }

/-! ## Indentation -/

/-- A block collection at a column, and whether it is a new one. -/
def enter (l : Layout) (column : Nat) : Bool × Layout :=
  if l.indent < column then (true, { l with indent := column, outer := l.indent :: l.outer })
  else (false, l)

/-- The ends of the block collections that stand deeper than a column. -/
def leaveFrom (column : Int) (l : Layout) : List Int → Layout
  | [] => l
  | indent :: outer =>
    if column < l.indent then
      leaveFrom column ({ l with indent := indent, outer := outer }.emit .blockEnd) outer
    else l

/-- In block context the layout with the ends of the collections that stand deeper than a column. -/
def leave (l : Layout) (column : Int) : Layout :=
  if l.inBlock then leaveFrom column l l.outer else l

/-! ## Reading a token -/

/-- The place of the next token: behind blanks, comments and line breaks. A tab is a blank only in a
flow collection. The answer tells too whether a line ended. -/
def skipBlanks (inFlow : Bool) : Nat → Bool → Place → Bool × Place
  | 0, ended, p => (ended, p)
  | fuel + 1, ended, p =>
    let p := p.skip fun c => c = .char ' ' || (inFlow && c = .char '\t')
    let p := if p.next = some (.char '#') then p.skipLine else p
    match p.break? with
    | none => (ended, p)
    | some (_, p) => skipBlanks inFlow fuel true p

/-- The layout at the next token; behind the end of a line a key is allowed. -/
def toToken (l : Layout) : Layout :=
  let (ended, place) := skipBlanks (!l.inBlock) (l.place.rest.length + 1) false l.place
  { l with place := place, keyAllowed := l.keyAllowed || (ended && l.inBlock) }

/-- The end of the document. -/
def close (l : Layout) : Except Fault Layout := do
  let l ← (l.leave (-1)).dropCandidate
  return l.emit .streamEnd

/-- A mark of a document or a directive: all block collections end. -/
def atMargin (l : Layout) (t : Token) (behind : Place) : Except Fault Layout := do
  let l ← (l.leave (-1)).dropCandidate
  return { l with keyAllowed := false, place := behind }.emit t

/-- A directive; one that gives a version changes the rules for what follows. -/
def directive (l : Layout) : Except Fault Layout := do
  let (d, behind) ← Property.directive l.version l.place
  let l ← l.atMargin (.directive d) behind
  return match d with
    | .version v => { l with version := v }
    | _ => l

/-- The beginning of a flow collection. -/
def openFlow (l : Layout) (kind : FlowKind) (t : Token) : Except Fault Layout := do
  let l ← l.addCandidate
  return { l with flow := kind :: l.flow, keyAllowed := true, place := l.place.step }.emit t

/-- The end of a flow collection. -/
def closeFlow (l : Layout) (t : Token) : Except Fault Layout := do
  let l ← l.dropCandidate
  return { l with flow := l.flow.tail, keyAllowed := false, place := l.place.step }.emit t

/-- The comma between entries of a flow collection. -/
def flowEntry (l : Layout) : Except Fault Layout := do
  let l ← l.dropCandidate
  return { l with keyAllowed := true, place := l.place.step }.emit .flowEntry

/-- A mark in block context that begins a collection where a deeper one stands. -/
def enterFor (l : Layout) (beginning : Token) : Except Fault Layout :=
  if !l.inBlock then .ok l
  else if !l.keyAllowed then .error .malformed
  else
    let (isNew, l) := l.enter l.place.column
    .ok (if isNew then l.emit beginning else l)

/-- The dash of an entry of a block sequence. -/
def blockEntry (l : Layout) : Except Fault Layout := do
  let l ← l.enterFor .blockSequenceStart
  let l ← l.dropCandidate
  return { l with keyAllowed := true, place := l.place.step }.emit .blockEntry

/-- The question mark of a key. -/
def explicitKey (l : Layout) : Except Fault Layout := do
  let l ← l.enterFor .blockMappingStart
  let l ← l.dropCandidate
  return { l with keyAllowed := l.inBlock, place := l.place.step }.emit .key

/-- The colon of a value: it makes a key of the candidate, or belongs to a key that has a mark. -/
def value (l : Layout) : Except Fault Layout := do
  match l.candidate? with
  | some c =>
    let (isNew, entered) := if l.inBlock then l.enter c.column else (false, l)
    let marks := if isNew then [Token.blockMappingStart, .key] else [.key]
    return { entered with
      candidates := l.candidates.filter fun c => c.depth ≠ l.flow.length
      insertions := (c.token, marks) :: l.insertions
      keyAllowed := false
      place := l.place.step }.emit .value
  | none =>
    let l ← l.enterFor .blockMappingStart
    let l ← l.dropCandidate
    return { l with keyAllowed := l.inBlock, place := l.place.step }.emit .value

/-- A token that may begin a key and does not end a line. -/
def content (l : Layout) (read : Place → Except Fault (Token × Place)) : Except Fault Layout := do
  let l ← l.addCandidate
  let (t, behind) ← read l.place
  return { l with keyAllowed := false, place := behind }.emit t

/-- A plain scalar; behind one that ends at a line break a key is allowed. -/
def plain (l : Layout) : Except Fault Layout := do
  let l ← l.addCandidate
  let (content, ended, behind) := Plain.read l.version (!l.inBlock) (l.indent + 1) l.place
  return { l with keyAllowed := ended, place := behind }.emit (.scalar true content)

/-- A block scalar. -/
def block (l : Layout) (folded : Bool) : Except Fault Layout := do
  let l ← l.dropCandidate
  let (content, behind) ← Block.read folded l.indent l.place
  return { l with keyAllowed := true, place := behind }.emit (.scalar false content)

/-- Whether the colon in front of the place is the mark of a value. In a flow collection one that
follows the mark of a value at once, or stands in a sequence, needs a blank behind it. -/
def atValue (l : Layout) (behindValue : Bool) : Bool :=
  endsWordHere (l.place.ahead 1) ||
    match l.flow with
    | [] => false
    | kind :: _ => l.version = .former || (kind = .mapping && !behindValue)

/-- The layout behind the next token. -/
def next (l : Layout) : Except Fault Layout := do
  let l ← l.dropStale
  let behindValue := !l.candidates.isEmpty && l.tokens.head? = some .value
  let l ← l.toToken.dropStale
  let l := l.leave l.place.column
  match l.place.next with
  | none => l.close
  | some c =>
    let blankFollows := endsWordHere (l.place.ahead 1)
    let atStart := l.place.column = 0
    if c = .char '%' ∧ atStart then l.directive
    else if atStart ∧ l.place.atDocumentStart then l.atMargin .documentStart (l.place.forward 3)
    else if atStart ∧ l.place.atDocumentEnd then l.atMargin .documentEnd (l.place.forward 3)
    else if c = .char '[' then l.openFlow .sequence .flowSequenceStart
    else if c = .char '\x7b' then l.openFlow .mapping .flowMappingStart
    else if c = .char ']' then l.closeFlow .flowSequenceEnd
    else if c = .char '\x7d' then l.closeFlow .flowMappingEnd
    else if c = .char ',' then l.flowEntry
    else if c = .char '-' ∧ blankFollows then l.blockEntry
    else if c = .char '?' ∧ (!l.inBlock ∨ blankFollows) then l.explicitKey
    else if c = .char ':' ∧ l.atValue behindValue then l.value
    else if c = .char '*' then
      l.content fun p => (Property.anchorName p).map fun (name, p) => (.reference name, p)
    else if c = .char '&' then
      l.content fun p => (Property.anchorName p).map fun (name, p) => (.anchor name, p)
    else if c = .char '!' then l.content (Property.tag l.version)
    else if c = .char '|' ∧ l.inBlock then l.block false
    else if c = .char '>' ∧ l.inBlock then l.block true
    else if c = .char '\x27' then
      l.content fun p => (Quoted.read false p).map fun (content, p) => (.scalar false content, p)
    else if c = .char '"' then
      l.content fun p => (Quoted.read true p).map fun (content, p) => (.scalar false content, p)
    else if Plain.beginsWith l.version (!l.inBlock) l.place.rest then l.plain
    else .error .malformed

/-- The tokens so far in order, with those that belong between them. -/
def finished (l : Layout) : List Token :=
  (l.tokens.reverse.zipIdx).flatMap fun (t, number) =>
    (l.insertions.filter (·.1 = number)).flatMap (·.2) ++ [t]

/-- The tokens of the rest of a document. -/
def run : Nat → Layout → Tokens
  | 0, l => ⟨l.finished, .malformed⟩
  | fuel + 1, l =>
    match l.next with
    | .error fault => ⟨l.finished, fault⟩
    | .ok l => if l.tokens.head? = some .streamEnd then ⟨l.finished, .malformed⟩ else run fuel l

end Layout

/-- The tokens of a document. -/
def Tokens.ofText (t : Text) : Tokens :=
  if t.all isAdmitted then (Layout.start t).run (t.length + 2) else ⟨[], .malformed⟩

end NodeBootstrap.Yaml
