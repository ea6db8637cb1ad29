import NodeBootstrap.OrderedMap
import NodeBootstrap.Yaml.Layout

/-!
# Nodes

A document as a tree of scalars, sequences and mappings, each with what is known of its tag. A
reference to an anchor is the node that the anchor stood at last, so nothing of anchors is left in
the tree. A collection cannot refer to itself.

A stream holds one document or none. `Node.ofTokens` reads it.
-/

set_option autoImplicit false

namespace NodeBootstrap.Yaml

/-- What is known of the tag of a node. -/
inductive Tagging
  /-- Nothing: the text of a scalar decides. -/
  | undecided
  /-- A scalar in quotes or in a block: a text. -/
  | text
  | named (name : Text)
  deriving DecidableEq, Repr

/-- A node. -/
inductive Node
  | scalar (tagging : Tagging) (content : Text)
  | sequence (tagging : Tagging) (items : List Node)
  | mapping (tagging : Tagging) (entries : List (Node × Node))

/-- A scalar of no text. -/
def Node.empty : Node := .scalar .undecided []

/-- What is left of the tokens, what the handles of tags stand for, and the nodes at the anchors so
far; a collection that is not finished has none yet. -/
structure Reading where
  tokens : Tokens
  handles : OrderedMap Text Text
  anchors : OrderedMap Text (Option Node)

/-- A step of reading nodes. -/
abbrev ReadStep := StateT Reading (Except Fault)

namespace ReadStep

/-- The next token. -/
def peek : ReadStep Token := do
  match (← get).tokens.ready with
  | [] => throw (← get).tokens.fault
  | t :: _ => return t

/-- Goes on behind the next token. -/
def drop : ReadStep Unit :=
  modify fun r => { r with tokens := { r.tokens with ready := r.tokens.ready.tail } }

/-- Goes on behind a token if it is the next one, and tells whether it was. -/
def accept (t : Token) : ReadStep Bool := do
  if (← peek) = t then
    drop
    return true
  else return false

/-- Goes on behind a token, which has to be the next one. -/
def expect (t : Token) : ReadStep Unit := do
  if ! (← accept t) then throw .malformed

/-- Whether the next token is one of several. -/
def isAt (ts : List Token) : ReadStep Bool := return ts.contains (← peek)

/-- An anchor, if one is next. -/
def anchor? : ReadStep (Option Text) := do
  match (← peek) with
  | .anchor name =>
    drop
    return some name
  | _ => return none

/-- The name of a tag, if one is next, with its handle written out. -/
def tag? : ReadStep (Option Text) := do
  match (← peek) with
  | .tag none suffix =>
    drop
    return some suffix
  | .tag (some handle) suffix =>
    drop
    match (← get).handles.get? handle with
    | some expansion => return some (expansion ++ suffix)
    | none => throw .malformed
  | _ => return none

/-- An anchor and a tag in either order. -/
def properties : ReadStep (Option Text × Option Text) := do
  match (← anchor?) with
  | some anchor => return (some anchor, ← tag?)
  | none =>
    let tag ← tag?
    return (← anchor?, tag)

/-- Puts a node at an anchor. -/
def define (anchor : Option Text) (node : Option Node) : ReadStep Unit :=
  match anchor with
  | none => return
  | some name => modify fun r => { r with anchors := r.anchors.set name node }

end ReadStep

namespace Node

open ReadStep

/-- The tagging of a scalar. An exclamation mark alone leaves even a quoted scalar undecided. -/
def scalarTagging (plain : Bool) : Option Text → Tagging
  | none => if plain then .undecided else .text
  | some name => if name = NodeBootstrap.text "!" then .undecided else .named name

/-- The tagging of a collection. -/
def collectionTagging : Option Text → Tagging
  | none => .undecided
  | some name => if name = NodeBootstrap.text "!" then .undecided else .named name

/-- Where a node stands: only in block context it may be a block collection, and only as the value
of a mapping the entries of a sequence may stand as deep as the mapping. -/
inductive Position
  | flow
  | block
  | blockValue
  deriving DecidableEq, Repr

mutual

/-- The next node. -/
def read : Nat → Position → ReadStep Node
  | 0, _ => throw .malformed
  | fuel + 1, position => do
    if let .reference name ← peek then
      drop
      match ((← get).anchors.get? name).join with
      | some node => return node
      | none => throw .malformed
    let (anchor, tag) ← properties
    define anchor none
    let node ←
      match (← peek) with
      | .scalar plain content => do
        drop
        pure (.scalar (scalarTagging plain tag) content)
      | .flowSequenceStart => do
        drop
        pure (.sequence (collectionTagging tag) (← readFlowItems fuel true))
      | .flowMappingStart => do
        drop
        pure (.mapping (collectionTagging tag) (← readFlowEntries fuel true))
      | .blockEntry =>
        if position = .blockValue then
          return ← finish anchor (.sequence (collectionTagging tag) (← readIndentless fuel))
        else absent anchor tag
      | .blockSequenceStart =>
        if position = .flow then absent anchor tag
        else do
          drop
          pure (.sequence (collectionTagging tag) (← readBlockItems fuel))
      | .blockMappingStart =>
        if position = .flow then absent anchor tag
        else do
          drop
          pure (.mapping (collectionTagging tag) (← readBlockEntries fuel))
      | _ => absent anchor tag
    finish anchor node
where
  /-- A node of no content, which needs an anchor or a tag to stand for itself. -/
  absent (anchor tag : Option Text) : ReadStep Node :=
    if anchor.isNone ∧ tag.isNone then throw .malformed
    else return .scalar (scalarTagging true tag) []
  /-- A node with its anchor defined. -/
  finish (anchor : Option Text) (node : Node) : ReadStep Node := do
    define anchor (some node)
    return node

/-- A node, or an empty scalar in front of certain tokens. -/
def readUnless : Nat → Position → List Token → ReadStep Node
  | 0, _, _ => throw .malformed
  | fuel + 1, position, stops => do
    if ← isAt stops then return empty
    read fuel position

/-- The entries of a block sequence, and its end. -/
def readBlockItems : Nat → ReadStep (List Node)
  | 0 => throw .malformed
  | fuel + 1 => do
    if ← accept .blockEntry then
      let item ← readUnless fuel .block [.blockEntry, .blockEnd]
      return item :: (← readBlockItems fuel)
    expect .blockEnd
    return []

/-- The entries of a block sequence that stands as deep as its mapping. -/
def readIndentless : Nat → ReadStep (List Node)
  | 0 => throw .malformed
  | fuel + 1 => do
    if ← accept .blockEntry then
      let item ← readUnless fuel .block [.blockEntry, .key, .value, .blockEnd]
      return item :: (← readIndentless fuel)
    return []

/-- The entries of a block mapping, and its end. A key or a value may be missing. -/
def readBlockEntries : Nat → ReadStep (List (Node × Node))
  | 0 => throw .malformed
  | fuel + 1 => do
    if ← isAt [.key, .value] then
      let key ←
        if ← accept .key then readUnless fuel .blockValue [.key, .value, .blockEnd]
        else pure empty
      let value ←
        if ← accept .value then readUnless fuel .blockValue [.key, .value, .blockEnd]
        else pure empty
      return (key, value) :: (← readBlockEntries fuel)
    expect .blockEnd
    return []

/-- The entries of a flow sequence, and its end. A key with its value is a mapping of one entry. -/
def readFlowItems : Nat → Bool → ReadStep (List Node)
  | 0, _ => throw .malformed
  | fuel + 1, first => do
    if ← accept .flowSequenceEnd then return []
    if !first then expect .flowEntry
    if ← accept .flowSequenceEnd then return []
    let item ←
      if ← accept .key then
        let key ← readUnless fuel .flow [.value, .flowEntry, .flowSequenceEnd]
        let value ←
          if ← accept .value then readUnless fuel .flow [.flowEntry, .flowSequenceEnd]
          else pure empty
        pure (.mapping .undecided [(key, value)])
      else read fuel .flow
    return item :: (← readFlowItems fuel false)

/-- The entries of a flow mapping, and its end. A key or a value may be missing. -/
def readFlowEntries : Nat → Bool → ReadStep (List (Node × Node))
  | 0, _ => throw .malformed
  | fuel + 1, first => do
    if ← accept .flowMappingEnd then return []
    if !first then expect .flowEntry
    if ← accept .flowMappingEnd then return []
    let stops := [Token.flowEntry, .flowMappingEnd]
    let entry ←
      if ← isAt [.key, .value] then
        let key ←
          if ← accept .key then readUnless fuel .flow (.value :: stops)
          else pure empty
        let value ←
          if ← accept .value then readUnless fuel .flow stops
          else pure empty
        pure (key, value)
      else pure (← read fuel .flow, empty)
    return entry :: (← readFlowEntries fuel false)

end

/-- The directives in front of a document: the version, and what handles stand for. A handle or the
version may be given once. -/
def readDirectives :
    Nat → Option Version → OrderedMap Text Text → ReadStep (Option Version × OrderedMap Text Text)
  | 0, _, _ => throw .malformed
  | fuel + 1, version, handles => do
    match (← peek) with
    | .directive d =>
      drop
      match d with
      | .version v =>
        if version.isSome ∨ v.major ≠ 1 then throw .malformed
        readDirectives fuel (some v) handles
      | .handle name expansion =>
        if handles.hasKey name then throw .malformed
        readDirectives fuel version (handles.set name expansion)
      | .other => readDirectives fuel version handles
    | _ => return (version, handles)

/-- The handles that every document has, unless it gives them another meaning. -/
def commonHandles : OrderedMap Text Text :=
  [(NodeBootstrap.text "!", NodeBootstrap.text "!"),
    (NodeBootstrap.text "!!", NodeBootstrap.text "tag:yaml.org,2002:")]

/-- Whether a token is a mark between documents. -/
def isMargin : Token → Bool
  | .directive _ | .documentStart | .documentEnd | .streamEnd => true
  | _ => false

/-- Goes on behind all marks of a document's end. -/
def skipDocumentEnds : Nat → ReadStep Unit
  | 0 => throw .malformed
  | fuel + 1 => do
    if ← accept .documentEnd then skipDocumentEnds fuel

/-- A document with the marks of its start, and its version. -/
def readDocument (fuel : Nat) : ReadStep (Version × Node) := do
  match (← peek) with
  | .directive _ | .documentStart => do
    let (version, handles) ← readDirectives fuel none []
    expect .documentStart
    modify fun r => { r with handles := commonHandles.merge handles }
    let node ← if isMargin (← peek) then pure empty else read fuel .block
    return (version.getD .current, node)
  | _ => return (.current, ← read fuel .block)

/-- The only document of a stream, `none` if there is none. Behind it the mark of its end may stand
once, in the former version any number of times. -/
def readStream (fuel : Nat) : ReadStep (Option (Version × Node)) := do
  if ← isAt [.streamEnd] then return none
  let (version, node) ← readDocument fuel
  let isEnded ← accept .documentEnd
  if isEnded ∧ version = .former then skipDocumentEnds fuel
  expect .streamEnd
  return some (version, node)

/-- The document that tokens write. Each step of reading uses a token or is one of two in front of
such a step, so thrice the number of tokens is enough for all of them. -/
def ofTokens (tokens : Tokens) : Except Fault (Option (Version × Node)) := do
  let (document, _) ← (readStream (3 * tokens.ready.length + 4)).run ⟨tokens, commonHandles, []⟩
  return document

end Node

end NodeBootstrap.Yaml
