import NodeBootstrap.Value.Order
import NodeBootstrap.Yaml.Node
import NodeBootstrap.Yaml.Scalar

/-!
# The value of a YAML document

`Yaml.ofText` is the value of the only document of a text, `none` if it has none. The nodes of a
document become values bottom up. A mapping may not write a key twice, and takes in the entries of
the mappings that it merges: those come first, and its own entries win over them, so a merge never
repeats a key. Of several merged mappings an earlier one wins.

A list can be a key as long as it can be looked up; a mapping cannot be one.
-/

set_option autoImplicit false

namespace NodeBootstrap.Yaml

/-- The kind of a scalar. -/
def scalarKind (version : Version) (tagging : Tagging) (content : Text) : Except Fault Kind :=
  match tagging with
  | .undecided =>
    if version = .current ∨ version = .former then .ok (Scalar.kindOf version content)
    else .error .unknownVersion
  | .text => .ok .text
  | .named name => .ok (Kind.ofName name)

/-- Whether a value can be looked up. -/
def isLookable : Value → Bool
  | .list _ | .map _ => false
  | .tuple items => itemsLookable items
  | _ => true
where
  /-- Whether all items can be looked up. -/
  itemsLookable : List Value → Bool
    | [] => true
    | v :: rest => isLookable v && itemsLookable rest

/-- A value as a key. -/
def keyOf : Value → Except Fault Value
  | .map _ => .error .malformed
  | .list items => if isLookable (.tuple items) then .ok (.tuple items) else .error .unusableKey
  | v => .ok v

/-- Entries with one more: at the place of its key, or at the end. -/
def setEntry (entries : List (Value × Value)) (key value : Value) : List (Value × Value) :=
  match entries with
  | [] => [(key, value)]
  | (k, v) :: rest =>
    if k.isSameKey key then (k, value) :: rest else (k, v) :: setEntry rest key value

/-- The mapping that a list of entries writes. -/
def mappingOf (entries : List (Value × Value)) : List (Value × Value) :=
  entries.foldl (fun m e => setEntry m e.1 e.2) []

/-- Whether two entries have one key. -/
def hasRepeatedKey : List (Value × Value) → Bool
  | [] => false
  | (k, _) :: rest => rest.any (fun e => k.isSameKey e.1) || hasRepeatedKey rest

/-- The entries of a mapping: those that it merges, and its own. -/
structure Entries where
  merged : List (Value × Value)
  own : List (Value × Value)

/-- All entries in order. -/
def Entries.all (e : Entries) : List (Value × Value) := e.merged ++ e.own

/-- The mapping. Without a merge no key may be repeated. -/
def Entries.value (e : Entries) : Except Fault Value :=
  if e.merged.isEmpty ∧ hasRepeatedKey e.own then .error .malformed
  else .ok (.map (mappingOf e.all))

mutual

/-- The value of a node. -/
def valueOf (version : Version) : Node → Except Fault Value
  | .scalar tagging content => do
    Scalar.value version (← scalarKind version tagging content) content
  | .sequence tagging items => do
    let values ← valuesOf version items
    match tagging with
    | .named name => if Kind.ofName name = .sequence then return .list values else throw .malformed
    | _ => return .list values
  | .mapping tagging entries => do
    let kind :=
      match tagging with
      | .named name => Kind.ofName name
      | _ => .mapping
    match kind with
    | .mapping => (← entriesOf version entries).value
    | .text | .null | .bool | .int | .float => mainValueOf version kind entries
    | _ => throw .malformed

/-- The values of the items of a sequence. -/
def valuesOf (version : Version) : List Node → Except Fault (List Value)
  | [] => .ok []
  | item :: rest => do
    let v ← valueOf version item
    return v :: (← valuesOf version rest)

/-- The value of a mapping that stands for a scalar: that of its main entry. -/
def mainValueOf (version : Version) (kind : Kind) : List (Node × Node) → Except Fault Value
  | [] => .error .malformed
  | (.scalar tagging content, value) :: rest => do
    if (← scalarKind version tagging content) = .main then
      match value with
      | .scalar _ content => Scalar.value version kind content
      | .mapping _ entries => mainValueOf version kind entries
      | .sequence .. => throw .malformed
    else mainValueOf version kind rest
  | _ :: rest => mainValueOf version kind rest

/-- The entries of a mapping. It may merge once. -/
def entriesOf (version : Version) : List (Node × Node) → Except Fault Entries
  | [] => .ok ⟨[], []⟩
  | (.scalar tagging content, value) :: rest => do
    let kind ← scalarKind version tagging content
    match kind with
    | .merge =>
      let merged ← mergedOf version value
      let others ← entriesOf version rest
      if merged.isEmpty then return others
      else if others.merged.isEmpty then return ⟨merged, others.own⟩
      else throw .malformed
    | _ =>
      let key ←
        if kind = .main then pure (.text content) else Scalar.value version kind content
      let value ← valueOf version value
      let others ← entriesOf version rest
      return ⟨others.merged, (key, value) :: others.own⟩
  | (key, value) :: rest => do
    let key ← keyOf (← valueOf version key)
    let value ← valueOf version value
    let others ← entriesOf version rest
    return ⟨others.merged, (key, value) :: others.own⟩

/-- The entries that the value of a merge brings: a mapping's, or those of mappings in a sequence,
of which the first comes last and so wins. -/
def mergedOf (version : Version) : Node → Except Fault (List (Value × Value))
  | .mapping _ entries => do return (← entriesOf version entries).all
  | .sequence _ items => mergedItemsOf version items
  | .scalar .. => .error .malformed

/-- The entries of mappings in a sequence, the last mapping first. -/
def mergedItemsOf (version : Version) : List Node → Except Fault (List (Value × Value))
  | [] => .ok []
  | .mapping _ entries :: rest => do
    let first ← entriesOf version entries
    return (← mergedItemsOf version rest) ++ first.all
  | _ :: _ => .error .malformed

end

/-- The value of the only document of a text, `none` without a document. -/
def ofText (t : Text) : Except Fault (Option Value) := do
  match ← Node.ofTokens (Tokens.ofText t) with
  | none => return none
  | some (version, node) => return some (← valueOf version node)

end NodeBootstrap.Yaml
