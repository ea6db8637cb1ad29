import NodeBootstrap.Text.Blank
import NodeBootstrap.Value

/-!
# Flags

The flags of the kubelet are an ordered map from names, without the dashes, to values. A flag
written twice keeps its first place and its last value.

A flag is rendered as `--name=value`. A value that is empty or holds a blank stands in double
quotes. Values are texts; of a list or a mapping each item is looked at in turn as if it were a code
point, and the search for a blank ends at the first one that is blank throughout.
-/

set_option autoImplicit false

namespace NodeBootstrap

/-- Flags by name, in order. -/
abbrev Flags := OrderedMap Text Value

/-- Whether one of the values is blank; only texts can be asked. -/
def someBlank : List Value → Except KindFault Bool
  | [] => .ok false
  | .text t :: rest => if t.isBlank then .ok true else someBlank rest
  | _ :: _ => .error .noSuchPart

/-- Whether a value is written in quotes. -/
def Value.needsQuotes : Value → Except KindFault Bool
  | .text t => .ok (t.isEmpty || t.any CodePoint.isBlank)
  | .list items => someBlank items
  | .map entries => someBlank (entries.map (·.1))
  | _ => .error .unusable

/-- One flag as text. -/
def renderFlag (name : Text) (value : Value) : Except KindFault Text := do
  if ← value.needsQuotes then
    return text "--" ++ name ++ text "=\"" ++ value.display ++ text "\""
  else
    return text "--" ++ name ++ text "=" ++ value.display

/-- Flags as text, in order and with blanks between them. -/
def Flags.render (flags : Flags) : Except KindFault Text := do
  return Text.join (text " ") (← flags.mapM fun (name, value) => renderFlag name value)

end NodeBootstrap
