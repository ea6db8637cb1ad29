import NodeBootstrap.Failure
import NodeBootstrap.Settings.Basic
import NodeBootstrap.Value.Order
import NodeBootstrap.Yaml.Document

/-!
# Settings files

A settings file is a YAML mapping of some of the settings, in UTF-8 with line endings of any kind. A
file without a document changes nothing, and a name that is no setting is refused: all such names
are reported together, in order. What the caller overrides wins over the file.
-/

set_option autoImplicit false

namespace NodeBootstrap

/-- A text in which every line ends by a line feed: a carriage return reads as one, and together
with a line feed behind it as one too. -/
def Text.withLineFeeds : Text → Text
  | [] => []
  | .char '\r' :: .char '\n' :: rest => .char '\n' :: withLineFeeds rest
  | .char '\r' :: rest => .char '\n' :: withLineFeeds rest
  | c :: rest => c :: withLineFeeds rest

namespace Settings

/-- A document without a value as a failure. -/
def ofYamlFault (path : Text) : Yaml.Fault → Failure
  | .malformed => .settings (.malformed path)
  | fault => .settingsValue fault

/-- The settings among the entries of a mapping. -/
def known (entries : List (Value × Value)) : List (Text × Value) :=
  entries.filterMap fun (key, value) =>
    match key with
    | .text name => if defaults.hasKey name then some (name, value) else none
    | _ => none

/-- The keys of a mapping that are no settings. -/
def unknownNames (entries : List (Value × Value)) : List Value :=
  (entries.map (·.1)).filter fun key =>
    match key with
    | .text name => !defaults.hasKey name
    | _ => true

/-- The settings that the document of a file writes. -/
def ofDocument (path : Text) : Option Value → Except Failure (List (Text × Value))
  | none | some .null => .ok []
  | some (.map entries) =>
    let unknown := unknownNames entries
    match Value.sorted? unknown with
    | none => .error (.kind .unusable)
    | some names =>
      if names.isEmpty then .ok (known entries) else .error (.settings (.unknown path names))
  | some _ => .error (.settings (.notAMapping path))

/-- A reader of the documents that settings files are. -/
abbrev Reader := Text → Except Yaml.Fault (Option Value)

/-- The settings that a file writes. -/
def ofFile (read : Reader) (files : FileTree) (path : Text) :
    Except Failure (List (Text × Value)) := do
  let bytes ← (files.read path).mapError
    (Failure.ofFileFault fun cause => .settings (.unreadable path cause))
  let document ← (Utf8.decode bytes).mapError .undecodable
  let value ← (read (Text.withLineFeeds document)).mapError (ofYamlFault path)
  ofDocument path value

/-- The settings of a run by a reader: the defaults, changed by those of a file if one is given, and
by the overrides. -/
def loadBy (read : Reader) (files : FileTree) (path : Option Text)
    (overrides : List (Text × Value)) : Except Failure Settings := do
  let ofPath ←
    match path with
    | none | some [] => pure []
    | some path => ofFile read files path
  return override (defaults.merge ofPath) overrides

/-- The settings of a run. -/
def load (files : FileTree) (path : Option Text) (overrides : List (Text × Value)) :
    Except Failure Settings := loadBy Yaml.ofText files path overrides

end Settings

end NodeBootstrap
