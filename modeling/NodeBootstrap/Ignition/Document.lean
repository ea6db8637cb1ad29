import NodeBootstrap.Failure
import NodeBootstrap.UnitFile

/-!
# Ignition documents

The payload of a worker is a JSON object. Two lists in it are read: the units (`systemd.units`) and
the files (`storage.files`). Either may be left out, and so may what it is in; empty and zero values
count as left out. Of a value that is neither an object nor empty no member can be asked.
-/

set_option autoImplicit false

namespace NodeBootstrap.Ignition

/-- The name of the unit of the kubelet. -/
def kubeletUnitName : Text := text "kubelet.service"

/-- A member of an object, or of what is left out; `null` if there is no such member. -/
def memberOrNull (key : Text) (v : Json) : Except KindFault Json :=
  match v with
  | .object members => .ok ((OrderedMap.get? members key).getD .null)
  | v => if v.isEmptyOrZero then .ok .null else .error .noSuchPart

/-- The document of a payload. -/
def load (contents : Bytes) : Except Failure Json := do
  match ← (Json.ofBytes contents).mapError fun cause => .document (.unreadableIgnition cause) with
  | .object members => return .object members
  | _ => .error (.document .ignitionNotAnObject)

/-- A list of a document by its area and its key. -/
def listOf (document : Json) (area key : Text) : Except Failure (List Json) := do
  let items ← ((document.member? area).elim (.ok .null) (memberOrNull key)).mapError .kind
  match items with
  | .array items => return items
  | items => if items.isEmptyOrZero then return [] else .error (.document (.notAList area key))

/-- The files of a document. -/
def files (document : Json) : Except Failure (List Json) :=
  listOf document (text "storage") (text "files")

/-- Whether a unit has a name. -/
def isNamed (name : Text) (unit : Json) : Bool :=
  match unit.member? (text "name") with
  | some (.string found) => found = name
  | _ => false

/-- The first unit of a document with a name. -/
def unit? (document : Json) (name : Text) : Except Failure (Option Json) := do
  return (← listOf document (text "systemd") (text "units")).find? (isNamed name)

/-- The contents of a unit; what is left out is empty. -/
def unitContents (unit : Json) : Except KindFault Text :=
  match (unit.member? (text "contents")).getD .null with
  | .string contents => .ok contents
  | contents => if contents.isEmptyOrZero then .ok [] else .error .noSuchPart

end NodeBootstrap.Ignition
