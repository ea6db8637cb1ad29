import NodeBootstrap.Json.Writer
import NodeBootstrap.KubeletConfig.Members
import NodeBootstrap.KubeletConfig.Patch
import NodeBootstrap.Path.Drive

/-!
# The kubelet config for Windows

Four fields of the kubelet config of a Linux worker change: the certificate file is looked for in
the install directory, the cgroup driver is one that Windows has, and neither cgroups for classes of
pods nor limits for what pods may take are enforced. Everything else stays as it is written, so the
document is patched in place; fields that were not there are put behind fixed ones in compact form.

A document is changed exactly if all fields that changes rest on are there; otherwise the first
fault, in the order of the changes, is the answer.
-/

set_option autoImplicit false

namespace NodeBootstrap.KubeletConfig

/-- The path of the certificate file. -/
def caFilePath : List Text := [text "authentication", text "x509", text "clientCAFile"]

def cgroupDriver : Text := text "cgroupDriver"

def cgroupsPerQos : Text := text "cgroupsPerQOS"

def enforceNodeAllocatable : Text := text "enforceNodeAllocatable"

/-- The field behind which the switch for cgroups is put. -/
def volumeStatsPeriod : Text := text "volumeStatsAggPeriod"

/-- The cgroup driver of a Windows node. -/
def windowsCgroupDriver : Text := text "cgroupfs"

/-- A document and its members. Nothing but blanks may follow the object. -/
def load (contents : Bytes) : Except Fault (Text × OrderedMap Text Member) := do
  let document ← (Utf8.decode contents).mapError .undecodable
  if (Cursor.start document).skipBlanks.rest.head? ≠ some (.char '{') then .error .notAnObject
  let (table, stop) ← scanObject document 0
  if (Cursor.within document stop).skipBlanks.rest.isEmpty then return (document, table)
  else .error (.extraData stop)

/-- The text of a value in the document. -/
def encoded (value : Json) : Text := value.write .compact

/-- A member of its own behind another. -/
def furtherMember (key : Text) (value : Json) : Text :=
  text "," ++ encoded (.string key) ++ text ":" ++ encoded value

/-- The value of a member replaced. -/
def Member.replace (m : Member) (value : Json) : Patch := ⟨m.start, m.stop, encoded value⟩

/-- A member put behind another. -/
def Member.follow (m : Member) (key : Text) (value : Json) : Patch :=
  ⟨m.stop, m.stop, furtherMember key value⟩

/-- A field set: in its place if it is there, otherwise behind another. -/
def setField (table : OrderedMap Text Member) (key : Text) (value : Json) (behind : Member) :
    Patch :=
  match table.get? key with
  | some member => member.replace value
  | none => behind.follow key value

/-- The certificate file below the install directory. -/
def windowsCaFile (installDirectory : Text) (old : Json) : Except Fault Text :=
  match old with
  | .string path =>
    let name := DrivePath.baseName path
    if name.isEmpty then .error (.invalidCaFile old) else .ok (DrivePath.join installDirectory name)
  | _ => .error (.invalidCaFile old)

/-- A top-level field that has to be there. -/
def requiredField (document : Text) (table : OrderedMap Text Member) (key : Text) :
    Except Fault Member :=
  memberOn document [key] table [key]

/-- The patches of a document, in the order in which they are found. -/
def patches (installDirectory document : Text) (table : OrderedMap Text Member) :
    Except Fault (List Patch) := do
  let caFile ← memberOn document caFilePath table caFilePath
  let newCaFile ← windowsCaFile installDirectory caFile.value
  let driver ← requiredField document table cgroupDriver
  let anchor ← requiredField document table volumeStatsPeriod
  -- the members of the table stand in the order of their places
  let last := ((table.getLast?).map (·.2)).getD anchor
  return [
    caFile.replace (.string newCaFile),
    driver.replace (.string windowsCgroupDriver),
    setField table cgroupsPerQos (.bool false) anchor,
    setField table enforceNodeAllocatable (.array []) last]

/-- A kubelet config for Windows as text. -/
def forWindows (installDirectory : Text) (contents : Bytes) : Except Fault Text := do
  let (document, table) ← load contents
  return Patch.applyAll (← patches installDirectory document table) document

end NodeBootstrap.KubeletConfig
