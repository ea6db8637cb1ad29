import NodeBootstrap.Flag.Command
import NodeBootstrap.Ignition.Document
import NodeBootstrap.Ignition.Rule

/-!
# Walking a payload

The walk takes two things out of a payload. From the unit of the kubelet it takes the flags: all are
remembered, two are carried over to the node, and one may name a cloud config, for which a rule is
added unless the caller has one. Then every file with a rule is transformed and written, in the
order of the payload. A cloud config that the unit does not point at is passed over, for the kubelet
would not be started with it.

Every occurrence of the flag for the cloud config is checked before any flag is taken.
-/

set_option autoImplicit false

namespace NodeBootstrap.Ignition

/-- The flags of the Linux kubelet that the kubelet on Windows gets too. -/
def carriedOver : List Text := [text "cloud-provider", text "v"]

/-- The flag for the verbosity. -/
def verbosityFlag : Text := text "v"

/-- Refuses a cloud config without a file name. -/
def checkFlag (flag : Text × Text) : Except Failure Unit :=
  if flag.1 = CloudConfig.flagName ∧ (UnitFile.fileNameOf? flag.2).isNone then
    .error (.argument (.noCloudConfigName flag.2))
  else .ok ()

/-- The flags of a start command, the last value of each. -/
def declaredFlags (command : Text) : Except Failure (OrderedMap Text Text) := do
  let flags ← (Command.flagsOf command).mapError fun cause => .argument (.unsplittableCommand cause)
  flags.forM checkFlag
  return OrderedMap.ofList flags

/-- Those of some flags that are carried over, in the order in which they are. -/
def carriedFlags (declared : OrderedMap Text Text) : List (Text × Value) :=
  carriedOver.filterMap fun name => (declared.get? name).map fun value => (name, .text value)

/-- The rules with one for the cloud config that some flags point at. -/
def extendRules (rules : Rules) (declared : OrderedMap Text Text) : Rules :=
  match declared.get? CloudConfig.flagName with
  | none => rules
  | some path => if rules.hasKey path then rules else rules.set path cloudConfigRule

/-- Takes the flags out of the unit of the kubelet, and gives the rules that hold with them. -/
def readUnit (n : Node) (unit : Json) (rules : Rules) : NodeStep Rules := do
  let contents ← NodeStep.ofExcept ((unitContents unit).mapError .kind)
  match UnitFile.execStart? contents with
  | none =>
    NodeStep.log .warning (text "No ExecStart found in " ++ kubeletUnitName)
    return rules
  | some command =>
    let declared ← NodeStep.ofExcept (declaredFlags command)
    modify fun s =>
      { s with
        unitFlags := s.unitFlags.merge declared
        kubeletFlags := s.kubeletFlags.merge (carriedFlags declared) }
    if let some path := declared.get? CloudConfig.flagName then
      NodeStep.log .info
        (text "Cloud config " ++ path ++ text " will be written to " ++
          n.layout.file CloudConfig.fileName)
    return extendRules rules declared

/-- Sets the verbosity to the default unless one is set that is not empty. -/
def ensureVerbosity (n : Node) : NodeStep Unit := do
  let verbosity := ((← get).kubeletFlags.get? verbosityFlag).getD .null
  if verbosity.isEmptyOrZero then NodeStep.setFlag verbosityFlag (.text n.defaultVerbosity)

/-- The path of a file entry with the rule for it, if there is one. A path that is a list or an
object cannot be looked up; other values that are no text have no rule. -/
def ruleFor (rules : Rules) (members : OrderedMap Text Json) :
    Except KindFault (Option (Text × Rule)) :=
  match members.get? (text "path") with
  | some (.string path) => .ok ((rules.get? path).map fun rule => (path, rule))
  | some (.array _) | some (.object _) => .error .unusable
  | _ => .ok none

/-- The source of a file entry. -/
def sourceOf (path : Text) (members : OrderedMap Text Json) : Except Failure Json := do
  let source ←
    (memberOrNull (text "source") ((members.get? (text "contents")).getD .null)).mapError .kind
  match source with
  | .null => .error (.document (.noSource path))
  | source => return source

/-- Writes a file of the payload. -/
def writeContents (path : Text) (contents : Bytes) : NodeStep Unit :=
  NodeStep.ofHost (Host.onFiles (fun cause => .copy (.unwritable path cause))
    (FileTree.write path contents))

/-- Transforms and writes a file with a rule. -/
def materializeEntry (n : Node) (path : Text) (rule : Rule) (members : OrderedMap Text Json) :
    NodeStep Unit := do
  if rule.transform = some .cloudConfig ∧
      (← get).unitFlags.get? CloudConfig.flagName ≠ some path then
    NodeStep.log .warning
      (text "Skipping cloud config " ++ path ++ text ", not referenced by " ++ kubeletUnitName)
  else
    let source ← NodeStep.ofExcept (sourceOf path members)
    let contents ← materialize n source rule.transform
    let destination := Path.join n.layout.installDirectory rule.destination
    writeContents destination contents
    NodeStep.log .info (text "Translated " ++ path ++ text " to " ++ destination)

/-- Does to a file entry what its rule says; without a rule it is passed over. -/
def walkEntry (n : Node) (rules : Rules) (entry : Json) : NodeStep Unit := do
  match entry with
  | .object members =>
    match ← NodeStep.ofExcept ((ruleFor rules members).mapError .kind) with
    | none => return
    | some (path, rule) => materializeEntry n path rule members
  | entry => throw (.document (.invalidEntry entry))

/-- Takes the flags and the files out of a payload. -/
def walk (n : Node) (contents : Bytes) (rules : Rules) : NodeStep Unit := do
  let document ← NodeStep.ofExcept (load contents)
  let rules ←
    match ← NodeStep.ofExcept (unit? document kubeletUnitName) with
    | some unit => readUnit n unit rules
    | none => do
      NodeStep.log .info (text "No " ++ kubeletUnitName ++ text " unit found in ignition file")
      pure rules
  ensureVerbosity n
  for entry in ← NodeStep.ofExcept (files document) do
    walkEntry n rules entry

end NodeBootstrap.Ignition
