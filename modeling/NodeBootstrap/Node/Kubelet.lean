import NodeBootstrap.Ignition.Walk

/-!
# The kubelet

Installing the kubelet and registering it as a service. The inputs are checked before anything is
done; a kubelet that runs is stopped before its program is replaced, since it could not be
otherwise; the service is made or changed only when all files are in place, and started last.
-/

set_option autoImplicit false

namespace NodeBootstrap.Kubelet

/-- The name of the program in the install directory. -/
def programName : Text := text "kubelet.exe"

/-- The name that the service is shown under. -/
def displayName : Text := text "Kubernetes Kubelet"

def description : Text := text "Kubernetes node agent for Windows"

/-- What keeps pods that are not made for Windows off the node. -/
def windowsTaint : Text := text "os=Windows:NoSchedule"

def windowsLabel : Text := text "node.openshift.io/os_id=Windows"

/-- A path with a blank in quotes. -/
def quotedPath (path : Text) : Text :=
  if .char ' ' ∈ path then text "\"" ++ path ++ text "\"" else path

/-- The start command of the kubelet with some flags: the fixed flags and then those. -/
def command (n : Node) (flags : Flags) : Except KindFault Text := do
  let file (name : String) : Value := .text (n.layout.file (text name))
  let fixed : List (Except KindFault Text) := [
    .ok (quotedPath (n.layout.file programName)),
    renderFlag (text "config") (file "kubelet.conf"),
    renderFlag (text "bootstrap-kubeconfig") (file "bootstrap-kubeconfig"),
    renderFlag (text "kubeconfig") (file "kubeconfig"),
    renderFlag (text "pod-infra-container-image") n.settings.pauseImage,
    renderFlag (text "cert-dir") n.settings.certificateDirectory,
    .ok (text "--windows-service"),
    .ok (text "--logtostderr=false"),
    renderFlag (text "log-file") (.text (Path.join n.layout.logDirectory (text "kubelet.log"))),
    renderFlag (text "register-with-taints") (.text windowsTaint),
    renderFlag (text "node-labels") (.text windowsLabel)]
  let words ← fixed.mapM id
  let collected ← if flags.isEmpty then pure [] else pure [← flags.render]
  return Text.join (text " ") (words ++ collected)

/-- Checks that the payload and the program are files, and gives their paths. -/
def checkInputs (n : Node) : NodeStep (Text × Text) := do
  let files := (← get).host.files
  match n.ignitionFile.filter files.isFile with
  | none => throw (.argument (.noIgnitionFile n.ignitionFile))
  | some ignition =>
    match n.kubeletPath.filter files.isFile with
    | none => throw (.argument (.noKubelet n.kubeletPath))
    | some kubelet => return (ignition, kubelet)

/-- Makes a directory unless it is there. -/
def ensureDirectory (path : Text) : NodeStep Unit :=
  NodeStep.ofHost
    (Host.onFiles (.directoryCreation path false) (FileTree.makeDirectories path true))

/-- Puts the program and the files of the payload into the install directory. -/
def installFiles (n : Node) (ignition kubelet : Text) : NodeStep Unit := do
  ensureDirectory n.layout.installDirectory
  ensureDirectory n.layout.logDirectory
  let destination := n.layout.file programName
  Host.onFiles (fun cause => .copy (.failed kubelet destination cause))
    (FileTree.copy kubelet destination)
  let contents ← Host.askFiles (fun cause => .argument (.unreadableIgnitionFile ignition cause))
    (·.read ignition)
  Ignition.walk n contents Ignition.defaultRules

/-- Installs the kubelet and starts it as a service. -/
def install (n : Node) : NodeStep Unit := do
  let (ignition, kubelet) ← checkInputs n
  n.requireName
  let name := n.serviceName
  let exists? ← n.services.exists? name
  if exists? then n.services.stop name
  installFiles n ignition kubelet
  let startCommand ← NodeStep.ofExcept ((command n (← get).kubeletFlags).mapError .kind)
  if exists? then n.services.setStartCommand name startCommand
  else n.services.create name startCommand (some displayName) (some description)
  n.services.start name
  NodeStep.log .info
    (text "Kubelet service " ++ name ++ text " configured with: " ++ startCommand)

end NodeBootstrap.Kubelet
