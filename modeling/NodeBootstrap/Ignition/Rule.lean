import NodeBootstrap.CloudConfig
import NodeBootstrap.KubeletConfig.Windows
import NodeBootstrap.Node.Basic

/-!
# Rules for files

What becomes of a file of the payload on the node. A rule gives it a place below the install
directory and, for two kinds of files, a transformation: the kubelet config is changed for Windows,
and the cloud config is written in its flat form, which also sets the flag that points the kubelet
at it.
-/

set_option autoImplicit false

namespace NodeBootstrap.Ignition

/-- How the contents of a file are changed. -/
inductive Transform
  | kubeletConfig
  | cloudConfig
  deriving DecidableEq, Repr

/-- Where a file goes, below the install directory, and how it is changed. -/
structure Rule where
  destination : Text
  transform : Option Transform
  deriving DecidableEq, Repr

/-- Rules by the path of the file in the payload. -/
abbrev Rules := OrderedMap Text Rule

/-- The rule for a cloud config. -/
def cloudConfigRule : Rule := ⟨CloudConfig.fileName, some .cloudConfig⟩

/-- The files that every node gets. -/
def defaultRules : Rules := [
  (text "/etc/kubernetes/kubelet-ca.crt", ⟨text "kubelet-ca.crt", none⟩),
  (text "/etc/kubernetes/kubelet.conf", ⟨text "kubelet.conf", some .kubeletConfig⟩),
  (text "/etc/kubernetes/kubeconfig", ⟨text "bootstrap-kubeconfig", none⟩)]

/-- A text that is written to a file. -/
def encodeContents (t : Text) : Except Failure Bytes := (Utf8.encode t).mapError .unencodable

/-- The kubelet config for Windows. -/
def windowsKubeletConfig (installDirectory : Text) (contents : Bytes) : Except Failure Bytes := do
  encodeContents (← (KubeletConfig.forWindows installDirectory contents).mapError .kubeletConfig)

/-- The entries of a cloud config. -/
def loadCloudConfig (contents : Bytes) : Except Failure (OrderedMap Text Json) := do
  let config ← (Json.ofBytes contents).mapError (.document <| .unreadableCloudConfig ·)
  match config with
  | .object entries => return entries
  | config => .error (.document (.cloudConfigNotAnObject config))

/-- The flat form of a cloud config. The flag is set before the form is written. -/
def extractCloudConfig (n : Node) (contents : Bytes) : NodeStep Bytes := do
  let entries ← NodeStep.ofExcept (loadCloudConfig contents)
  let destination := n.layout.file CloudConfig.fileName
  NodeStep.setFlag CloudConfig.flagName (.text destination)
  NodeStep.log .debug
    (text "Extracted " ++ Text.ofNat entries.length ++ text " cloud config entries for " ++
      destination)
  NodeStep.ofExcept (encodeContents (CloudConfig.render entries))

/-- Contents changed by a transformation. -/
def applyTransform (n : Node) (transform : Transform) (contents : Bytes) : NodeStep Bytes :=
  match transform with
  | .kubeletConfig =>
    NodeStep.ofExcept (windowsKubeletConfig n.layout.installDirectory contents)
  | .cloudConfig => extractCloudConfig n contents

/-- The contents of a file from its source, changed. What goes wrong in the change is reported as a
failed transformation with its cause. -/
def materialize (n : Node) (source : Json) (transform : Option Transform) : NodeStep Bytes := do
  let contents ← NodeStep.ofExcept ((DataUri.decode source).mapError Failure.ofSourceFault)
  match transform with
  | none => return contents
  | some transform =>
    try applyTransform n transform contents
    catch cause => throw (.transform cause)

end NodeBootstrap.Ignition
