import NodeBootstrap.Flag.Command
import NodeBootstrap.Node.Basic

/-!
# Network plugins

Installing the network plugins: checking what is given, making the directories, copying the plugins
and their config, and setting the four flags that point the kubelet at them in its start command.
Whatever those flags were before is cut out of the command, so every step can be run again and comes
to the same.
-/

set_option autoImplicit false

namespace NodeBootstrap.Cni

/-- The names of the flags, in the order in which they are written. -/
def flagNames : List Text :=
  [text "resolv-conf", text "network-plugin", text "cni-bin-dir", text "cni-conf-dir"]

/-- The flags for a layout. -/
def flags (l : InstallLayout) : List (Text × Text) :=
  [(text "resolv-conf", []), (text "network-plugin", text "cni"),
    (text "cni-bin-dir", l.cniDirectory), (text "cni-conf-dir", l.cniConfigDirectory)]

/-- A flag whose value is a text as text; texts can always be rendered. -/
def renderTextFlag (name value : Text) : Text :=
  if value.isEmpty || value.any CodePoint.isBlank then
    text "--" ++ name ++ text "=\"" ++ value ++ text "\""
  else text "--" ++ name ++ text "=" ++ value

/-- A start command with the flags for a layout in place of earlier ones. -/
def updatedCommand (l : InstallLayout) (command : Text) : Text :=
  let bare := flagNames.foldl (fun command name => Command.withoutFlag name command) command
  Text.stripped bare ++ text " " ++
    Text.join (text " ") ((flags l).map fun (name, value) => renderTextFlag name value)

/-- Sets the flags of the kubelet and gives the start command with them. -/
def updateFlags (n : Node) (command : Text) : NodeStep Text := do
  modify fun s =>
    { s with
      kubeletFlags := s.kubeletFlags.merge ((flags n.layout).map fun (k, v) => (k, .text v)) }
  return updatedCommand n.layout command

/-- Refuses a path that was not given or cannot be followed. -/
def requirePath (area : PathFault → Failure) (path : Option Text) : NodeStep Text := do
  match path with
  | none => throw (area .notGiven)
  | some path =>
    let _ ← Host.askFiles (fun cause => area (.inaccessible path cause)) (·.status path)
    return path

/-- Checks that the install directory and the plugins are directories and their config is none. -/
def checkInputs (n : Node) : NodeStep Unit := do
  let directory ← requirePath .installDirectory (some n.layout.installDirectory)
  if !(← get).host.files.isDirectory directory then
    throw (.installDirectory (.wrongKind directory))
  let plugins ← requirePath .cniPath n.cniPath
  if !(← get).host.files.isDirectory plugins then throw (.cniPath (.wrongKind plugins))
  let config ← requirePath .cniConfig n.cniConfig
  if (← get).host.files.isDirectory config then throw (.cniConfig (.wrongKind config))

/-- Makes the directories for the plugins and their config unless they are there. -/
def ensureDirectories (n : Node) : NodeStep Unit := do
  let path := n.layout.cniConfigDirectory
  if (← get).host.files.isDirectory path then return
  NodeStep.log .info (text "Creating CNI directory " ++ path)
  Host.onFiles (.directoryCreation path true) (FileTree.makeDirectories path true)

/-- Copies a file into a directory under its own name, and gives the new path. -/
def copyInto (directory source : Text) : NodeStep Text := do
  let destination := Path.join directory (Path.baseName source)
  Host.onFiles (fun cause => .copy (.failed source destination cause))
    (FileTree.copy source destination)
  return destination

/-- The files directly in the directory of the plugins. Without a directory the working directory is
listed, but nothing in it can be named. -/
def pluginFiles (n : Node) : NodeStep (List Text) := do
  let names ← Host.askFiles (fun cause => .copy (.unreadablePlugins n.cniPath cause))
    (·.list (n.cniPath.getD (text ".")))
  match n.cniPath with
  | none => if names.isEmpty then return [] else throw (.kind .unusable)
  | some directory =>
    let files := (← get).host.files
    return (names.map (Path.join directory ·)).filter files.isFile

/-- Copies the plugins and their config. -/
def copyFiles (n : Node) : NodeStep Unit := do
  let files ← pluginFiles n
  if files.isEmpty then throw (.copy (.noPlugins n.cniPath))
  for source in files do
    let _ ← copyInto n.layout.cniDirectory source
  NodeStep.log .info
    (text "Copied " ++ Text.ofNat files.length ++ text " CNI binaries to " ++
      n.layout.cniDirectory)
  match n.cniConfig with
  | none => throw (.kind .unusable)
  | some config =>
    let destination ← copyInto n.layout.cniConfigDirectory config
    NodeStep.log .info (text "Copied CNI config to " ++ destination)

/-- Installs the plugins and starts the kubelet anew with the flags that point at them. -/
def configure (n : Node) : NodeStep Unit := do
  n.requireName
  let name := n.serviceName
  match ← n.services.startCommand? name with
  | none => throw (.noService name)
  | some command =>
    checkInputs n
    ensureDirectories n
    copyFiles n
    let newCommand ← updateFlags n command
    n.services.stop name
    n.services.setStartCommand name newCommand
    n.services.start name
    NodeStep.log .info (text "Kubelet service " ++ name ++ text " reconfigured for CNI")

end NodeBootstrap.Cni
