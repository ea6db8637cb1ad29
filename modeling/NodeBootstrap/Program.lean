import NodeBootstrap.CommandLine.Invocation
import NodeBootstrap.Health
import NodeBootstrap.Node.Cni
import NodeBootstrap.Node.Kubelet
import NodeBootstrap.Settings.File

/-!
# The program

One run of the program on a host: the settings are loaded, the log is opened, the command is carried
out, and if that is asked for the run waits until the kubelet is healthy. The exit status is 0 for a
run that came to its end, and 1 for one with a failure that the log reports or with a kubelet that
did not become healthy. A failure that nothing has foreseen ends the run without a status.

The log goes to the standard error stream, and to a file in the install directory if that can be
opened. Making the install directory is left to the command that installs the kubelet.

Which texts are IP addresses and what a settings file says is left to libraries, and a run is one by
any of them (`Program.runBy`); `Program.run` is the one by those of this project.
-/

set_option autoImplicit false

namespace NodeBootstrap.Program

open CommandLine

/-- What a run leaves to libraries: a test of IP addresses, which may fail itself, and a reader of
settings files. -/
structure Libraries where
  testAddress : Text → Except Failure Bool
  readSettings : Settings.Reader

/-- The libraries of this project. -/
def Libraries.own : Libraries := ⟨Node.testAddress, Yaml.ofText⟩

/-- The name of the log file in the log directory. -/
def logFileName : Text := text "wmcb.log"

/-- Logs from now on what matters enough, to the standard error stream only. -/
def setThreshold (threshold : LogLevel) : HostStep Unit :=
  modify fun h => { h with journal := { h.journal with threshold := threshold } }

/-- Logs from now on to a file too. -/
def setLogFile (path : Text) : HostStep Unit :=
  modify fun h => { h with journal := { h.journal with file := some path } }

/-- Says that there is no log file. -/
def warnNoLogFile (directory reason : Text) : HostStep Unit :=
  Host.log .warning (text "Logging to " ++ directory ++ text " disabled: " ++ reason)

/-- Makes a log directory and opens the log file in it; the file is named without dots and spare
slashes. -/
def createLogFile (directory : Text) : FileStep Text := do
  if !(← get).exists? directory then FileTree.makeDirectories directory false
  let path := Path.join directory logFileName
  FileTree.usable path
  FileTree.append (Path.normal path) []
  return Path.normal path

/-- Opens the log below an install directory. A log file that cannot be opened is a warning; with
`create` a missing directory is made. -/
def openLog (layout : InstallLayout) (debug create : Bool) : HostStep Unit := do
  setThreshold (if debug then .debug else .info)
  let directory := layout.logDirectory
  let h ← get
  if !create && !h.files.isDirectory layout.installDirectory then
    warnNoLogFile directory (text "install directory not present")
  else
    let (result, files) := (createLogFile directory).run.run h.files
    set { h with files := files }
    match result with
    | .ok path => setLogFile path
    | .error .nul => throw .nul
    | .error (.unencodable fault) => throw (.unencodable fault)
    | .error fault => warnNoLogFile directory fault.message

/-- The node of an action, and the flags that its kubelet begins with. -/
def nodeOf (libraries : Libraries) (settings : Settings) (layout : InstallLayout) :
    Action → Except Failure (Node × Flags)
  | .initializeKubelet ignitionFile kubeletPath nodeIp => do
    let flags ← Node.firstFlagsBy libraries.testAddress nodeIp
    return (⟨settings, layout, some ignitionFile, some kubeletPath, none, none⟩, flags)
  | .configureCni path config => .ok (⟨settings, layout, none, none, some path, some config⟩, [])

/-- What an action does on its node. -/
def onNode : Action → Node → NodeStep Unit
  | .initializeKubelet .. => Kubelet.install
  | .configureCni .. => Cni.configure

/-- Carries an action out. -/
def act (libraries : Libraries) (settings : Settings) (layout : InstallLayout) (action : Action) :
    HostStep Unit := do
  let (node, flags) ← nodeOf libraries settings layout action
  let h ← get
  let (result, state) := (onNode action node).run.run ⟨h, flags, []⟩
  set state.host
  result

/-- Waits until the kubelet is healthy, and says whether it became so. -/
def waitForKubelet (settings : Settings) : HostStep Bool :=
  Health.poll settings.healthEndpoint settings.healthTries settings.healthTrySleep
    settings.healthTimeout

/-- Carries an invocation out once the log is open, and says whether the run came to its end. -/
def perform (libraries : Libraries) (i : Invocation) (settings : Settings)
    (layout : InstallLayout) : HostStep Bool := do
  act libraries settings layout i.action
  if i.waitForKubelet then waitForKubelet settings else return true

/-- Logs a failure that is reported, with words in front. Any other goes on. -/
def report (before : Text) (failure : Failure) : HostStep Unit :=
  if failure.isReported then Host.log .error (before ++ failure.message) else throw failure

/-- The settings of an invocation. -/
def settingsOf (libraries : Libraries) (i : Invocation) (files : FileTree) :
    Except Failure Settings :=
  Settings.loadBy libraries.readSettings files i.settingsFile
    ((i.installDirectory.map fun d => (text "install_dir", Value.text d)).toList)

/-- Whether an action installs the node anew. -/
def installs : Action → Bool
  | .initializeKubelet .. => true
  | .configureCni .. => false

/-- One run by some libraries, with its exit status. -/
def runBy (libraries : Libraries) (i : Invocation) : HostStep Nat := do
  match settingsOf libraries i (← get).files with
  | .error failure =>
    report [] failure
    return 1
  | .ok settings =>
    let layout ← Node.layoutOf settings.installDirectory
    openLog layout i.debug (installs i.action)
    try
      if ← perform libraries i settings layout then
        Host.log .info (i.action.name ++ text " completed successfully")
        return 0
      else return 1
    catch failure =>
      report (i.action.name ++ text " failed: ") failure
      return 1

/-- One run with its exit status. -/
def run (i : Invocation) : HostStep Nat := runBy .own i

end NodeBootstrap.Program
