import NodeBootstrap.CommandLine.Option

/-!
# Invocations

The command lines of the program: options for all commands, the name of a command, and the options
of that command. A command line that is none of them is refused as a whole.
-/

set_option autoImplicit false

namespace NodeBootstrap.CommandLine

/-- A command with its inputs. -/
inductive Action
  | initializeKubelet (ignitionFile kubeletPath : Text) (nodeIp : Option Text)
  | configureCni (path config : Text)
  deriving DecidableEq, Repr

/-- A command line that is understood. -/
structure Invocation where
  settingsFile : Option Text
  installDirectory : Option Text
  /-- Whether all log lines are kept. -/
  debug : Bool
  action : Action
  /-- Whether the run waits until the kubelet is healthy. -/
  waitForKubelet : Bool
  deriving DecidableEq, Repr

/-- The name of a command. -/
def Action.name : Action → Text
  | .initializeKubelet .. => text "initialize-kubelet"
  | .configureCni .. => text "configure-cni"

/-! ## Options -/

def settingsOption : OptionSpec := ⟨text "--settings", true, false⟩

def installDirectoryOption : OptionSpec := ⟨text "--install-dir", true, false⟩

def debugOption : OptionSpec := ⟨text "--debug", false, false⟩

def ignitionFileOption : OptionSpec := ⟨text "--ignition-file", true, true⟩

def kubeletPathOption : OptionSpec := ⟨text "--kubelet-path", true, true⟩

def nodeIpOption : OptionSpec := ⟨text "--node-ip", true, false⟩

def cniPathOption : OptionSpec := ⟨text "--cni-path", true, true⟩

def cniConfigOption : OptionSpec := ⟨text "--cni-config", true, true⟩

def waitOption : OptionSpec := ⟨text "--wait-for-kubelet", false, false⟩

/-- The options in front of the name of a command. -/
def commonOptions : List OptionSpec := [settingsOption, installDirectoryOption, debugOption]

/-- A command by its name: its options, and the action that they describe once they are complete. -/
structure CommandSpec where
  name : Text
  options : List OptionSpec
  action : Given → Option Action

/-- The commands. -/
def commands : List CommandSpec := [
  { name := text "initialize-kubelet"
    options := [ignitionFileOption, kubeletPathOption, nodeIpOption, waitOption]
    action := fun given => do
      let ignitionFile ← given.get? ignitionFileOption.name
      let kubeletPath ← given.get? kubeletPathOption.name
      return .initializeKubelet ignitionFile kubeletPath (given.get? nodeIpOption.name) },
  { name := text "configure-cni"
    options := [cniPathOption, cniConfigOption, waitOption]
    action := fun given => do
      let path ← given.get? cniPathOption.name
      let config ← given.get? cniConfigOption.name
      return .configureCni path config }]

/-! ## Reading a command line -/

/-- The options and the action of a command from the words behind its name. A word that nothing
takes is refused only at the end, so a later one can still ask for help. -/
def readCommand (command : CommandSpec) (words : List Text) : Except Refusal (Action × Given) := do
  let progress ← take false [] false (← classifyAll command.options words)
  if progress.hasExtras ∨ !isComplete command.options progress.given then throw .misuse
  match command.action progress.given with
  | some action => return (action, progress.given)
  | none => throw .misuse

/-- The invocation that a command line writes. -/
def parse (words : List Text) : Except Refusal Invocation := do
  let progress ← take true [] false (← classifyAll commonOptions words)
  match progress.rest with
  | [] => throw .misuse
  | name :: rest =>
    match commands.find? fun c => c.name = name with
    | none => throw .misuse
    | some command =>
      let (action, given) ← readCommand command rest
      if progress.hasExtras then throw .misuse
      return {
        settingsFile := progress.given.get? settingsOption.name
        installDirectory := progress.given.get? installDirectoryOption.name
        debug := progress.given.hasKey debugOption.name
        action := action
        waitForKubelet := given.hasKey waitOption.name }

end NodeBootstrap.CommandLine
