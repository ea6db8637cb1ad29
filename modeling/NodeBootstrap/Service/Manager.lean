import NodeBootstrap.Host
import NodeBootstrap.Service.Output

/-!
# The service manager

Looks up, changes, starts and stops services through the service control program. Some codes of the
program are no failures: that a service does not exist when it is looked up, that it runs already
when it is started, that it does not run when it is stopped.

A start or a stop ends when the service reports the state: it is asked a limited number of times,
with a pause after each answer that is another.
-/

set_option autoImplicit false

namespace NodeBootstrap

/-- How services are waited for, and whether the manager is still in use. -/
structure ServiceManager where
  timeout : Value
  tries : Value
  trySleep : Value
  connected : Bool

namespace ServiceManager

/-- The name of the service control program. -/
def program : Text := text "sc.exe"

/-- The room for the config of a service; long start commands do not fit into the default. -/
def configRoom : Text := text "8192"

/-- A service that is started runs already. -/
def alreadyRunning : Int := 1056

/-- There is no such service. -/
def doesNotExist : Int := 1060

/-- A service that is stopped does not run. -/
def notActive : Int := 1062

/-- Runs the program. Codes other than zero and those allowed are failures. -/
def run (m : ServiceManager) (words : List Text) (allowed : List Int) : HostStep (Int × Text) := do
  if !m.connected then throw (.service .disconnected)
  let command := program :: words
  match ← Host.runControl program words with
  | .timedOut => throw (.service (.notExecuted command (.timedOut m.timeout)))
  | .noProgram => throw (.service (.notExecuted command .noProgram))
  | .broken => throw .environment
  | .finished code output =>
    let output := Text.stripped output
    if code ≠ 0 ∧ code ∉ allowed then throw (.service (.failed command code output))
    return (code, output)

/-- The start command of a service, `none` if it does not exist. -/
def startCommand? (m : ServiceManager) (name : Text) : HostStep (Option Text) := do
  let (code, output) ← m.run [text "qc", name, configRoom] [doesNotExist]
  if code = doesNotExist then return none
  match ServiceOutput.startCommand? output with
  | some command => return some command
  | none => throw (.service (.noStartCommand name))

/-- Whether a service exists. -/
def exists? (m : ServiceManager) (name : Text) : HostStep Bool := do
  return (← m.startCommand? name).isSome

/-- Gives a service another start command. -/
def setStartCommand (m : ServiceManager) (name command : Text) : HostStep Unit := do
  Host.log .debug
    (text "Setting start command of service " ++ name ++ text " to: " ++ command)
  let _ ← m.run [text "config", name, text "binPath=", command] []

/-- Makes a service that starts with the host, displayed under its own name if no other is given. -/
def create (m : ServiceManager) (name command : Text) (displayName description : Option Text) :
    HostStep Unit := do
  Host.log .info (text "Creating service " ++ name)
  let shownName :=
    match displayName with
    | some (c :: rest) => c :: rest
    | _ => name
  let _ ← m.run
    [text "create", name, text "binPath=", command, text "start=", text "auto",
      text "DisplayName=", shownName] []
  match description with
  | some (c :: rest) =>
    let _ ← m.run [text "description", name, c :: rest] []
  | _ => return

/-- The state that a service reports. -/
def queryState (m : ServiceManager) (name : Text) : HostStep Text := do
  let (_, output) ← m.run [text "query", name] []
  match ServiceOutput.state? output with
  | some state => return state
  | none => throw (.service (.noState name))

/-- Asks until the state is reached, `left` times at most; `tries` is the number for the log. -/
def waitFor (m : ServiceManager) (name state : Text) (tries : Int) : Nat → HostStep Unit
  | 0 => throw (.service (.stateNotReached name state))
  | left + 1 => do
    let current ← m.queryState name
    if current = state then return
    Host.log .debug
      (text "Service " ++ name ++ text " is " ++ current ++ text ", waiting for " ++ state ++
        text " (attempt " ++ Text.ofInt (tries - left) ++ text "/" ++ Text.ofInt tries ++ text ")")
    Host.sleep m.trySleep
    m.waitFor name state tries left

/-- Waits for a state. -/
def waitForState (m : ServiceManager) (name state : Text) : HostStep Unit := do
  match m.tries.asCount? with
  | none => throw (.kind .unusable)
  | some tries => m.waitFor name state tries tries.toNat

/-- Starts a service and waits until it runs. -/
def start (m : ServiceManager) (name : Text) : HostStep Unit := do
  Host.log .info (text "Starting service " ++ name)
  let _ ← m.run [text "start", name] [alreadyRunning]
  m.waitForState name ServiceState.running

/-- Stops a service and waits until it does not run any more. -/
def stop (m : ServiceManager) (name : Text) : HostStep Unit := do
  Host.log .info (text "Stopping service " ++ name)
  let _ ← m.run [text "stop", name] [notActive]
  m.waitForState name ServiceState.stopped

/-- The manager out of use. -/
def close (m : ServiceManager) : ServiceManager := { m with connected := false }

end ServiceManager

end NodeBootstrap
