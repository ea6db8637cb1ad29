import NodeBootstrap.Flag.Basic
import NodeBootstrap.Host
import NodeBootstrap.InstallLayout
import NodeBootstrap.IpAddress
import NodeBootstrap.Service.Manager
import NodeBootstrap.Settings.Basic

/-!
# A node

One run of the program on a host makes a node of it. A `Node` is what the run is given: the
settings, the layout of the install directory and the paths of the inputs. What it collects
meanwhile are the flags of the kubelet and the flags that the unit of the Linux kubelet declares;
together with the host they are the state of a `NodeStep`.
-/

set_option autoImplicit false

namespace NodeBootstrap

/-- What a run is given. -/
structure Node where
  settings : Settings
  layout : InstallLayout
  ignitionFile : Option Text
  kubeletPath : Option Text
  cniPath : Option Text
  cniConfig : Option Text

/-- The host and the flags collected so far. -/
structure NodeState where
  host : Host
  /-- The flags that the kubelet on the node gets. -/
  kubeletFlags : Flags
  /-- The flags that the unit of the Linux kubelet declares. -/
  unitFlags : OrderedMap Text Text

/-- Operations on a node that may fail and keep what they changed before. -/
abbrev NodeStep := ExceptT Failure (StateM NodeState)

/-- An operation on the host as one on the node. -/
def NodeStep.ofHost {α : Type} (step : HostStep α) : NodeStep α := do
  let s ← get
  let (result, host) := step.run.run s.host
  set { s with host := host }
  match result with
  | .ok a => return a
  | .error failure => throw failure

instance : MonadLiftT HostStep NodeStep := ⟨NodeStep.ofHost⟩

namespace NodeStep

/-- Logs a line. -/
def log (level : LogLevel) (message : Text) : NodeStep Unit := ofHost (Host.log level message)

/-- Sets a flag of the kubelet. -/
def setFlag (name : Text) (value : Value) : NodeStep Unit :=
  modify fun s => { s with kubeletFlags := s.kubeletFlags.set name value }

/-- A result that may be a failure. -/
def ofExcept {α : Type} (result : Except Failure α) : NodeStep α :=
  match result with
  | .ok a => return a
  | .error failure => throw failure

end NodeStep

namespace Node

/-- The flag with the address that the node registers with. -/
def nodeIpFlag : Text := text "node-ip"

/-- The name of the kubelet service. -/
def serviceName (n : Node) : Text := n.settings.serviceName.display

/-- Refuses a name of the kubelet service that is no text: it cannot be a word of a command. -/
def requireName (n : Node) : NodeStep Unit :=
  match n.settings.serviceName with
  | .text _ => return
  | _ => throw (.kind .unusable)

/-- The verbosity of the kubelet if no other is declared. -/
def defaultVerbosity (n : Node) : Text := n.settings.defaultVerbosity.display

/-- The manager of the services of the node. -/
def services (n : Node) : ServiceManager where
  timeout := n.settings.serviceTimeout
  tries := n.settings.serviceTries
  trySleep := n.settings.serviceTrySleep
  connected := true

/-- Whether a text is an IP address; one with a NUL cannot be tested. -/
def testAddress (address : Text) : Except Failure Bool :=
  if .char '\x00' ∈ address then .error .nul else .ok (IpAddress.isValid address)

/-- The flags that a run begins with by a test of addresses: the address of the node, if one is
given. -/
def firstFlagsBy (test : Text → Except Failure Bool) (nodeIp : Option Text) :
    Except Failure Flags :=
  match nodeIp with
  | none | some [] => .ok []
  | some address => do
    if ← test address then return [(nodeIpFlag, .text address)]
    else throw (.argument (.invalidNodeIp address))

/-- The flags that a run begins with. -/
def firstFlags (nodeIp : Option Text) : Except Failure Flags := firstFlagsBy testAddress nodeIp

/-- The layout below an install directory, which has to be a text. -/
def layoutOf (installDirectory : Value) : Except Failure InstallLayout :=
  match installDirectory with
  | .text directory => .ok ⟨directory⟩
  | _ => .error (.kind .unusable)

end Node

end NodeBootstrap
