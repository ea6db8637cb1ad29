import NodeBootstrap.Host

/-!
# The health of the kubelet

The kubelet answers under an endpoint of its own. It is healthy when it answers 200; it is asked a
limited number of times, with a pause between two requests and none behind the last.
-/

set_option autoImplicit false

namespace NodeBootstrap.Health

/-- The status of a healthy kubelet. -/
def healthyStatus : Int := 200

/-- Asks until the kubelet is healthy, `left` times at most. -/
def pollFrom (endpoint trySleep timeout : Value) : Nat → HostStep Bool
  | 0 => return false
  | left + 1 => do
    match ← Host.request endpoint timeout with
    | .broken => throw .environment
    | .unreachable kind =>
      Host.log .debug (text "Kubelet healthz not reachable: " ++ kind)
    | .status code =>
      if code = healthyStatus then
        Host.log .info (text "Kubelet is healthy")
        return true
      Host.log .debug (text "Kubelet healthz returned " ++ Text.ofInt code)
    if 0 < left then Host.sleep trySleep
    pollFrom endpoint trySleep timeout left

/-- Whether the kubelet becomes healthy. -/
def poll (endpoint tries trySleep timeout : Value) : HostStep Bool := do
  match tries.asCount? with
  | none => throw (.kind .unusable)
  | some count =>
    if ← pollFrom endpoint trySleep timeout count.toNat then return true
    Host.log .error
      (text "Kubelet not healthy after " ++ Text.ofInt count ++ text " tries")
    return false

end NodeBootstrap.Health
