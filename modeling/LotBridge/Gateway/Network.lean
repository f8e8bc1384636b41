import LotBridge.Gateway
import LotBridge.Endpoint

/-!
# A gateway across a network that is down

A gateway reached over the network, from a host whose network is down: no
connection is ever made. An attempt fails first on the endpoint, which must
read; then on its address, whose host may not hold a NUL character; and
otherwise because the network cannot be reached. The first failure names the
endpoint as configured, the others the endpoint as read.

Nothing is ever connected, so the other requests are never made; they answer
as a gateway that has lost the connection would.

## Main definitions

* `networkUnreachable`, `unreachableReason`.
* `Gateway.offline`: such a gateway, over any state, which it leaves alone.
-/

namespace LotBridge

/-- The words of the operating system for an unreachable network. -/
def networkUnreachable : String := "Network is unreachable (os error 101)"

/-- The words for a host name holding a NUL character. -/
def nulInHost : String := "file name contained an unexpected NUL byte"

/-- Why a connection to a configured endpoint fails. -/
def unreachableReason (configured : String) : Failure :=
  match Endpoint.parse configured with
  | .error e => .connection configured e.message
  | .ok e =>
    if e.host.toList.contains (Char.ofNat 0) then .connection e.render nulInHost
    else .connection e.render networkUnreachable

/-- The requests of a gateway across a network that is down. Nothing reaches
the gateway, so the state `τ` stays as it is. -/
def Gateway.offline (τ : Type) : Gateway τ where
  connect c g := (.answer (.error (unreachableReason c.endpoint)), g)
  namespaces g := (.error (.operation "session" networkUnreachable), g)
  read a g := (.answer (.error (.operation a.render networkUnreachable)), g)
  write a _ g := (.answer (.error (.operation a.render networkUnreachable)), g)
  close g := (.ok (), g)
  release g := g

end LotBridge
