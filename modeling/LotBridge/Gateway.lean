import LotBridge.Failure
import LotBridge.Register
import LotBridge.Config.Connection

/-!
# Gateways

A line controller reaches the registers through a gateway: it connects, asks
for the namespaces the gateway publishes, reads and writes registers by
address, and closes the connection again. A gateway has a state of its own
that every request may change: register values, counters, a log of requests.

A request is answered, or never: a gateway that hangs gives `Reply.silent`,
and the caller decides how long to wait. A session that is abandoned with its
connection open drops the connection without closing it: `release`.

## Main definitions

* `Reply`: an answer or silence.
* `Gateway`: the requests a gateway serves, over its state.
-/

namespace LotBridge

/-- What a gateway does with a request: answers it, or never answers. -/
inductive Reply (α : Type) where
  | answer (r : Except Failure α)
  | silent
deriving Repr

/-- The requests a gateway serves, each a change of its state `σ`. -/
structure Gateway (σ : Type) where
  /-- Opens a connection for the given settings. -/
  connect : Config.Connection → σ → Reply Unit × σ
  /-- The namespaces the gateway publishes; a namespace's index is its
  position in the list. -/
  namespaces : σ → Except Failure (List String) × σ
  /-- Reads a register. -/
  read : Address → σ → Reply Int × σ
  /-- Writes a register. -/
  write : Address → Int → σ → Reply Unit × σ
  /-- Closes the open connection. -/
  close : σ → Except Failure Unit × σ
  /-- Drops the open connection without closing it. -/
  release : σ → σ

end LotBridge
