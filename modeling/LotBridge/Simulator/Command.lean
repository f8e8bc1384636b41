import LotBridge.Cli.Parse
import LotBridge.Logging
import LotBridge.Simulator

/-!
# The simulator's command line

`potline-sim` serves a simulated gateway: it listens on an address, publishes
the line values under a namespace, may require a user name and password, and
logs at a level. When it listens it announces so at the info level, then
serves until it is interrupted, after which it ends with status 0.

Listening works on the addresses of this host: the loopback addresses and
the unspecified ones. On any other address it fails, and the program ends
with status 1, the error written out.

## Main definitions

* `Simulator.program`: the command line.
* `Simulator.Served`, `Simulator.serve`: how a run ends when interrupted.
-/

namespace LotBridge

namespace Simulator

open Cli

/-- The simulator's command line. -/
def program : Program :=
  { main :=
      { name := "potline-sim", about := "potline-sim - line gateway simulator"
        args := [
          { id := "listen", short := some 'l', long := some "listen", value := "LISTEN",
            help := "Address to listen on", reading := .socket, default := some "127.0.0.1:4840" },
          { id := "namespace-uri", long := some "namespace-uri", value := "NAMESPACE_URI",
            help := "Namespace URI the line values are published under", default := some "urn:potline:lines" },
          { id := "username", long := some "username", value := "USERNAME",
            help := "Require this user name in the session handshake", requires := ["password"] },
          { id := "password", long := some "password", value := "PASSWORD",
            help := "Password for --username", requires := ["username"] },
          { id := "log-level", long := some "log-level", value := "LOG_LEVEL",
            help := "Log level (trace, debug, info, warn, error)" }] }
    version := some "0.1.0" }

/-- Whether this host can listen on an address: a loopback or unspecified
one. -/
def listensOn : SocketAddress → Bool
  | .v4 parts _ => parts.head? == some 127 || parts == [0, 0, 0, 0]
  | .v6 groups _ _ => groups == List.replicate 8 0 || groups == List.replicate 7 0 ++ [1]

theorem listensOn_loopback (port : Nat) : listensOn (.v4 [127, 0, 0, 1] port) = true := rfl

/-- What the program writes when it cannot listen on its address. -/
def cannotListen : String :=
  "Error: Os \x7b code: 99, kind: AddrNotAvailable, message: \"Cannot assign requested address\" \x7d\n"

/-- How a run ends when interrupted: what the program printed, and whether it
announced that it serves. -/
structure Served where
  exit : Exit
  ready : Bool
deriving DecidableEq, Repr

/-- Runs the simulator on a command line until it is interrupted. -/
def serve (words : List String) : Served :=
  match program.parse words with
  | .error stop => ⟨stop.exit, false⟩
  | .ok inv =>
    match (inv.values.get? "listen").bind readSocketAddress with
    | some a =>
      if listensOn a then ⟨{ code := 0 }, (LogLevel.ofSetting (inv.values.get? "log-level")).logs .info⟩
      else ⟨{ code := 1, stderr := cannotListen }, false⟩
    | none => ⟨{ code := 1, stderr := cannotListen }, false⟩

end Simulator

end LotBridge
