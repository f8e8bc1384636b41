import LotBridge.Cli.Parse
import LotBridge.Config.Bridge
import LotBridge.Controller.Command
import LotBridge.Gateway.Network

/-!
# The operator tool

`potline-ctl` is the operator's command line to the lines: it resets both,
writes or reads the lot of one, reports the registers and the controller's
status, or prints the settings it would use.

The settings are the bridge's, read as the bridge reads them (the file named
with `--config`, or the first file found in the search; then the
environment; then the checks), and `--endpoint` replaces the endpoint, after
which they are checked again. A refused setting ends the tool with status 2.
Every command but `print-config` works through a controller with the
configured retry policy and ends with status 0 when it succeeded and 1
otherwise; `init` and `status` also print what they found as JSON.

## Main definitions

* `Operator.program`: the command line.
* `Operator.settings`: the settings a command line runs with.
* `Operator.perform`: what a command does through a controller.
* `Operator.run`: the whole tool.
-/

namespace LotBridge

namespace Operator

open Cli

/-- The line argument of `set` and `get`. -/
def lineArg : Arg :=
  { id := "line", value := "LINE", help := "Line number (1 or 2)", reading := .whole 0 255, required := true }

/-- The component option of `set` and `get`. -/
def componentArg : Arg :=
  { id := "component", short := some 'c', long := some "component", value := "COMPONENT",
    help := "Component register (PC or OS)", default := some "PC" }

/-- The tool's command line. -/
def program : Program :=
  { main :=
      { name := "potline-ctl", about := "potline-ctl - potting line operator tool"
        args := [
          { id := "config", short := some 'C', long := some "config", value := "FILE",
            help := "Path to configuration file", reading := .path },
          { id := "endpoint", short := some 'e', long := some "endpoint", value := "ENDPOINT",
            help := "Gateway endpoint, overrides the configuration" }] }
    version := some "0.1.0"
    commands := [
      { name := "init", about := "Reset both lines to lot 0" },
      { name := "set", about := "Write the active lot of a line"
        args := [lineArg,
          { id := "lot", value := "LOT", help := "Lot id, 0 clears the line", reading := .whole 0 4294967295,
            required := true },
          componentArg] },
      { name := "get", about := "Read the active lot of a line", args := [lineArg, componentArg] },
      { name := "status", about := "Read all registers and print the controller status as JSON" },
      { name := "print-config", about := "Print the effective configuration and exit" }] }

/-- The settings a command line runs with, given the environment and the
files around. -/
def settings (env : String → Option String) (w : Workdir) (inv : Invocation) :
    Except Config.ConfigError Config.Bridge := do
  let places := Config.Places.ofEnv env
  let sect := Config.Bridge.configSection places.data
  let (cfg, _) ← sect.layered w places.config (inv.values.get? "config") env
  match inv.values.get? "endpoint" with
  | none => pure cfg
  | some e =>
    let cfg := { cfg with connection := { cfg.connection with endpoint := e } }
    match sect.check w.contains cfg with
    | some reason => throw (.invalid reason)
    | none => pure cfg

/-- Exits with status 0 on success and 1 otherwise. -/
def exitOn (ok : Bool) (stdout : String := "") : Exit := { code := if ok then 0 else 1, stdout }

theorem exitOn_code (ok : Bool) (stdout : String) : (exitOn ok stdout).code = if ok then 0 else 1 := rfl

/-- The value a read gave, if it gave one. -/
def readValue : Answer → Option Int
  | .value v => v
  | .stamp v => v
  | _ => none

/-- The JSON the `status` command prints: the endpoint, every register, the
time stamp register and the controller's status, keys in order. -/
def statusReport (endpoint : String) (registers : List (String × Option Int)) (stamp : Option Int)
    (s : Status) : Json :=
  let status := match s.toJson Json.nat with
    | .object fs => Json.sortedObject fs
    | j => j
  Json.sortedObject [("endpoint", .string endpoint),
    ("registers", Json.sortedObject (registers.map fun (k, v) => (k, Json.opt Json.int v))),
    ("last_updated", Json.opt Json.int stamp), ("status", status)]

/-- Reads every register, then the time stamp, for `status`. -/
def readAll {σ : Type} (c : Controller σ) (st : Controller.State σ) :
    List (String × Option Int) × Option Int × Controller.State σ :=
  let keys := [(Line.one, Component.pc), (.one, .os), (.two, .pc), (.two, .os)]
  let (values, st) := keys.foldl (fun (acc : List (String × Option Int) × Controller.State σ) (l, k) =>
    let (a, st) := c.exec (.get l k) acc.2
    (acc.1 ++ [("line" ++ toString l.number ++ "_" ++ k.name, readValue a)], st)) ([], st)
  let (a, st) := c.exec .lastUpdated st
  (values, readValue a, st)

/-- What a command does through a controller. -/
def perform {σ : Type} (c : Controller σ) (st : Controller.State σ) (command : String) (vs : Values) : Exit :=
  let line := ((vs.get? "line").bind String.toNat?).getD 0
  let component := (vs.get? "component").getD "PC"
  let lot := ((vs.get? "lot").bind String.toNat?).getD 0
  match command with
  | "init" =>
    match c.exec (.reset true) st with
    | (.report a b, _) =>
      exitOn (a && b) (Json.render (.object [("line1", .bool a), ("line2", .bool b)]) ++ "\n")
    | _ => exitOn false
  | "set" =>
    match c.exec (.setRaw line component lot) st with
    | (.done ok, _) => exitOn ok
    | _ => exitOn false
  | "get" =>
    match c.exec (.getRaw line component) st with
    | (.value (some v), _) => exitOn true (toString v ++ "\n")
    | _ => exitOn false
  | _ =>
    let (registers, stamp, st) := readAll c st
    exitOn (st.status.failures == 0)
      (Json.renderPretty (statusReport c.connection.endpoint registers stamp st.status) ++ "\n")

/-- Runs the tool on a command line, in an environment, among files,
through a gateway whose state starts at `gate`; the clock starts at
`startMs`. -/
def runWith {σ : Type} (gateway : Gateway σ) (gate : σ) (words : List String)
    (env : String → Option String) (w : Workdir) (startMs : Nat) : Exit :=
  match program.parse words with
  | .error stop => stop.exit
  | .ok inv =>
    match settings env w inv with
    | .error e => { code := 2, stderr := "potline-ctl: " ++ e.message ++ "\n" }
    | .ok cfg =>
      match inv.command with
      | some ("print-config", _) =>
        match cfg.printed with
        | .ok text => { code := 0, stdout := text }
        | .error m => { code := 2, stderr := "potline-ctl: " ++ m ++ "\n" }
      | some (command, vs) =>
        perform ⟨gateway, cfg.connection, cfg.retry.backoff.policy⟩ { gate, clock := startMs } command vs
      | none => { code := 2 }

/-- Runs the tool with no gateway reachable. -/
def run (words : List String) (env : String → Option String) (w : Workdir) (startMs : Nat) : Exit :=
  runWith (Gateway.offline Unit) () words env w startMs

end Operator

end LotBridge
