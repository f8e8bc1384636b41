import LotBridge.Config.Security
import LotBridge.Endpoint

/-!
# Gateway connection settings

Where the gateway is and how long to wait for it: the endpoint, the bounds
on connecting and on one request, the watchdog interval advertised to the
gateway, the namespace the line values live in, and transport security. Times
are in milliseconds.

The settings are valid when the endpoint reads, both bounds are positive, the
namespace is not blank, and the security settings hang together; the first of
these that fails, in that order, is the refusal.

## Main definitions

* `Connection`, `ConnectionProblem`, `Connection.check`.
* `Connection.decoder`, `Connection.toJson`, `Connection.toToml`.
-/

namespace LotBridge.Config

open LotBridge.Json

/-- The connection to a gateway, with its defaults. -/
structure Connection where
  endpoint : String := "opc.tcp://localhost:4840"
  connectTimeoutMs : Nat := 5000
  requestTimeoutMs : Nat := 5000
  watchdogIntervalMs : Nat := 10000
  namespaceUri : String := "urn:potline:lines"
  security : Security := {}
deriving DecidableEq, Repr

/-- What makes connection settings invalid. -/
inductive ConnectionProblem where
  | endpoint (e : EndpointError)
  | zeroConnectTimeout
  | zeroRequestTimeout
  | blankNamespace
  | security (p : SecurityProblem)
deriving DecidableEq, Repr

/-- The wording of a connection problem, naming the key at fault. -/
def ConnectionProblem.message : ConnectionProblem → String
  | .endpoint e => "[connection].endpoint: " ++ e.message
  | .zeroConnectTimeout => "[connection].connect_timeout_ms must be greater than 0"
  | .zeroRequestTimeout => "[connection].request_timeout_ms must be greater than 0"
  | .blankNamespace => "[connection].namespace_uri must not be empty"
  | .security p => p.message

namespace Connection

/-- The first problem of connection settings, given which paths exist. -/
def check (c : Connection) (present : String → Bool) : Option ConnectionProblem :=
  match Endpoint.parse c.endpoint with
  | .error e => some (.endpoint e)
  | .ok _ =>
    if c.connectTimeoutMs = 0 then some .zeroConnectTimeout
    else if c.requestTimeoutMs = 0 then some .zeroRequestTimeout
    else if (Text.trim c.namespaceUri).isEmpty then some .blankNamespace
    else (c.security.check present).map .security

/-- The record form, fields in declaration order. -/
def toJson (c : Connection) : Json :=
  .object [("endpoint", .string c.endpoint), ("connect_timeout_ms", Json.nat c.connectTimeoutMs),
    ("request_timeout_ms", Json.nat c.requestTimeoutMs),
    ("watchdog_interval_ms", Json.nat c.watchdogIntervalMs),
    ("namespace_uri", .string c.namespaceUri), ("security", c.security.toJson)]

/-- The TOML table of the settings; a bound too large for a TOML integer is
refused. -/
def toToml (c : Connection) : Except String Toml.Value := do
  pure (.table [("endpoint", .string c.endpoint),
    ("connect_timeout_ms", ← Toml.Value.ofUnsigned c.connectTimeoutMs),
    ("request_timeout_ms", ← Toml.Value.ofUnsigned c.requestTimeoutMs),
    ("watchdog_interval_ms", ← Toml.Value.ofUnsigned c.watchdogIntervalMs),
    ("namespace_uri", .string c.namespaceUri), ("security", c.security.toToml)])

/-- The members of the record form. -/
def fields : List (Json.Field Connection) :=
  [Json.Field.of "endpoint" Decoder.string fun v c => { c with endpoint := v },
   Json.Field.of "connect_timeout_ms" (Decoder.uint 64 "u64") fun v c => { c with connectTimeoutMs := v },
   Json.Field.of "request_timeout_ms" (Decoder.uint 64 "u64") fun v c => { c with requestTimeoutMs := v },
   Json.Field.of "watchdog_interval_ms" (Decoder.uint 64 "u64")
     fun v c => { c with watchdogIntervalMs := v },
   Json.Field.of "namespace_uri" Decoder.string fun v c => { c with namespaceUri := v },
   Json.Field.of "security" Security.decoder fun v c => { c with security := v }]

/-- Reads connection settings: every member optional, unknown members
skipped. -/
def decoder : Decoder Connection :=
  decodeStruct "ConnectionConfig" fields {} (fun c _ _ => .ok c) false 0

end Connection

end LotBridge.Config
