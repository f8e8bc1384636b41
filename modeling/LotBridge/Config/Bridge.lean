import LotBridge.Config.Connection
import LotBridge.Config.Section
import LotBridge.Retry.Config

/-!
# The bridge configuration

The bridge reads the `[potline]` section: general settings (the log level),
the gateway connection, the retry schedule and the completion log. Every
setting has a default; the completion log lives under the user's data
directory by default.

The environment overrides settings by name: `POTLINE_ENDPOINT`,
`POTLINE_CONNECT_TIMEOUT_MS`, `POTLINE_REQUEST_TIMEOUT_MS`,
`POTLINE_WATCHDOG_INTERVAL_MS`, `POTLINE_NAMESPACE_URI`, `POTLINE_USERNAME`,
`POTLINE_PASSWORD`, `POTLINE_RETRY_ATTEMPTS`, `POTLINE_RETRY_DELAY_MS`,
`POTLINE_RETRY_MAX_DELAY_MS` and `POTLINE_LOG_LEVEL`, applied in that order;
numbers are read with blanks around them dropped, and the first that does not
read stops the overriding.

The configuration is valid when the retry schedule, then the connection, then
the completion log are: an enabled log needs a directory that is not blank.

Printed, the configuration is a TOML document with the section `[potline]`,
the password masked and absent settings left out. TOML integers are signed
64-bit, so a time above the largest of them cannot be printed.

## Main definitions

* `General`, `CompletionLog`, `Bridge`, `Bridge.default`.
* `Bridge.applyEnv`, `Bridge.check`, `Bridge.configSection`.
* `Bridge.toJson`, `Bridge.masked`, `Bridge.printed`.
-/

namespace LotBridge.Config

open LotBridge.Json

/-- General settings. -/
structure General where
  logLevel : Option String := some "info"
deriving DecidableEq, Repr

/-- The log of completed lots: whether it is written, where, and the name of
its file, in which `%YYYY%`, `%MM%` and `%DD%` stand for the date. -/
structure CompletionLog where
  enabled : Bool
  dir : String
  file : String
deriving DecidableEq, Repr

/-- The default log: off, in the user's data directory, or in
`logs/completions` for a user without one. -/
def CompletionLog.default (dataDir : Option String) : CompletionLog :=
  ⟨false, (dataDir.map (· ++ "/potline/completions")).getD "logs/completions",
    "completions-%YYYY%-%MM%-%DD%.log"⟩

/-- The bridge's settings. -/
structure Bridge where
  general : General
  connection : Connection
  retry : Retry.Settings
  completionLog : CompletionLog
deriving DecidableEq, Repr

/-- The data directory of a user with a home directory. -/
def dataDirOf (home : String) : Option String := some (home ++ "/.local/share")

/-- The default settings, for a user's data directory. -/
def Bridge.default (dataDir : Option String) : Bridge := ⟨{}, {}, {}, CompletionLog.default dataDir⟩

/-- What makes the bridge's settings invalid. -/
inductive BridgeProblem where
  | retry (p : Retry.Problem)
  | connection (p : ConnectionProblem)
  | blankLogDir
deriving DecidableEq, Repr

/-- The wording of a problem of the settings. -/
def BridgeProblem.message : BridgeProblem → String
  | .retry p => p.message
  | .connection p => p.message
  | .blankLogDir => "[completion_log].dir must not be empty when enabled"

namespace Bridge

/-- The first problem of the settings, given which paths exist. -/
def check (b : Bridge) (present : String → Bool) : Option BridgeProblem :=
  match b.retry.check with
  | some p => some (.retry p)
  | none =>
    match b.connection.check present with
    | some p => some (.connection p)
    | none =>
      if b.completionLog.enabled && (Text.trim b.completionLog.dir).isEmpty then
        some .blankLogDir
      else none

/-- Overrides settings from the environment, in the fixed order of the
variables. -/
def applyEnv (env : String → Option String) (b : Bridge) : Except ConfigError Bridge := do
  let c := b.connection
  let c := { c with endpoint := (env "POTLINE_ENDPOINT").getD c.endpoint }
  let c := { c with
    connectTimeoutMs := ← envSetting env "POTLINE_CONNECT_TIMEOUT_MS" 18446744073709551616 c.connectTimeoutMs }
  let c := { c with
    requestTimeoutMs := ← envSetting env "POTLINE_REQUEST_TIMEOUT_MS" 18446744073709551616 c.requestTimeoutMs }
  let c := { c with
    watchdogIntervalMs := ← envSetting env "POTLINE_WATCHDOG_INTERVAL_MS" 18446744073709551616 c.watchdogIntervalMs }
  let c := { c with namespaceUri := (env "POTLINE_NAMESPACE_URI").getD c.namespaceUri }
  let s := c.security
  let s := { s with username := (env "POTLINE_USERNAME").orElse fun _ => s.username }
  let s := { s with password := (env "POTLINE_PASSWORD").orElse fun _ => s.password }
  let r := b.retry
  let r := { r with attempts := ← envSetting env "POTLINE_RETRY_ATTEMPTS" 4294967296 r.attempts }
  let r := { r with delayMs := ← envSetting env "POTLINE_RETRY_DELAY_MS" 18446744073709551616 r.delayMs }
  let r := { r with maxDelayMs := ← envSetting env "POTLINE_RETRY_MAX_DELAY_MS" 18446744073709551616 r.maxDelayMs }
  let g := { logLevel := (env "POTLINE_LOG_LEVEL").orElse fun _ => b.general.logLevel : General }
  pure ⟨g, { c with security := s }, r, b.completionLog⟩

/-- The environment variables `applyEnv` reads. -/
def envNames : List String :=
  ["POTLINE_ENDPOINT", "POTLINE_CONNECT_TIMEOUT_MS", "POTLINE_REQUEST_TIMEOUT_MS",
   "POTLINE_WATCHDOG_INTERVAL_MS", "POTLINE_NAMESPACE_URI", "POTLINE_USERNAME", "POTLINE_PASSWORD",
   "POTLINE_RETRY_ATTEMPTS", "POTLINE_RETRY_DELAY_MS", "POTLINE_RETRY_MAX_DELAY_MS", "POTLINE_LOG_LEVEL"]

/-- The record form, fields in declaration order. -/
def toJson (b : Bridge) : Json :=
  .object [("general", .object [("log_level", (b.general.logLevel.map Json.string).getD .null)]),
    ("connection", b.connection.toJson), ("retry", b.retry.toJson),
    ("completion_log", .object [("enabled", .bool b.completionLog.enabled),
      ("dir", .string b.completionLog.dir), ("file", .string b.completionLog.file)])]

/-- The TOML table of the settings; absent settings are left out, and a
number too large for a TOML integer is refused. -/
def toToml (b : Bridge) : Except String Toml.Value := do
  pure (.table [("general", .table ((b.general.logLevel.map fun l => ("log_level", .string l)).toList)),
    ("connection", ← b.connection.toToml),
    ("retry", .table [("attempts", .integer b.retry.attempts),
      ("delay_ms", ← Toml.Value.ofUnsigned b.retry.delayMs),
      ("max_delay_ms", ← Toml.Value.ofUnsigned b.retry.maxDelayMs),
      ("backoff", .string b.retry.shape.name)]),
    ("completion_log", .table [("enabled", .boolean b.completionLog.enabled),
      ("dir", .string b.completionLog.dir), ("file", .string b.completionLog.file)])])

/-- The text of the mask that stands for a password. -/
def passwordMask : String := "********"

/-- The settings with the password, when there is one, replaced by the
mask. -/
def masked (b : Bridge) : Bridge :=
  let s := b.connection.security
  { b with connection := { b.connection with
      security := { s with password := s.password.map fun _ => passwordMask } } }

/-- The settings as a TOML document under `[potline]`, the password masked,
arrays spread over lines; a time above the largest TOML integer is refused. -/
def printed (b : Bridge) : Except String String := do
  match (Toml.Value.table [("potline", ← b.masked.toToml)]).sortKeys with
  | .table entries => pure (Toml.documentText true entries)
  | _ => pure ""

/-- The members of the general settings. -/
def generalFields : List (Json.Field General) :=
  [Json.Field.of "log_level" (Decoder.option Decoder.string) fun v _ => { logLevel := v }]

/-- The members of the completion log settings. -/
def logFields : List (Json.Field CompletionLog) :=
  [Json.Field.of "enabled" Decoder.bool fun v l => { l with enabled := v },
   Json.Field.of "dir" Decoder.string fun v l => { l with dir := v },
   Json.Field.of "file" Decoder.string fun v l => { l with file := v }]

/-- Reads completion log settings: every member optional, unknown members
skipped. -/
def logDecoder (dataDir : Option String) : Decoder CompletionLog :=
  decodeStruct "CompletionLogConfig" logFields (CompletionLog.default dataDir) (fun l _ _ => .ok l) false 0

/-- Reads the settings: every member optional, unknown members skipped. -/
def decoder (dataDir : Option String) : Decoder Bridge :=
  let d := Bridge.default dataDir
  let general := decodeStruct "GeneralConfig" generalFields d.general (fun g _ _ => .ok g) false 0
  let log := logDecoder dataDir
  decodeStruct "BridgeConfig"
    [Json.Field.of "general" general fun v b => { b with general := v },
     Json.Field.of "connection" Connection.decoder fun v b => { b with connection := v },
     Json.Field.of "retry" Retry.Settings.decoder fun v b => { b with retry := v },
     Json.Field.of "completion_log" log fun v b => { b with completionLog := v }]
    d (fun b _ _ => .ok b) false 0

/-- The bridge's section of the configuration file. -/
def configSection (dataDir : Option String) : Section Bridge :=
  ⟨"potline", decoder dataDir, Bridge.default dataDir, applyEnv,
    fun present b => (b.check present).map BridgeProblem.message⟩

end Bridge

end LotBridge.Config
