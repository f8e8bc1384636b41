import LotBridge.Toml.Node
import LotBridge.Toml.Writer
import LotBridge.Workdir
import LotBridge.Text.Unsigned
import LotBridge.Text.Blank

/-!
# Configuration sections

A program reads its settings from one section of a TOML configuration file,
`[<key>]`. Settings come in layers: defaults, then the file, then the
environment, and the result is checked last.

Reading a section from a file: the file is read and parsed as a whole; a
file without the section yields nothing. The section is written back out as
a document of its own and decoded from that text, so every value it does not
set keeps its default; a refusal of the decoding points into the text written
back. A section that is no table cannot be written out.

The file is either named, and then it must hold the section, or searched for
in the working directory, then the user's and the system's configuration
directories; the first existing file that holds the section wins, and with
none the defaults stand.

## Main definitions

* `ConfigError`, `ConfigError.message`, `ConfigError.kind`.
* `Section`: what a program knows of its section.
* `Section.fromFile`, `Section.load`, `Section.search`, `Section.layered`.
* `envNumber`, `envSetting`: numbers read from the environment.
-/

namespace LotBridge.Config

open LotBridge.Json LotBridge.Toml

/-- Why no configuration could be had. -/
inductive ConfigError where
  | read (path reason : String)
  | parse (path reason : String)
  | env (name reason : String)
  | invalid (reason : String)
deriving DecidableEq, Repr

/-- The wording of a configuration refusal. -/
def ConfigError.message : ConfigError → String
  | .read p r => "Failed to read config file " ++ p ++ ": " ++ r
  | .parse p r => "Failed to parse config file " ++ p ++ ": " ++ r
  | .env n r => "Invalid value for environment variable " ++ n ++ ": " ++ r
  | .invalid r => "Invalid configuration: " ++ r

/-- The kind of a configuration refusal. -/
def ConfigError.kind : ConfigError → String
  | .read _ _ => "ReadError"
  | .parse _ _ => "ParseError"
  | .env _ _ => "EnvError"
  | .invalid _ => "Invalid"

/-- The words of a section that is no table. -/
def notATable : String := "unsupported rust type"

/-- What a program knows of its section: the key, how to decode it, its
defaults, how the environment changes it, and what makes it invalid given
which paths exist. -/
structure Section (α : Type) where
  key : String
  decoder : Decoder α
  default : α
  applyEnv : (String → Option String) → α → Except ConfigError α
  check : (String → Bool) → α → Option String

/-- Where a user's files live: the directories of configuration and of data,
for a user who has them. -/
structure Places where
  config : Option String
  data : Option String
deriving DecidableEq, Repr

/-- The places the environment names: `XDG_CONFIG_HOME` and `XDG_DATA_HOME`
when they are absolute paths, else `.config` and `.local/share` in the home
directory `HOME`. -/
def Places.ofEnv (env : String → Option String) : Places :=
  let home := (env "HOME").filter (!·.isEmpty)
  let under (var sub : String) : Option String :=
    match (env var).filter (·.startsWith "/") with
    | some d => some d
    | none => home.map (· ++ sub)
  ⟨under "XDG_CONFIG_HOME" "/.config", under "XDG_DATA_HOME" "/.local/share"⟩

/-- The configuration directory of a user with a home directory. -/
def configDirOf (home : String) : Option String := some (home ++ "/.config")

/-- The files searched for a configuration, in order: the working
directory's, the user's, the system's. -/
def searchPaths (configDir : Option String) : List String :=
  ["potline.toml"] ++ (configDir.map (· ++ "/potline/potline.toml")).toList ++ ["/etc/potline/potline.toml"]

namespace Section

variable {α : Type}

/-- Reads the section from a file: `none` when the file has no such section. -/
def fromFile (s : Section α) (w : Workdir) (path : String) : Except ConfigError (Option α) := do
  let content ← match w.read path with
    | .ok c => pure c
    | .error reason => throw (.read path reason)
  let root ← match Tree.parse content with
    | .ok t => pure t
    | .error f => throw (.parse path (f.report content))
  match root.toValue.sortKeys with
  | .table entries =>
    match lookup s.key entries with
    | none => pure none
    | some (.table inner) =>
      match decodeDocument s.decoder (documentText false inner) with
      | .ok a => pure (some a)
      | .error r => throw (.parse path r)
    | some _ => throw (.parse path notATable)
  | _ => pure none

/-- Reads the section from a named file, which must hold it. -/
def load (s : Section α) (w : Workdir) (path : String) : Except ConfigError α := do
  match ← s.fromFile w path with
  | some a => pure a
  | none => throw (.parse path ("missing [" ++ s.key ++ "] section"))

/-- Reads the section from the first of `paths` that exists and holds it; the
defaults, with no source, when none does. -/
def searchIn (s : Section α) (w : Workdir) : List String → Except ConfigError (α × Option String)
  | [] => pure (s.default, none)
  | p :: rest => do
    if w.contains p then
      match ← s.fromFile w p with
      | some a => pure (a, some p)
      | none => s.searchIn w rest
    else s.searchIn w rest

/-- Reads the section from the searched files. -/
def search (s : Section α) (w : Workdir) (configDir : Option String) : Except ConfigError (α × Option String) :=
  s.searchIn w (searchPaths configDir)

/-- All layers: the named file or the searched ones, then the environment,
then the check; gives the file the section came from. -/
def layered (s : Section α) (w : Workdir) (configDir : Option String) (path : Option String)
    (env : String → Option String) : Except ConfigError (α × Option String) := do
  let (a, source) ← match path with
    | some p => do pure (← s.load w p, some p)
    | none => s.search w configDir
  let a ← s.applyEnv env a
  match s.check w.contains a with
  | some reason => throw (.invalid reason)
  | none => pure (a, source)

end Section

/-- Reads a setting from the environment as an unsigned integer below
`bound`, blanks around it dropped; a refusal names the variable and quotes
its value. -/
def envNumber (name raw : String) (bound : Nat) : Except ConfigError Nat :=
  match Text.readUnsigned bound (Text.trim raw) with
  | .ok n => .ok n
  | .error e => .error (.env name ("'" ++ raw ++ "': " ++ e.message))

/-- A number setting under the environment: what variable `name` reads as when
it is set, the setting `current` when it is not. -/
def envSetting (env : String → Option String) (name : String) (bound current : Nat) : Except ConfigError Nat :=
  match env name with
  | some raw => envNumber name raw bound
  | none => pure current

end LotBridge.Config
