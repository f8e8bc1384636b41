import LotBridge.Operator

/-!
# The operator tool's entry point

Runs `potline-ctl`: reads the command line, the environment variables the
tool consults and the files it may read, runs the tool, prints what it
prints and exits with its status. No gateway is reached from here, so every
command that needs one fails as with the network down; the clock of the
status report counts from the start of the run.
-/

namespace LotBridge.Launch

/-- The contents of a file, if it can be read. -/
def readIfThere (path : String) : IO (Option String) := do
  try pure (some (← IO.FS.readFile path)) catch _ => pure none

/-- The files that can be read among `paths`, with their contents. -/
def readAll (paths : List String) : IO (List (String × String)) :=
  paths.filterMapM fun p => do pure ((← readIfThere p).map (p, ·))

/-- The certificate and key files the settings in `w` name, before the
environment and the checks apply. -/
def securityFiles (w : Workdir) (places : Config.Places) (named : Option String) : List String :=
  let sect := Config.Bridge.configSection places.data
  let loaded := match named with
    | some p => sect.load w p
    | none => (sect.search w places.config).map Prod.fst
  match loaded with
  | .ok cfg => cfg.connection.security.certificate.toList ++ cfg.connection.security.privateKey.toList
  | .error _ => []

end LotBridge.Launch

open LotBridge LotBridge.Launch in
/-- Runs the operator tool on the process's command line. -/
def main (args : List String) : IO UInt32 := do
  let names := ["HOME", "XDG_CONFIG_HOME", "XDG_DATA_HOME"] ++ Config.Bridge.envNames
  let values ← names.mapM fun n => do pure (n, ← IO.getEnv n)
  let env (n : String) : Option String := ((values.find? (·.1 == n)).map (·.2)).join
  let places := Config.Places.ofEnv env
  let named := match Operator.program.parse args with
    | .ok inv => inv.values.get? "config"
    | .error _ => none
  let written ← readAll (named.toList ++ Config.searchPaths places.config)
  let present ← readAll (securityFiles (Workdir.ofNames [] written) places named)
  let exit := Operator.run args env (Workdir.ofNames (present.map (·.1)) written) 0
  IO.print exit.stdout
  IO.eprint exit.stderr
  pure exit.code.toUInt32
