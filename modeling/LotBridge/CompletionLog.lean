import LotBridge.Workdir
import LotBridge.Config.Bridge
import LotBridge.Lot

/-!
# The log of completed lots

Completed lots are recorded as log events, and, when the completion log is
enabled, also appended to a file as one JSON object per line:
`{"event":"lot_completed","payload":<completion>,"ts_ms":<time>}`, members in
key order. The file lives in the configured directory, blanks around its
name dropped, and is named by a template in which `%YYYY%`, `%MM%` and `%DD%`
stand for the date.

Opening the log makes its directory, then the directory of the file, then
the file; the first refusal is the failure, worded with the path at fault.
Writing never fails the caller: a line that cannot be written is lost.

## Main definitions

* `fileNameOn`, `joinPath`, `parentPath`.
* `Completion.logLine`.
* `CompletionSink`, `CompletionSink.openAt`, `CompletionSink.ofSettings`,
  `CompletionSink.record`.
-/

namespace LotBridge

/-- A file name from a template on a date. -/
def fileNameOn (template : String) (d : Toml.Date) : String :=
  ((template.replace "%YYYY%" (Toml.padded 4 d.year)).replace "%MM%" (Toml.padded 2 d.month)).replace
    "%DD%" (Toml.padded 2 d.day)

/-- Whether a template names a file by the date. -/
def isDated (template : String) : Bool :=
  ["%YYYY%", "%MM%", "%DD%"].any fun t => (template.splitOn t).length > 1

/-- A path below a directory; an absolute path stands for itself. -/
def joinPath (dir path : String) : String :=
  if path.startsWith "/" || dir.isEmpty then path
  else if dir.endsWith "/" then dir ++ path
  else dir ++ "/" ++ path

/-- The directory a path is in: all before its last component, `""` for a
lone name. -/
def parentPath (path : String) : String :=
  let cs := (String.ofList (path.toList.reverse.dropWhile (· == '/')).reverse).splitOn "/"
  match cs.dropLast with
  | [] => ""
  | [""] => "/"
  | front => "/".intercalate front

/-- The line a completion writes at time `ts`. -/
def Completion.logLine (c : Completion) (ts : Nat) : String :=
  let payload := match c.toJson with
    | .object fs => Json.sortedObject fs
    | j => j
  Json.render (Json.sortedObject
    [("ts_ms", Json.nat ts), ("event", .string "lot_completed"), ("payload", payload)])

/-- Where completions go: to the log of events only, or also to a file. -/
inductive CompletionSink where
  | events
  | file (path : String)
deriving DecidableEq, Repr

namespace CompletionSink

/-- Opens the log named by a template on a date below a directory. -/
def openAt (w : Workdir) (dir template : String) (d : Toml.Date) :
    Except String (CompletionSink × Workdir) := do
  let path := joinPath dir (fileNameOn template d)
  let parent := parentPath path
  let w ← match w.createDirAll parent with
    | .ok w => pure w
    | .error e => throw ("create completion log dir '" ++ parent ++ "': " ++ e)
  let w ← match w.openAppend path with
    | .ok w => pure w
    | .error e => throw ("open completion log '" ++ path ++ "': " ++ e)
  pure (.file path, w)

/-- The sink the settings ask for: the events only when the log is disabled,
else the log, its directory made first. -/
def ofSettings (w : Workdir) (s : Config.CompletionLog) (d : Toml.Date) :
    Except String (CompletionSink × Workdir) := do
  if !s.enabled then return (.events, w)
  let dir := Text.trim s.dir
  let w ← match w.createDirAll dir with
    | .ok w => pure w
    | .error e => throw ("create completion log dir '" ++ dir ++ "': " ++ e)
  openAt w dir s.file d

/-- Records a completion at time `ts`. -/
def record (w : Workdir) (s : CompletionSink) (c : Completion) (ts : Nat) : Workdir :=
  match s with
  | .events => w
  | .file path => w.append path (c.logLine ts ++ "\n")

end CompletionSink

end LotBridge
