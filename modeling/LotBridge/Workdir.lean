/-!
# Working directories

The files a program finds where it runs: a working directory holding files
and directories named by relative paths, and outside it the usual system
paths and the entries made there, kept under their absolute paths. Making a
path makes its parent directories too.

A path is looked up component by component: empty components and `.` are
skipped, `..` goes back up and needs a directory to leave, a path ending in `/`
must name a directory, and the empty path names nothing.

## Main definitions

* `Workdir`, `Workdir.ofNames`.
* `Workdir.kind?`, `Workdir.contains`, `Workdir.read`.
* `Workdir.createDirAll`, `Workdir.openAppend`, `Workdir.append`: making
  directories and writing files, with the refusals of the system.
* `Workdir.listing`: the files of the working directory that hold something.
-/

namespace LotBridge

/-- What a path names. -/
inductive EntryKind where
  | file
  | directory
deriving DecidableEq, Repr

/-- A working directory: its files with their contents, and its
directories. -/
structure Workdir where
  files : List (List String × String)
  directories : List (List String)

namespace Workdir

/-- The components of a path, without empty ones and `.`; an absolute path
starts with the component `/`, which no relative one holds. -/
def components (path : String) : List String :=
  let cs := (path.splitOn "/").filter fun c => c != "" && c != "."
  if path.startsWith "/" then "/" :: cs else cs

/-- A working directory made from names, a directory's ending in `/`, with the
contents of files written into it; a name given twice keeps the last
content. -/
def ofNames (names : List String) (written : List (String × String)) : Workdir :=
  let dirs := names.filter (·.endsWith "/")
  let plain := names.filter fun n => !n.endsWith "/"
  let contentOf (n : String) : String :=
    ((written.reverse.find? (·.1 == n)).map (·.2)).getD ""
  ⟨(plain ++ written.map (·.1)).map fun n => (components n, contentOf n),
   dirs.map components⟩

/-- The system paths outside the working directory that are directories. -/
def systemDirectories : List String :=
  ["/", "/bin", "/dev", "/etc", "/home", "/lib", "/proc", "/root", "/sys", "/tmp", "/usr", "/var"]

/-- The system paths outside the working directory that are files. -/
def systemFiles : List String :=
  ["/dev/null", "/dev/full", "/dev/zero", "/dev/random", "/dev/urandom", "/etc/passwd",
   "/etc/hosts"]

/-- What the resolved components of a path name inside the working
directory. -/
def kindAt (w : Workdir) (cs : List String) : Option EntryKind :=
  if cs.isEmpty then some .directory
  else if w.files.any (·.1 == cs) then some .file
  else if w.directories.any (· == cs) then some .directory
  else if w.files.any (fun (f, _) => cs.isPrefixOf f && cs.length < f.length) ||
      w.directories.any (fun d => cs.isPrefixOf d && cs.length < d.length) then
    some .directory
  else none

/-- Resolves components against a directory, going up at `..`; `none` once a
step leaves through something that is no directory. -/
def resolve (w : Workdir) : List String → List String → Option (List String)
  | here, [] => some here
  | here, ".." :: rest =>
    if here != ["/"] && w.kindAt here = some .directory then
      match here.reverse with
      | [] => none
      | _ :: up => resolve w up.reverse rest
    else none
  | here, c :: rest => resolve w (here ++ [c]) rest

/-- What resolved or absolute components name, if anything. -/
def kindOf (w : Workdir) (cs : List String) : Option EntryKind :=
  match cs with
  | "/" :: rest =>
    let normal := "/" ++ "/".intercalate rest
    if systemFiles.contains normal then some .file
    else if systemDirectories.contains normal then some .directory
    else w.kindAt cs
  | _ => (w.resolve [] cs).bind w.kindAt

/-- What a path names, if anything. -/
def kind? (w : Workdir) (path : String) : Option EntryKind :=
  let found := if path.isEmpty then none else w.kindOf (components path)
  if path.endsWith "/" && found = some .file then none else found

/-- Whether a path names something. -/
def contains (w : Workdir) (path : String) : Bool := (w.kind? path).isSome

/-- The content of a file, or why it cannot be read. -/
def read (w : Workdir) (path : String) : Except String String :=
  match w.kind? path with
  | some .directory => .error "Is a directory (os error 21)"
  | some .file =>
    let resolved := (w.resolve [] (components path)).getD []
    match w.files.find? (·.1 == resolved) with
    | some (_, content) => .ok content
    | none => .ok ""
  | none => .error "No such file or directory (os error 2)"

/-- The refusal of a path that runs through a file. -/
def notADirectory : String := "Not a directory (os error 20)"

/-- The refusal to make what is already there. -/
def fileExists : String := "File exists (os error 17)"

/-- The refusal to open a directory as a file. -/
def isADirectory : String := "Is a directory (os error 21)"

/-- Whether a proper leading part of a path is a file. -/
def throughFile (w : Workdir) (path : String) : Bool :=
  let cs := components path
  (List.range cs.length).any fun n => n > 0 && w.kindOf (cs.take n) = some .file

/-- The resolved components of a path. -/
def place (w : Workdir) (path : String) : List String :=
  let cs := components path
  if path.startsWith "/" then cs else (w.resolve [] cs).getD cs

/-- Makes a directory and the directories above it; what exists as a
directory already is kept. Refused where a file stands in the way. -/
def createDirAll (w : Workdir) (path : String) : Except String Workdir :=
  if components path = [] then .ok w
  else if w.throughFile path then .error notADirectory
  else match w.kind? path with
    | some .directory => .ok w
    | some .file => .error fileExists
    | none => .ok { w with directories := w.directories ++ [w.place path] }

/-- Opens a file for appending, making it empty if it is new. Refused for a
directory and where a file stands in the way. -/
def openAppend (w : Workdir) (path : String) : Except String Workdir :=
  if w.throughFile path then .error notADirectory
  else match w.kind? path with
    | some .directory => .error isADirectory
    | some .file => .ok w
    | none => .ok { w with files := w.files ++ [(w.place path, "")] }

/-- Appends text to a file; a system file swallows it, or refuses it when it
is full. -/
def append (w : Workdir) (path : String) (text : String) : Workdir :=
  let target := w.place path
  { w with files := w.files.map fun (f, c) => if f = target then (f, c ++ text) else (f, c) }

/-- The files of the working directory that hold something, by relative path
in order, with their contents. -/
def listing (w : Workdir) : List (String × String) :=
  let own := w.files.filter fun (f, c) => f.head? != some "/" && !c.isEmpty
  (own.map fun (f, c) => ("/".intercalate f, c)).mergeSort fun a b => !decide (b.1 < a.1)

end Workdir

end LotBridge
