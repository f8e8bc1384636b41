import LotBridge.Cli.Refusal
import LotBridge.Cli.Similar

/-!
# Parsing a command line

The words are read from left to right. A word naming a subcommand starts it
(the program's own arguments end there); `--` makes every later word
positional; a word starting with `--` is an option by its long name, with its
value after `=` or in the next word; a word starting with `-` is an option by
its short name, with its value in the rest of the word or the next word; any
other word is the value an option waits for, or the next positional argument.
`-h` and `--help` show the help, `-V` and `--version` the version.

A value is read when the argument after it starts or the words end, so a bad
value is refused then. A word that is no argument refuses the command line at
once, naming the known words most like it. When the words are read, the
required arguments must all be there, with the arguments those given require,
and a program with subcommands must have been given one; arguments not given
take their defaults.

## Main definitions

* `Stop`: a command line that shows help, the version or a refusal.
* `Invocation`: a command line that runs the program.
* `Program.parse`.
-/

namespace LotBridge.Cli

/-- What a program prints and the status it exits with. -/
structure Exit where
  code : Nat
  stdout : String := ""
  stderr : String := ""
deriving DecidableEq, Repr

/-- A command line that does not run the program. -/
inductive Stop where
  /-- Help or the version, shown on standard output; the program succeeds. -/
  | show (text : String)
  /-- Shown on standard error; the program fails with status 2. -/
  | refuse (text : String)
deriving DecidableEq, Repr

/-- How the program ends on a command line that stops it. -/
def Stop.exit : Stop → Exit
  | .show text => { code := 0, stdout := text }
  | .refuse text => { code := 2, stderr := text }

theorem Stop.exit_show (text : String) : (Stop.show text).exit = { code := 0, stdout := text } := rfl

theorem Stop.exit_refuse (text : String) : (Stop.refuse text).exit = { code := 2, stderr := text } := rfl

/-- Values of arguments by their ids, in the order they were given. -/
abbrev Values := List (String × String)

/-- The value of an argument. -/
def Values.get? (vs : Values) (id : String) : Option String := (vs.find? (·.1 == id)).map (·.2)

/-- A command line that runs the program: the values of its own arguments,
and the subcommand named with the values of its arguments. -/
structure Invocation where
  values : Values
  command : Option (String × Values) := none
deriving Repr

/-- Where the reading of a command's words stands. -/
structure Scan where
  /-- Values read so far. -/
  values : Values := []
  /-- The argument whose value is still to be read, with the value when it
  has come. -/
  pending : Option (Arg × Option String) := none
  /-- How many positional arguments have a value. -/
  positionals : Nat := 0
  /-- Whether `--` has been passed. -/
  escaped : Bool := false
deriving Repr

/-- Reads the value of an argument. -/
def readValue (a : Arg) (raw : String) : Except Refusal String :=
  match a.reading with
  | .text => .ok raw
  | .path => if raw.isEmpty then .error (.emptyValue a) else .ok raw
  | .whole lo hi =>
    match readInt64 raw with
    | .error e => .error (.invalidValue raw a e.message)
    | .ok n =>
      if lo ≤ n ∧ n ≤ hi then .ok (toString n)
      else .error (.invalidValue raw a (toString n ++ " is not in " ++ toString lo ++ "..=" ++ toString hi))
  | .socket =>
    if (readSocketAddress raw).isSome then .ok raw
    else .error (.invalidValue raw a "invalid socket address syntax")

/-- Text is taken as it is. -/
theorem readValue_text (a : Arg) (raw : String) : readValue { a with reading := .text } raw = .ok raw := rfl

namespace Program

variable (p : Program)

/-- The usage line naming the arguments `used`, with the required ones, as
refusals show it; a program with subcommands adds `<COMMAND>`. -/
def refusalUsage (c : Command) (used : List String) : String :=
  p.usageWith c ((c.args.filter (·.required)).map (·.id) ++ used) ++
    (if p.isMain c && !p.commands.isEmpty then " <COMMAND>" else "")

/-- Reads the value still pending. -/
def settle (c : Command) (s : Scan) : Except Refusal Scan :=
  match s.pending with
  | none => .ok s
  | some (a, none) => .error (.emptyValue a)
  | some (a, some raw) =>
    if s.values.any (·.1 == a.id) then .error (.repeated a (p.usage c))
    else do
      let v ← readValue a raw
      pure { s with values := s.values ++ [(a.id, v)], pending := none }

/-- The ids of the values read, the pending one included when it reads. -/
def settledIds (c : Command) (s : Scan) : List String :=
  ((p.settle c s).toOption.getD s).values.map (·.1)

/-- What `help` followed by `names` shows. -/
def helpCommand (names : List String) : Stop :=
  let unknown (word usage : String) := Stop.refuse (Refusal.unknownCommand word [] usage).render
  match names with
  | [] => .show (p.helpOf p.main)
  | "help" :: more =>
    match more with
    | [] => .show p.helpCommandHelp
    | m :: _ => unknown m p.helpCommandUsage
  | n :: more =>
    match p.command? n, more with
    | some sub, [] => .show (p.helpOf sub)
    | some sub, m :: _ => unknown m (p.usage sub)
    | none, _ => unknown n (p.usage p.main)

/-- The long names a command knows, help and version included. -/
def longNames (c : Command) : List String :=
  c.args.filterMap (·.long) ++ ["help"] ++ (if p.isMain c && p.version.isSome then ["version"] else [])

/-- A subcommand named later on the command line with an option like `name`:
the one named first. -/
def optionElsewhere (name : String) (later : List String) : Option String :=
  let found := p.commands.filterMap fun sub => do
    let flag ← (similarWords name (p.longNames sub)).getLast?
    let at_ ← later.findIdx? (· == sub.name)
    pure (at_, sub.name ++ " --" ++ flag)
  (found.foldl (fun best f => match best with
    | some b => if f.1 < b.1 then some f else some b
    | none => some f) none).map (·.2)

/-- Refuses an unknown option given by its long name. -/
def unknownLong (c : Command) (s : Scan) (name : String) (later : List String) : Refusal :=
  let similar := (similarWords name (p.longNames c)).getLast?
  let elsewhere := if similar.isNone && p.isMain c then p.optionElsewhere name later else none
  let word := "--" ++ name
  let asValue := similar.isNone && c.args.any Arg.isPositional && !s.escaped
  let suggested := (similar.bind fun l => (c.args.find? (·.long == some l)).map (·.id)).toList
  let used := p.settledIds c s ++ suggested
  let usage := if used.isEmpty then p.usage c else p.refusalUsage c used
  .unexpectedArgument word (similar.map ("--" ++ ·))
    ((if asValue then [Refusal.asValueTip word] else []) ++ (elsewhere.map (quoted · ++ " exists")).toList) usage

/-- Refuses a word for which no positional argument is left. -/
def unexpectedWord (c : Command) (s : Scan) (word : String) : Refusal :=
  if p.isMain c && !p.commands.isEmpty then
    if s.escaped && p.commandNames.contains word then .escapedCommand word (p.usage c)
    else .unknownCommand word (similarWords word p.commandNames) (p.usage c)
  else
    let optionLike := word.startsWith "-" && word.length > 1
    let asValue := !s.escaped && c.args.any Arg.isPositional && optionLike
    .unexpectedArgument word none (if asValue then [Refusal.asValueTip word] else []) (p.usage c)

/-- Starts the option `a`, with its value when it came in the same word. -/
def startOption (c : Command) (s : Scan) (a : Arg) (attached : Option String) : Except Refusal Scan := do
  let s ← p.settle c s
  match attached with
  | some v => p.settle c { s with pending := some (a, some v) }
  | none => pure { s with pending := some (a, none) }

/-- Takes a word as the next positional argument. -/
def takePositional (c : Command) (s : Scan) (word : String) : Except Refusal Scan :=
  match (c.args.filter Arg.isPositional)[s.positionals]? with
  | some a => do
    let s ← p.settle c s
    pure { s with pending := some (a, some word), positionals := s.positionals + 1 }
  | none => .error (p.unexpectedWord c s word)

/-- Shows the help of `c` once the pending value reads. -/
def showHelp (c : Command) (s : Scan) : Except Refusal Stop := do
  let _ ← p.settle c s
  pure (.show (p.helpOf c))

/-- Shows the version once the pending value reads. -/
def showVersion (c : Command) (s : Scan) (v : String) : Except Refusal Stop := do
  let _ ← p.settle c s
  pure (.show (p.versionText v))

/-- What one word does: a new scan, or a stop. -/
inductive Move where
  | go (s : Scan)
  | stop (how : Except Refusal Stop)
  | enter (name : String)

/-- Reads a word starting with `--`. -/
def longWord (c : Command) (s : Scan) (word : String) (later : List String) : Move :=
  let body := (word.drop 2).toString
  let (name, attached) := match body.splitOn "=" with
    | n :: v :: more => (n, some ("=".intercalate (v :: more)))
    | _ => (body, none)
  let flag (shown : Except Refusal Stop) : Move :=
    match attached with
    | some v => .stop (.error (.unexpectedValue v ("--" ++ name) (p.callName c ++ " --" ++ name ++
        (if p.isMain c && !p.commands.isEmpty then " <COMMAND>" else ""))))
    | none => .stop shown
  if name == "help" then flag (p.showHelp c s)
  else match p.version, name == "version" && p.isMain c with
    | some v, true => flag (p.showVersion c s v)
    | _, _ =>
      match c.args.find? (·.long == some name) with
      | some a => match p.startOption c s a attached with
        | .ok s => .go s
        | .error r => .stop (.error r)
      | none => .stop (.error (p.unknownLong c s name later))

/-- Reads a word starting with a single `-`. -/
def shortWord (c : Command) (s : Scan) (word : String) : Move :=
  match (word.drop 1).toString.toList with
  | 'h' :: _ => .stop (p.showHelp c s)
  | ch :: more =>
    match p.version, ch == 'V' && p.isMain c with
    | some v, true => .stop (p.showVersion c s v)
    | _, _ =>
      match c.args.find? (·.short == some ch) with
      | some a =>
        let attached := match more with
          | '=' :: v => some (String.ofList v)
          | [] => none
          | v => some (String.ofList v)
        match p.startOption c s a attached with
        | .ok s => .go s
        | .error r => .stop (.error r)
      | none =>
        let arg := "-" ++ ch.toString
        let tips := if c.args.any Arg.isPositional then [Refusal.asValueTip arg] else []
        .stop (.error (.unexpectedArgument arg none tips (p.usage c)))
  | [] => .stop (.error (p.unexpectedWord c s word))

/-- What a word does. -/
def move (c : Command) (s : Scan) (word : String) (later : List String) : Move :=
  let positional : Move := match p.takePositional c s word with
    | .ok s => .go s
    | .error r => .stop (.error r)
  if s.escaped then positional
  else if p.isMain c && p.commandNames.contains word then .enter word
  else if word == "--" then .go { s with escaped := true }
  else if word.startsWith "--" then p.longWord c s word later
  else if word.startsWith "-" && word.length > 1 then p.shortWord c s word
  else match s.pending with
    | some (a, none) => .go { s with pending := some (a, some word) }
    | _ => positional

/-- Reads the words of a command; ends with the scan, and the subcommand
named with the words after it. -/
def scan (c : Command) : List String → Scan → Except Stop (Scan × Option (String × List String))
  | [], s => match p.settle c s with
    | .ok s => .ok (s, none)
    | .error r => .error (.refuse r.render)
  | word :: later, s =>
    match p.move c s word later with
    | .go s => scan c later s
    | .stop (.ok st) => .error st
    | .stop (.error r) => .error (.refuse r.render)
    | .enter "help" => .error (p.helpCommand later)
    | .enter name => match p.settle c s with
      | .ok s => .ok (s, some (name, later))
      | .error r => .error (.refuse r.render)

/-- The arguments of `c` still required after reading `vs`: the required
ones not given, then those required by the given ones. -/
def missingArgs (c : Command) (vs : Values) : List Arg :=
  let given (id : String) := vs.any (·.1 == id)
  let required := (c.args.filter fun a => a.required && !given a.id).map (·.id)
  let wanted := vs.foldl (fun acc (id, _) =>
    acc ++ (((c.args.find? (·.id == id)).map (·.requires)).getD []).filter fun r =>
      !given r && !acc.contains r) required
  wanted.filterMap fun id => c.args.find? (·.id == id)

/-- Checks the required arguments of `c` and adds the defaults. -/
def complete (c : Command) (vs : Values) : Except Stop Values :=
  match missingArgs c vs with
  | [] => .ok (vs ++ (c.args.filter fun (a : Arg) => !vs.any (·.1 == a.id)).filterMap fun (a : Arg) =>
      a.default.map (a.id, ·))
  | missing => .error (.refuse (Refusal.missing missing
      (p.refusalUsage c (vs.map (·.1) ++ missing.map (·.id)))).render)

/-- Reads a command line. -/
def parse (words : List String) : Except Stop Invocation := do
  let (s, named) ← p.scan p.main words {}
  match named with
  | some (name, later) =>
    match p.command? name with
    | some sub =>
      let (t, _) ← p.scan sub later {}
      let subValues ← p.complete sub t.values
      pure { values := ← p.complete p.main s.values, command := some (name, subValues) }
    | none => .error (.show (p.helpOf p.main))
  | none =>
    if p.commands.isEmpty then pure { values := ← p.complete p.main s.values }
    else if s.values.isEmpty then .error (.refuse (p.helpOf p.main))
    else .error (.refuse (Refusal.missingCommand p.main.name p.commandNames (p.usage p.main)).render)

end Program

end LotBridge.Cli
