import LotBridge.Cli.Value

/-!
# Command-line interfaces

A program's command line is described once, and its parsing, its usage
lines and its help all follow from the description.

A command takes arguments. An argument with a short name (`-c`) or a long
name (`--component`) is an option and takes the next word as its value, or
the rest of its own word; one with neither is positional and takes the words
that are not options, in order. Every command also understands `-h` and
`--help`, and a program with a version `-V` and `--version`. A program may
have subcommands, the first word that names one starts it; it then also has
a `help` subcommand, which shows the help of the command it names.

Help is laid out in sections, each a table whose second column is aligned
two blanks after the widest entry of its first.

## Main definitions

* `Reading`, `Arg`, `Command`, `Program`.
* `Program.usage`, `Program.helpOf`: what the program shows.
-/

namespace LotBridge.Cli

/-- How the value of an argument is read. -/
inductive Reading where
  /-- Any text. -/
  | text
  /-- A path: any text but the empty one. -/
  | path
  /-- A whole number in `[lo, hi]`, read as a 64-bit signed integer first. -/
  | whole (lo hi : Int)
  /-- A socket address. -/
  | socket
deriving DecidableEq, Repr

/-- An argument a command accepts: an option when it has a short or a long
name, a positional argument otherwise. -/
structure Arg where
  id : String
  short : Option Char := none
  long : Option String := none
  /-- The placeholder of its value. -/
  value : String
  help : String
  reading : Reading := .text
  default : Option String := none
  /-- Whether a command line without it is refused. -/
  required : Bool := false
  /-- The arguments that must be given with this one. -/
  requires : List String := []
deriving Repr

namespace Arg

/-- Whether the argument is positional. -/
def isPositional (a : Arg) : Bool := a.short.isNone && a.long.isNone

/-- The argument as messages name it: `--long <VALUE>`, `-s <VALUE>` or
`<VALUE>`. -/
def display (a : Arg) : String :=
  match a.long, a.short with
  | some l, _ => "--" ++ l ++ " <" ++ a.value ++ ">"
  | none, some c => "-" ++ c.toString ++ " <" ++ a.value ++ ">"
  | none, none => "<" ++ a.value ++ ">"

/-- The argument as its help row starts: an option with both names shows the
short one first, one with only a long name is indented as if it had one. -/
def spec (a : Arg) : String :=
  match a.short, a.long with
  | some c, some _ => "-" ++ c.toString ++ ", " ++ a.display
  | none, some _ => "    " ++ a.display
  | _, none => a.display

/-- The help of the argument, with its default. -/
def helpText (a : Arg) : String :=
  a.help ++ (a.default.map (" [default: " ++ · ++ "]")).getD ""

end Arg

/-- A command: the program itself or one of its subcommands. -/
structure Command where
  name : String
  about : String
  args : List Arg := []
deriving Repr

/-- A program: its command, its version and its subcommands. -/
structure Program where
  main : Command
  version : Option String := none
  commands : List Command := []
deriving Repr

/-- Rows of a help table, each entry indented by two blanks and each
description aligned two blanks after the widest entry. -/
def table (rows : List (String × String)) : String :=
  let widest := rows.foldl (fun w r => max w r.1.length) 0
  "\n".intercalate (rows.map fun (entry, text) =>
    "  " ++ entry ++ "".pushn ' ' (widest - entry.length + 2) ++ text)

/-- The name and description of the `help` subcommand. -/
def helpCommandAbout : String := "Print this message or the help of the given subcommand(s)"

namespace Program

variable (p : Program)

/-- Whether `c` is the program's own command rather than a subcommand. -/
def isMain (c : Command) : Bool := c.name == p.main.name

/-- The name a command is called by on its usage line. -/
def callName (c : Command) : String :=
  if p.isMain c then c.name else p.main.name ++ " " ++ c.name

/-- The names of the subcommands, `help` last. -/
def commandNames : List String :=
  if p.commands.isEmpty then [] else p.commands.map (·.name) ++ ["help"]

/-- The subcommand of a name. -/
def command? (name : String) : Option Command := p.commands.find? (·.name == name)

/-- The usage line of a command: its options as `[OPTIONS]` when it has any
that are not required, its positional arguments, and `<COMMAND>` for a
program with subcommands. -/
def usage (c : Command) : String :=
  let options := c.args.any fun a => !a.isPositional && !a.required
  let positionals := (c.args.filter Arg.isPositional).map fun a =>
    if a.required then " <" ++ a.value ++ ">" else " [" ++ a.value ++ "]"
  p.callName c ++ (if options then " [OPTIONS]" else "") ++ String.join positionals ++
    (if p.isMain c && !p.commands.isEmpty then " <COMMAND>" else "")

/-- The usage line naming the arguments of `used` (given or missing, in
that order): options first, positional arguments in their order after. -/
def usageWith (c : Command) (used : List String) : String :=
  let named := used.foldl (fun acc id => if acc.contains id then acc else acc ++ [id]) []
  let options := named.filterMap fun id =>
    (c.args.find? fun a => a.id == id && !a.isPositional).map (" " ++ ·.display)
  let positionals := (c.args.filter fun a => a.isPositional && named.contains a.id).map (" " ++ ·.display)
  p.callName c ++ String.join options ++ String.join positionals

/-- The help of a command. -/
def helpOf (c : Command) : String :=
  let commands := if p.isMain c && !p.commands.isEmpty then
      ["Commands:\n" ++ table (p.commands.map (fun s => (s.name, s.about)) ++ [("help", helpCommandAbout)])]
    else []
  let positionals := c.args.filter Arg.isPositional
  let arguments := if positionals.isEmpty then [] else
      ["Arguments:\n" ++ table (positionals.map fun a => (a.spec, a.helpText))]
  let flags := [("-h, --help", "Print help")] ++
    (if p.isMain c && p.version.isSome then [("-V, --version", "Print version")] else [])
  let options := "Options:\n" ++
    table (((c.args.filter fun a => !a.isPositional).map fun a => (a.spec, a.helpText)) ++ flags)
  c.about ++ "\n\nUsage: " ++ p.usage c ++ "\n\n" ++ "\n\n".intercalate (commands ++ arguments ++ [options]) ++ "\n"

/-- The usage line of the `help` subcommand. -/
def helpCommandUsage : String := p.main.name ++ " help [COMMAND]..."

/-- The help of the `help` subcommand. -/
def helpCommandHelp : String :=
  helpCommandAbout ++ "\n\nUsage: " ++ p.helpCommandUsage ++ "\n\nArguments:\n" ++
    table [("[COMMAND]...", "Print help for the subcommand(s)")] ++ "\n"

/-- What `--version` shows. -/
def versionText (v : String) : String := p.main.name ++ " " ++ v ++ "\n"

end Program

end LotBridge.Cli
