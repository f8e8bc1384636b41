import LotBridge.Cli.Spec

/-!
# Refused command lines

A refused command line is answered with one message: what is wrong, words
similar to a mistyped one, tips, the usage line when it helps, and a pointer
to `--help`. Each part stands in a paragraph of its own; tips that follow
suggested words stand in the same paragraph.

## Main definitions

* `Refusal`, `Refusal.render`.
* The refusals a parser gives: `unexpectedArgument`, `unknownCommand`,
  `invalidValue`, `emptyValue`, `repeated`, `missing`, `missingCommand`.
-/

namespace LotBridge.Cli

/-- A refused command line: the message, similar words worth suggesting with
what they are, tips, and the usage line to show. -/
structure Refusal where
  message : String
  similar : Option (String × List String) := none
  tips : List String := []
  usage : Option String := none
deriving Repr

/-- A word in quotes. -/
def quoted (s : String) : String := "'" ++ s ++ "'"

namespace Refusal

/-- The refusal as shown on standard error. -/
def render (r : Refusal) : String :=
  let similar := match r.similar with
    | some (what, words) =>
      "\n\n  tip: " ++ (if words.length == 1 then "a similar " ++ what ++ " exists: "
        else "some similar " ++ what ++ "s exist: ") ++ ", ".intercalate (words.map quoted)
    | none => ""
  let tips := if r.tips.isEmpty then "" else
    (if r.similar.isSome then "" else "\n") ++ String.join (r.tips.map ("\n  tip: " ++ ·))
  "error: " ++ r.message ++ similar ++ tips ++ ((r.usage.map ("\n\nUsage: " ++ ·)).getD "") ++
    "\n\nFor more information, try '--help'.\n"

/-- The tip for a word that looks like an option but may be meant as a value. -/
def asValueTip (word : String) : String :=
  "to pass " ++ quoted word ++ " as a value, use " ++ quoted ("-- " ++ word)

/-- A word that is no argument of the command. -/
def unexpectedArgument (word : String) (similar : Option String) (tips : List String) (usage : String) : Refusal :=
  { message := "unexpected argument " ++ quoted word ++ " found"
    similar := similar.map fun s => ("argument", [s])
    tips, usage }

/-- A word where a subcommand was expected, with the similar subcommands. -/
def unknownCommand (word : String) (similar : List String) (usage : String) : Refusal :=
  { message := "unrecognized subcommand " ++ quoted word
    similar := if similar.isEmpty then none else some ("subcommand", similar)
    usage }

/-- A value its argument does not accept, and why. -/
def invalidValue (value : String) (a : Arg) (reason : String) : Refusal :=
  { message := "invalid value " ++ quoted value ++ " for " ++ quoted a.display ++ ": " ++ reason }

/-- An argument given without the value it needs. -/
def emptyValue (a : Arg) : Refusal :=
  { message := "a value is required for " ++ quoted a.display ++ " but none was supplied" }

/-- An argument given twice. -/
def repeated (a : Arg) (usage : String) : Refusal :=
  { message := "the argument " ++ quoted a.display ++ " cannot be used multiple times", usage }

/-- A value attached to an argument that takes none. -/
def unexpectedValue (value flag usage : String) : Refusal :=
  { message := "unexpected value " ++ quoted value ++ " for " ++ quoted flag ++ " found; no more were expected"
    usage }

/-- Required arguments not given. -/
def missing (args : List Arg) (usage : String) : Refusal :=
  { message := "the following required arguments were not provided:" ++
      String.join (args.map ("\n  " ++ ·.display))
    usage }

/-- A program with subcommands called without one. -/
def missingCommand (program : String) (names : List String) (usage : String) : Refusal :=
  { message := quoted program ++ " requires a subcommand but one was not provided" ++
      "\n  [subcommands: " ++ ", ".intercalate names ++ "]"
    usage }

/-- A subcommand's name after `--`, where it is taken for a value. -/
def escapedCommand (name usage : String) : Refusal :=
  { message := "unexpected argument '--' found"
    tips := ["subcommand " ++ quoted name ++ " exists; to use it, remove the '--' before it"]
    usage }

end Refusal

end LotBridge.Cli
