import LotBridge.Text.Blank

/-!
# Log levels

The programs log at five levels, from the most to the least urgent: error,
warn, info, debug and trace. A setting picks the least urgent level still
logged. It is read with blanks around it dropped, as a number from 1 (error)
to 5 (trace), or as a level's name in any case; a setting that is neither,
or none, logs down to info.

## Main definitions

* `LogLevel`, `LogLevel.parse?`, `LogLevel.ofSetting`, `LogLevel.logs`.
-/

namespace LotBridge

/-- How urgent a log message is. -/
inductive LogLevel where
  | error
  | warn
  | info
  | debug
  | trace
deriving DecidableEq, Repr

namespace LogLevel

/-- The level's rank, 1 for the most urgent. -/
def rank : LogLevel → Nat
  | error => 1
  | warn => 2
  | info => 3
  | debug => 4
  | trace => 5

/-- The level of a rank. -/
def ofRank? : Nat → Option LogLevel
  | 1 => some error
  | 2 => some warn
  | 3 => some info
  | 4 => some debug
  | 5 => some trace
  | _ => none

theorem ofRank?_rank (l : LogLevel) : ofRank? l.rank = some l := by
  cases l <;> rfl

/-- The value of a run of decimal digits, if the text is one. -/
def digitsValue? (cs : List Char) : Option Nat :=
  if !cs.isEmpty && cs.all Char.isDigit then
    some (cs.foldl (fun n c => 10 * n + (c.toNat - '0'.toNat)) 0)
  else none

/-- Reads a level: a rank, with an optional `+`, or a name in any case. -/
def parse? (s : String) : Option LogLevel :=
  let digits := match s.toList with
    | '+' :: rest => rest
    | cs => cs
  match (digitsValue? digits).bind ofRank? with
  | some l => some l
  | none =>
    match s.toLower with
    | "error" => some error
    | "warn" => some warn
    | "info" => some info
    | "debug" => some debug
    | "trace" => some trace
    | _ => none

/-- The level a setting asks for: info when there is none or it does not read. -/
def ofSetting (setting : Option String) : LogLevel :=
  (setting.bind fun s => parse? (Text.trim s)).getD info

theorem ofSetting_none : ofSetting none = info := rfl

/-- Whether a threshold lets messages of a level through. -/
def logs (threshold message : LogLevel) : Bool := message.rank ≤ threshold.rank

theorem logs_self (l : LogLevel) : l.logs l = true := by
  simp [logs]

end LogLevel

end LotBridge
