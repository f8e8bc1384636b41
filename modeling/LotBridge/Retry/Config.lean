import LotBridge.Retry.Backoff
import LotBridge.Json.Decode
import LotBridge.Json.Writer

/-!
# Retry settings

The retry section of a configuration: attempts per operation, the base pause,
the cap on a pause and the shape of the schedule. Every field has a default,
so a partial section, or none at all, is complete.

## Main definitions

* `Settings`: the section, with its defaults.
* `Settings.check`: attempts at least one, a positive base, a cap not below it.
* `Settings.backoff`: the schedule the section describes.
* `Settings.decoder`, `Settings.toJson`: its record form.
-/

namespace LotBridge.Retry

open LotBridge.Json

/-- The retry section of a configuration; pauses in milliseconds. -/
structure Settings where
  attempts : Nat := 3
  delayMs : Nat := 1000
  maxDelayMs : Nat := 10000
  shape : Shape := .linear
deriving DecidableEq, Repr

/-- What is wrong with a retry section. -/
inductive Problem where
  | noAttempts
  | zeroDelay
  | capBelowDelay (cap delay : Nat)
deriving DecidableEq, Repr

/-- The wording of a problem, naming the key at fault. -/
def Problem.message : Problem → String
  | .noAttempts => "[retry].attempts must be at least 1"
  | .zeroDelay => "[retry].delay_ms must be greater than 0"
  | .capBelowDelay cap delay =>
    "[retry].max_delay_ms (" ++ toString cap ++ ") must not be below delay_ms (" ++
      toString delay ++ ")"

namespace Settings

/-- The first problem of a section, checked in the order attempts, base, cap. -/
def check (s : Settings) : Option Problem :=
  if s.attempts = 0 then some .noAttempts
  else if s.delayMs = 0 then some .zeroDelay
  else if s.maxDelayMs < s.delayMs then some (.capBelowDelay s.maxDelayMs s.delayMs)
  else none

/-- The schedule a section describes. -/
def backoff (s : Settings) : Backoff := .make s.shape s.attempts s.delayMs s.maxDelayMs

/-- The record form, fields in declaration order. -/
def toJson (s : Settings) : Json :=
  .object [("attempts", Json.nat s.attempts), ("delay_ms", Json.nat s.delayMs),
    ("max_delay_ms", Json.nat s.maxDelayMs), ("backoff", .string s.shape.name)]

/-- The members of the record form. -/
def fields : List (Json.Field Settings) :=
  [Json.Field.of "attempts" (Decoder.uint 32 "u32") fun v s => { s with attempts := v },
   Json.Field.of "delay_ms" (Decoder.uint 64 "u64") fun v s => { s with delayMs := v },
   Json.Field.of "max_delay_ms" (Decoder.uint 64 "u64") fun v s => { s with maxDelayMs := v },
   Json.Field.of "backoff" (Decoder.unitEnum Shape.names) fun v s => { s with shape := v }]

/-- Reads a section: every member optional, unknown members skipped. -/
def decoder : Decoder Settings :=
  decodeStruct "RetryConfig" fields {} (fun s _ _ => .ok s) false 0

end Settings

theorem check_default : Settings.check {} = none := by
  decide

end LotBridge.Retry
