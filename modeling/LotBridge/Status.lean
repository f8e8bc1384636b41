import LotBridge.Failure
import LotBridge.Phase

/-!
# The status of a line controller

A diagnostic record of the calls a controller made: how many, how many
failed, the last failure and where it happened, and whether the last call
that reached the equipment connected. A refused address never reaches the
equipment, so it leaves that outcome as it was.

## Main definitions

* `Outcome`, `Status`.
* `Status.recordSuccess`, `Status.recordFailure`.
* `Status.toJson`: the record form, absent fields left out.
-/

namespace LotBridge

/-- Whether the last call that reached the equipment connected. -/
inductive Outcome where
  | unknown
  | connected
  | failed
deriving DecidableEq, Repr

/-- The name of an outcome. -/
def Outcome.name : Outcome → String
  | .unknown => "unknown"
  | .connected => "connected"
  | .failed => "failed"

/-- The calls of a controller, summed up. `lastAttemptAt` is the clock reading
of the last call, in milliseconds. -/
structure Status where
  outcome : Outcome := .unknown
  lastError : Option String := none
  lastErrorKind : Option String := none
  failedIn : Option Phase := none
  lastAttemptAt : Option Nat := none
  operations : Nat := 0
  failures : Nat := 0
deriving DecidableEq, Repr

namespace Status

/-- Records a call that succeeded at time `now`. -/
def recordSuccess (s : Status) (now : Nat) : Status :=
  { s with outcome := .connected, lastAttemptAt := some now, operations := s.operations + 1 }

/-- Records a call that failed at time `now`, in phase `failedIn` if known. The
last failure replaces the one before; the outcome turns to failed unless the
address was refused. -/
def recordFailure (s : Status) (f : Failure) (failedIn : Option Phase) (now : Nat) : Status :=
  let outcome : Outcome := if f.kind = "invalid_address" then s.outcome else .failed
  { s with
    outcome := outcome
    lastError := some f.message
    lastErrorKind := some f.kind
    failedIn := failedIn
    lastAttemptAt := some now
    operations := s.operations + 1
    failures := s.failures + 1 }

/-- The record form: fields in declaration order, absent ones left out. The
clock reading is written by `stamp`. -/
def toJson (s : Status) (stamp : Nat → Json) : Json :=
  let opt (k : String) (v : Option Json) : List (String × Json) :=
    match v with
    | some j => [(k, j)]
    | none => []
  .object ([("outcome", .string s.outcome.name)] ++
    opt "last_error" (s.lastError.map .string) ++
    opt "last_error_kind" (s.lastErrorKind.map .string) ++
    opt "failed_in" (s.failedIn.map (.string ·.name)) ++
    opt "last_attempt_at_ms" (s.lastAttemptAt.map stamp) ++
    [("operations", Json.nat s.operations), ("failures", Json.nat s.failures)])

end Status

end LotBridge
