import LotBridge.Line
import LotBridge.Json.Value

/-!
# Failures of gateway operations

An operation on a line controller can fail to connect, find the gateway
without the plant's namespace, be refused by the gateway, run out of time, or
name a register that does not exist. Connection failures, refusals and
timeouts are transient: trying again may help. A missing namespace or a bad
address will not change by retrying.

## Main definitions

* `Failure`: the causes.
* `Failure.message`, `Failure.kind`, `Failure.isTransient`.
* `Failure.toJson`: the record form, tagged by the cause.
-/

namespace LotBridge

/-- Why a gateway operation failed. `published` is the gateway's namespace
list as one text, `none` when it is empty. -/
inductive Failure where
  | connection (endpoint reason : String)
  | namespaceNotFound (uri published : String)
  | operation (node reason : String)
  | timeout (operation : String) (afterMs : Nat)
  | invalidAddress (bad : BadAddress)
deriving DecidableEq, Repr

namespace Failure

/-- A missing namespace, with the namespaces the gateway publishes. -/
def namespaceMissing (uri : String) (published : List String) : Failure :=
  .namespaceNotFound uri (if published.isEmpty then "none" else ", ".intercalate published)

/-- The wording of a failure. -/
def message : Failure → String
  | .connection e r => "connection to " ++ e ++ " failed: " ++ r
  | .namespaceNotFound u p => "namespace '" ++ u ++ "' not found on server (published: " ++ p ++ ")"
  | .operation n r => "operation on " ++ n ++ " failed: " ++ r
  | .timeout o ms => o ++ " timed out after " ++ toString ms ++ " ms"
  | .invalidAddress b => b.message

/-- The short name of a failure's cause. -/
def kind : Failure → String
  | .connection .. => "connection_failure"
  | .namespaceNotFound .. => "namespace_not_found"
  | .operation .. => "operation_failure"
  | .timeout .. => "timeout"
  | .invalidAddress _ => "invalid_address"

/-- Whether retrying may help. -/
def isTransient : Failure → Bool
  | .connection .. | .operation .. | .timeout .. => true
  | .namespaceNotFound .. | .invalidAddress _ => false

/-- The record form of a failure: an object with one member named for the
cause, holding the cause's fields in order. -/
def toJson : Failure → Json
  | .connection e r =>
    .object [("ConnectionFailure", .object [("endpoint", .string e), ("reason", .string r)])]
  | .namespaceNotFound u p =>
    .object [("NamespaceNotFound", .object [("uri", .string u), ("published", .string p)])]
  | .operation n r =>
    .object [("OperationFailure", .object [("node", .string n), ("reason", .string r)])]
  | .timeout o ms =>
    .object [("Timeout", .object [("operation", .string o), ("after_ms", Json.nat ms)])]
  | .invalidAddress (.line t) => .object [("InvalidAddress", .object [("InvalidLine", .string t)])]
  | .invalidAddress (.component t) =>
    .object [("InvalidAddress", .object [("InvalidComponent", .string t)])]

theorem isTransient_iff (f : Failure) :
    f.isTransient = true ↔ f.kind = "connection_failure" ∨ f.kind = "operation_failure" ∨
      f.kind = "timeout" := by
  cases f <;> simp [isTransient, kind]

end Failure

end LotBridge
