import LotBridge.Controller

/-!
# What a controller is asked

The requests a host makes of a line controller, as data, and what each
gives back. Lines and components given as values of their types are known
to be valid; the raw requests take a line number and a component name and
refuse a bad address without any attempt.

* Writing a lot gives whether it was written; the checked write gives the
  failure itself.
* Reading gives the register's value, or nothing when the call failed.
* Resetting both lines gives whether each line was reset.
* Asking for the status changes nothing and gives nothing; the settings are
  given back as they are.

## Main definitions

* `Command`, `Answer`.
* `Controller.exec`: a request carried out.
-/

namespace LotBridge

/-- A request to a line controller. -/
inductive Command where
  | set (line : Line) (component : Component) (lot : Nat)
  | trySet (line : Line) (component : Component) (lot : Nat)
  | setRaw (line : Nat) (component : String) (lot : Nat)
  | get (line : Line) (component : Component)
  | getRaw (line : Nat) (component : String)
  | lastUpdated
  | reset (detailed : Bool)
  | status
  | settings
deriving Repr

/-- What a request gives back. -/
inductive Answer where
  /-- Whether a write, or a reset of both lines, succeeded. -/
  | done (ok : Bool)
  /-- The outcome of a checked write. -/
  | attempted (r : Except Failure Unit)
  /-- The value read, if the read succeeded. -/
  | value (v : Option Int)
  /-- The time of the last write, if the read succeeded. -/
  | stamp (v : Option Int)
  /-- Which lines a reset reached. -/
  | report (line1 line2 : Bool)
  | nothing
  | settings (c : Config.Connection)
  /-- The call never ended. -/
  | never
deriving Repr

namespace Controller

variable {σ : Type} (c : Controller σ)

/-- A write, answered by whether it succeeded. -/
def writeDone (key : RegisterKey) (lot : Nat) (st : State σ) : Answer × State σ :=
  match c.write key lot st with
  | (some r, st) => (.done (r matches .ok _), st)
  | (none, st) => (.never, st)

/-- A read, answered by its value if it succeeded. -/
def readValue? (key : RegisterKey) (st : State σ) : Option (Option Int) × State σ :=
  match c.read key st with
  | (some r, st) => (some (match r with | .ok v => some v | .error _ => none), st)
  | (none, st) => (none, st)

/-- Carries out a request. -/
def exec (cmd : Command) (st : State σ) : Answer × State σ :=
  match cmd with
  | .set l k lot => c.writeDone (.activeLot l k) lot st
  | .trySet l k lot =>
    match c.write (.activeLot l k) lot st with
    | (some r, st) => (.attempted r, st)
    | (none, st) => (.never, st)
  | .setRaw l k lot =>
    match RegisterKey.parse l k with
    | .ok key => c.writeDone key lot st
    | .error b => (.done false, reject b st)
  | .get l k =>
    match c.readValue? (.activeLot l k) st with
    | (some v, st) => (.value v, st)
    | (none, st) => (.never, st)
  | .getRaw l k =>
    match RegisterKey.parse l k with
    | .ok key =>
      match c.readValue? key st with
      | (some v, st) => (.value v, st)
      | (none, st) => (.never, st)
    | .error b => (.value none, reject b st)
  | .lastUpdated =>
    match c.readValue? .lastUpdated st with
    | (some v, st) => (.stamp v, st)
    | (none, st) => (.never, st)
  | .reset detailed =>
    let ((a, b), st) := c.resetLines st
    (if detailed then .report a b else .done (a && b), st)
  | .status => (.nothing, st)
  | .settings => (.settings c.connection, st)

end Controller

end LotBridge
