import LotBridge.Controller

/-!
# Sending active lots to the equipment in the background

A dispatcher keeps one queue of lot writes per line. Queuing never waits;
the writes of a line reach its PC register in the order they were queued,
one after another, while the two lines go on side by side: each line is a
lane of the controller. Every write ends in an outcome, a success or the
failure's wording.

The queues are only worked off when the dispatcher is given time to run:
`drain` runs them until both are empty. A dispatcher that was stopped drops
what it still had queued and accepts nothing more.

## Main definitions

* `DispatchOutcome`, `Dispatcher`.
* `DispatchOutcome.toJson`.
* `Dispatcher.enqueue`, `Dispatcher.drain`, `Dispatcher.stop`, `Dispatcher.close`.
-/

namespace LotBridge

/-- The outcome of one background write: the failure's wording, if it
failed. -/
structure DispatchOutcome where
  line : Line
  lotId : Nat
  error : Option String
deriving DecidableEq, Repr

/-- The record form of an outcome: the line, the lot, whether it succeeded,
and the failure's wording if there is one. -/
def DispatchOutcome.toJson (o : DispatchOutcome) : Json :=
  .object ([("line", Json.nat o.line.number), ("lot_id", Json.nat o.lotId),
    ("success", .bool o.error.isNone)] ++ (o.error.map fun e => ("error", Json.string e)).toList)

/-- The queued lots of each line, and whether the dispatcher still runs. -/
structure Dispatcher where
  first : List Nat := []
  second : List Nat := []
  running : Bool := true
deriving DecidableEq, Repr

namespace Dispatcher

/-- The queue of a line. -/
def queue (d : Dispatcher) : Line → List Nat
  | .one => d.first
  | .two => d.second

/-- Queues a write of a lot for a line; `false` once the dispatcher stopped. -/
def enqueue (d : Dispatcher) (line : Line) (lot : Nat) : Bool × Dispatcher :=
  if !d.running then (false, d)
  else match line with
    | .one => (true, { d with first := d.first ++ [lot] })
    | .two => (true, { d with second := d.second ++ [lot] })

/-- Stops the dispatcher; what it still had queued is dropped. -/
def stop (_ : Dispatcher) : Dispatcher := { first := [], second := [], running := false }

/-- The outcomes of a lane's finished writes to a line's PC register. -/
def outcomes (line : Line) (results : List (Job × Except Failure (List Yield))) :
    List DispatchOutcome :=
  results.map fun (j, r) =>
    ⟨line, (j.value.getD 0).toNat, match r with
      | .ok _ => none
      | .error f => some f.message⟩

variable {σ : Type}

/-- Works off both queues with a controller, the two lines side by side, until
both are empty; gives each line's outcomes in order. -/
def drain (c : Controller σ) (d : Dispatcher) (st : Controller.State σ) :
    (List DispatchOutcome × List DispatchOutcome) × Dispatcher × Controller.State σ :=
  let jobs (l : Line) : List Job := (d.queue l).map fun lot => ⟨.activeLot l .pc, some (Int.ofNat lot)⟩
  match c.runLanes [jobs .one, jobs .two] st with
  | ([r1, r2], st) => ((outcomes .one r1, outcomes .two r2), { d with first := [], second := [] }, st)
  | (_, st) => (([], []), { d with first := [], second := [] }, st)

/-- Closes the dispatcher: what is queued is worked off, then the dispatcher
stops. -/
def close (c : Controller σ) (d : Dispatcher) (st : Controller.State σ) :
    (List DispatchOutcome × List DispatchOutcome) × Dispatcher × Controller.State σ :=
  let (o, d, st) := d.drain c st
  (o, d.stop, st)

theorem enqueue_stopped (d : Dispatcher) (line : Line) (lot : Nat) :
    d.stop.enqueue line lot = (false, d.stop) := rfl

end Dispatcher

end LotBridge
