import LotBridge.Registry.Command
import LotBridge.Dispatcher
import LotBridge.CompletionLog

/-!
# The bridge

The bridge ties the parts together: the registry of active lots, whose every
change of a line is queued with the dispatcher and so written to the line's
PC register in the background; the completion sink, which records every
completion; and the controller, which also resets both lines on request.

Queued writes are worked off when the bridge is given time: before a reset of
the lines, and when the host waits for them. The outcomes of all writes are
kept per line, in order, with the number of writes queued.

## Main definitions

* `BridgeCommand`, `BridgeReply`.
* `Bridge`, `Bridge.State`, `Bridge.exec`, `Bridge.settle`.
-/

namespace LotBridge

/-- A request to the bridge: one to its registry, or a reset of both lines. -/
inductive BridgeCommand where
  | registry (c : RegistryCommand)
  | resetLines

/-- What a bridge request gives back: the registry's reply with the effects
of the request, or whether the reset reached both lines. -/
inductive BridgeReply where
  | registry (r : RegistryReply) (e : Effects)
  | reset (ok : Bool)

/-- A bridge: the controller writing to the lines, and the completion sink. -/
structure Bridge (σ : Type) where
  controller : Controller σ
  sink : CompletionSink

/-- What changes as a bridge works. -/
structure Bridge.State (σ : Type) where
  registry : Registry := {}
  source : LotSource
  dispatcher : Dispatcher := {}
  plant : Controller.State σ
  workdir : Workdir
  /-- Outcomes of the writes to each line so far, in order. -/
  outcomes : List DispatchOutcome × List DispatchOutcome := ([], [])
  /-- Writes queued so far. -/
  expected : Nat := 0

namespace Bridge

variable {σ : Type} (b : Bridge σ)

/-- Works off every queued write. -/
def settle (st : State σ) : State σ :=
  let ((o1, o2), d, plant) := st.dispatcher.drain b.controller st.plant
  { st with
    dispatcher := d
    plant := plant
    outcomes := (st.outcomes.1 ++ o1, st.outcomes.2 ++ o2) }

/-- Queues the writes a registry step asked for. -/
def queue (st : State σ) (writes : List (Line × Nat)) : State σ :=
  writes.foldl (fun st (l, lot) =>
    let (sent, d) := st.dispatcher.enqueue l lot
    { st with dispatcher := d, expected := st.expected + (if sent then 1 else 0) }) st

/-- Carries out a request at wall-clock time `now`. -/
def exec (now : Nat) (cmd : BridgeCommand) (st : State σ) : BridgeReply × State σ :=
  match cmd with
  | .registry c =>
    let (r, reg, src, e) := st.registry.exec st.source now c
    let w := e.completions.foldl (fun w done => b.sink.record w done now) st.workdir
    (.registry r e, queue { st with registry := reg, source := src, workdir := w } e.dispatched)
  | .resetLines =>
    let st := b.settle st
    let ((a, c), plant) := b.controller.resetLines st.plant
    (.reset (a && c), { st with plant := plant })

end Bridge

end LotBridge
