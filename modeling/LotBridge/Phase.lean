/-!
# Phases of a controller call

One call to a line controller walks
`idle → connecting → namespace_resolving → ready → succeeded`. A fault in any
of the three working phases moves it to `errored`, from which the next attempt
starts over at `connecting`; a call that gives up ends in `failed`. Giving up
is possible before the first attempt too, when the input is refused at once.

`Tracker` follows a call through its phases: it counts the attempts started
and remembers the phase of the last fault. An event that does not fit the
current phase is refused: it changes nothing but the count of ignored events,
which a tracker keeps as the log it writes for each of them.

## Main definitions

* `Phase`, `Phase.Event`, `Phase.next`: the ten allowed moves.
* `Tracker.step`: one event applied, with whether it was accepted.
-/

namespace LotBridge

/-- The phase of one controller call. -/
inductive Phase where
  | idle
  | connecting
  | namespaceResolving
  | ready
  | succeeded
  | errored
  | failed
deriving DecidableEq, Repr, Inhabited

namespace Phase

/-- What moves a call between phases. -/
inductive Event where
  /-- A new attempt opens the transport. -/
  | connect
  /-- The transport is up. -/
  | connected
  /-- The namespace index is known. -/
  | resolved
  /-- The read or write was acknowledged. -/
  | completed
  /-- The current attempt failed. -/
  | fault
  /-- No further attempt will be made. -/
  | giveUp
deriving DecidableEq, Repr

/-- The name of a phase. -/
def name : Phase → String
  | .idle => "idle"
  | .connecting => "connecting"
  | .namespaceResolving => "namespace_resolving"
  | .ready => "ready"
  | .succeeded => "succeeded"
  | .errored => "errored"
  | .failed => "failed"

/-- Every phase, in order. -/
def all : List Phase := [.idle, .connecting, .namespaceResolving, .ready, .succeeded, .errored, .failed]

/-- The phase with a given name. -/
def ofName? (s : String) : Option Phase := all.find? (·.name == s)

/-- The names of the events. -/
def Event.names : List (String × Event) :=
  [("connect", .connect), ("connected", .connected), ("resolved", .resolved),
   ("completed", .completed), ("fault", .fault), ("give_up", .giveUp)]

/-- A call in a terminal phase is over. -/
def isTerminal : Phase → Bool
  | .succeeded | .failed => true
  | _ => false

/-- The phase an event leads to, if the event is allowed. -/
def next : Phase → Event → Option Phase
  | .idle, .connect | .errored, .connect => some .connecting
  | .connecting, .connected => some .namespaceResolving
  | .namespaceResolving, .resolved => some .ready
  | .ready, .completed => some .succeeded
  | .connecting, .fault | .namespaceResolving, .fault | .ready, .fault => some .errored
  | .idle, .giveUp | .errored, .giveUp => some .failed
  | _, _ => none

theorem ofName?_name (p : Phase) : ofName? p.name = some p := by
  cases p <;> rfl

theorem next_terminal (p : Phase) (h : p.isTerminal = true) (e : Event) : p.next e = none := by
  cases p <;> cases e <;> simp_all [isTerminal, next]

end Phase

/-- A call followed through its phases: the phase, the attempts started, the
phase of the last fault, and how many events it ignored. -/
structure Tracker where
  phase : Phase := .idle
  attempts : Nat := 0
  failedIn : Option Phase := none
  ignored : Nat := 0
deriving DecidableEq, Repr

namespace Tracker

/-- Applies an event. The answer says whether it was accepted; a refused event
only counts as ignored. -/
def step (t : Tracker) (e : Phase.Event) : Bool × Tracker :=
  match t.phase.next e with
  | none => (false, { t with ignored := t.ignored + 1 })
  | some p =>
    let t' := match e with
      | .connect => { t with attempts := t.attempts + 1 }
      | .fault => { t with failedIn := some t.phase }
      | _ => t
    (true, { t' with phase := p })

/-- Applies events in order, keeping the answer and the tracker after each. -/
def trace (t : Tracker) : List Phase.Event → List (Bool × Tracker)
  | [] => []
  | e :: rest =>
    let r := t.step e
    r :: r.2.trace rest

theorem step_refused (t : Tracker) (e : Phase.Event) (h : t.phase.next e = none) :
    t.step e = (false, { t with ignored := t.ignored + 1 }) := by
  simp [step, h]

theorem length_trace (t : Tracker) (es : List Phase.Event) : (t.trace es).length = es.length := by
  induction es generalizing t with
  | nil => rfl
  | cons e rest ih => simp [trace, ih]

end Tracker

end LotBridge
