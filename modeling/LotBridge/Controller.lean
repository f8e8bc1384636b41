import LotBridge.Session
import LotBridge.Status
import LotBridge.Retry.Policy

/-!
# Line controllers

A line controller reads and writes the registers of the lines through a
gateway. Every call opens a session of its own and retries it under the
retry policy: after a failed attempt it pauses, then tries again, until an
attempt succeeds, the policy will not retry the failure, or the attempts run
out. One tracker follows a call through all its attempts; a call that fails
for good gives up, and the status records the failure with the phase of the
last fault. A success is recorded as one too. An address that does not read
is refused before any attempt, and recorded as a failure in no phase.

Calls run in lanes on a virtual clock. A lane does its jobs one after another;
lanes run side by side, each going on whenever the clock reaches the time it
waits for. At each such time the lanes are visited in turn, the first one
visited moving one lane on each time: this decides which of two lanes
touches the gateway first when both go on at once.

Resetting both lines runs the two writes of lot 0 in two lanes.

## Main definitions

* `Job`, `Call`, `Lane`.
* `Controller`, `Controller.State`.
* `Controller.runLanes`: lanes run until every job ended.
* `Controller.write`, `Controller.read`, `Controller.reject`,
  `Controller.resetLines`.
-/

namespace LotBridge

/-- A read of a register, or a write of a value to it. -/
structure Job where
  key : RegisterKey
  value : Option Int
deriving DecidableEq, Repr

/-- The session work of a job. -/
def Job.work : Job → List Step
  | ⟨k, none⟩ => [.read k]
  | ⟨k, some v⟩ => [.write k v]

/-- A call under the retry policy: an attempt under way, or the pause before
attempt `attempt`. -/
inductive Call where
  | trying (attempt : Nat) (s : Session)
  | pausing (attempt : Nat) (t : Tracker) (work : List Step)
deriving Repr

namespace Call

variable {σ : Type} (gw : Gateway σ) (conn : Config.Connection) (policy : Retry.Policy)

/-- A call of some work, before its first attempt. -/
def start (work : List Step) : Call := .trying 0 ⟨{}, work, .opening⟩

/-- Runs attempt `a` and, while pauses are zero, the attempts after it, at
time `now`; `fuel` bounds the attempts. -/
def attemptFrom (now : Nat) : Nat → Nat → Session → σ → Progress Call × σ
  | fuel, a, s, g =>
    let work := s.work
    match Session.advance gw conn now s g with
    | (.waiting w s, g) => (.waiting w (.trying a s), g)
    | (.finished (.ok v) t, g) => (.finished (.ok v) t, g)
    | (.finished (.error e) t, g) =>
      if a + 1 < policy.limit && policy.shouldRetry a e then
        let d := policy.delay a
        if d = 0 then
          match fuel with
          | 0 => (.finished (.error e) t, g)
          | n + 1 => attemptFrom now n (a + 1) ⟨t, work, .opening⟩ g
        else (.waiting (some (now + d)) (.pausing (a + 1) t work), g)
      else (.finished (.error e) t, g)

/-- Runs a call at time `now` up to its end or its next wait. -/
def advance (now : Nat) (c : Call) (g : σ) : Progress Call × σ :=
  match c with
  | .trying a s => attemptFrom gw conn policy now policy.limit a s g
  | .pausing a t work => attemptFrom gw conn policy now policy.limit a ⟨t, work, .opening⟩ g

end Call

/-- Jobs done one after another: those not started, the one under way with
the time it waits for (`none`: for ever), and the results so far. -/
structure Lane where
  queue : List Job
  current : Option (Job × Call × Option Nat) := none
  results : List (Job × Except Failure (List Yield)) := []
deriving Repr

/-- A lane with nothing under way and nothing queued. -/
def Lane.isIdle (l : Lane) : Bool := l.current.isNone && l.queue.isEmpty

/-- The time a lane waits for, if it waits for one. -/
def Lane.wake? (l : Lane) : Option Nat := l.current.bind (·.2.2)

/-- The fuel a lane needs for one visit. -/
def Lane.visits (l : Lane) : Nat := 2 * l.queue.length + 2

/-- A controller: the gateway, the connection settings and the retry policy. -/
structure Controller (σ : Type) where
  gateway : Gateway σ
  connection : Config.Connection
  policy : Retry.Policy

namespace Controller

/-- What changes as a controller works: the gateway, the status, the clock. -/
structure State (σ : Type) where
  gate : σ
  status : Status := {}
  clock : Nat := 0

variable {σ : Type} (c : Controller σ)

/-- Records the end of a call: a success, or a failure after giving up, in
the phase of the last fault. -/
def settle (r : Except Failure (List Yield)) (t : Tracker) (st : State σ) : State σ :=
  match r with
  | .ok _ => { st with status := st.status.recordSuccess st.clock }
  | .error e =>
    let t := (t.step .giveUp).2
    { st with status := st.status.recordFailure e t.failedIn st.clock }

/-- Moves a lane on at the current time: the job under way goes on if its
time has come, and when it ends the next one starts at once. `fuel` bounds the
jobs started and ended. -/
def pollLane : Nat → Lane → State σ → Lane × State σ
  | 0, lane, st => (lane, st)
  | fuel + 1, lane, st =>
    match lane.current with
    | some (j, call, some w) =>
      if w ≤ st.clock then
        match call.advance c.gateway c.connection c.policy st.clock st.gate with
        | (.waiting w' call', g) => ({ lane with current := some (j, call', w') }, { st with gate := g })
        | (.finished r t, g) =>
          pollLane fuel { lane with current := none, results := lane.results ++ [(j, r)] }
            (settle r t { st with gate := g })
      else (lane, st)
    | some (_, _, none) => (lane, st)
    | none =>
      match lane.queue with
      | [] => (lane, st)
      | j :: rest =>
        pollLane fuel { lane with queue := rest, current := some (j, Call.start j.work, some st.clock) } st

/-- Visits every lane once at the current time, lane `first` first. -/
def pollAll (first : Nat) (lanes : List Lane) (st : State σ) : List Lane × State σ :=
  let n := lanes.length
  ((List.range n).map fun i => (i + first) % n).foldl
    (fun (acc : List Lane × State σ) i =>
      match acc.1[i]? with
      | some lane =>
        let (lane, st) := c.pollLane lane.visits lane acc.2
        (acc.1.set i lane, st)
      | none => acc)
    (lanes, st)

/-- The earliest time a lane waits for. -/
def nextWake (lanes : List Lane) : Option Nat :=
  lanes.foldl (fun best l =>
    match best, l.wake? with
    | some b, some w => some (min b w)
    | none, w => w
    | b, none => b) none

/-- Runs lanes from visit `round` on, moving the clock to the next time a lane
waits for, until no lane waits for a time. `fuel` bounds the visits. -/
def runFrom : Nat → Nat → List Lane → State σ → List Lane × State σ
  | 0, _, lanes, st => (lanes, st)
  | fuel + 1, round, lanes, st =>
    let (lanes, st) := c.pollAll round lanes st
    match nextWake lanes with
    | none => (lanes, st)
    | some w => runFrom fuel (round + 1) lanes { st with clock := w }

/-- Runs queues of jobs side by side until every job ended, or waits for
ever. Gives each queue's results. -/
def runLanes (queues : List (List Job)) (st : State σ) :
    List (List (Job × Except Failure (List Yield))) × State σ :=
  let jobs := (queues.map List.length).foldl (· + ·) 0
  let fuel := (jobs + 1) * (2 * c.policy.limit + 2) + 1
  let (lanes, st) := c.runFrom fuel 0 (queues.map fun q => { queue := q }) st
  (lanes.map (·.results), st)

/-- Runs one job to its end; `none` if it never ends. -/
def perform (j : Job) (st : State σ) : Option (Except Failure (List Yield)) × State σ :=
  match c.runLanes [[j]] st with
  | ([[(_, r)]], st) => (some r, st)
  | (_, st) => (none, st)

/-- The number a read gave back. -/
def readValue (ys : List Yield) : Int :=
  match ys with
  | [.number v] => v
  | _ => 0

/-- Writes a value to a register; `none` if the call never ends. -/
def write (key : RegisterKey) (v : Int) (st : State σ) : Option (Except Failure Unit) × State σ :=
  let (r, st) := c.perform ⟨key, some v⟩ st
  (r.map (·.map fun _ => ()), st)

/-- Reads a register; `none` if the call never ends. -/
def read (key : RegisterKey) (st : State σ) : Option (Except Failure Int) × State σ :=
  let (r, st) := c.perform ⟨key, none⟩ st
  (r.map (·.map readValue), st)

/-- Refuses an address before any attempt. -/
def reject (b : BadAddress) (st : State σ) : State σ :=
  { st with status := st.status.recordFailure (.invalidAddress b) none st.clock }

/-- Whether a lane's single job succeeded. -/
def succeeded (results : List (Job × Except Failure (List Yield))) : Bool :=
  match results with
  | [(_, .ok _)] => true
  | _ => false

/-- Resets both lines to lot 0 side by side; gives whether each succeeded. -/
def resetLines (st : State σ) : (Bool × Bool) × State σ :=
  let reset (l : Line) : List Job := [⟨RegisterKey.activeLot l .pc, some 0⟩]
  match c.runLanes [reset .one, reset .two] st with
  | ([r1, r2], st) => ((succeeded r1, succeeded r2), st)
  | (_, st) => ((false, false), st)

end Controller

end LotBridge
