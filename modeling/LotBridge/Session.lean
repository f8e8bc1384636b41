import LotBridge.Gateway
import LotBridge.Phase

/-!
# Sessions

A session is one connection to a gateway, used for a piece of work and
closed again. It connects, waiting at most the connect timeout for an
answer; it finds the plant's namespace in the list the gateway publishes, the
position being the namespace index, which must fit in 16 bits; then it works
through its steps, reading and writing registers at that index. Whatever
happens after connecting, the connection is closed, and a failure to close is
not a failure of the session.

The session reports its progress to a `Tracker`: `connect` when it starts,
`connected`, `resolved`, then `completed`, or `fault` at the first failure.

Time is virtual and counted in milliseconds. A session runs until it must
wait: for a pause, for the connect timeout, or for an answer that never
comes. `Session.advance` runs it from one wait to the next. A zero pause does
not wait, nor does a zero connect timeout: it expires at once.

A session can be cancelled while it waits. It then stops where it is; an open
connection is dropped without being closed. A session cancelled at the very
time it would go on goes on instead, up to its next wait.

## Main definitions

* `Step`, `Yield`: the work of a session and what each step gives back.
* `Session`, `Session.advance`: a session and one run of it up to a wait.
* `Session.finish`: a session run to its end, or to its cancellation.
* `Session.repeated`: sessions of the same work, one after another.
-/

namespace LotBridge

/-- One step of the work of a session. -/
inductive Step where
  | read (key : RegisterKey)
  | write (key : RegisterKey) (value : Int)
  | pause (ms : Nat)
  | namespaceIndex
  | resolve (key : RegisterKey)
deriving DecidableEq, Repr

/-- What a step gives back. -/
inductive Yield where
  | unit
  | number (n : Int)
  | index (n : Nat)
  | address (a : Address)
deriving DecidableEq, Repr

/-- Where a session stands. -/
inductive Stage where
  /-- Not yet connecting. -/
  | opening
  /-- Waiting for a connection that does not answer. -/
  | connecting
  /-- Connected at namespace `index`, with steps still to do and the yields so
  far, newest first. -/
  | working (index : Nat) (todo : List Step) (done : List Yield)
  /-- Connected, waiting for an answer that never comes. -/
  | stalled
deriving DecidableEq, Repr

/-- A session: the tracker it reports to, its work and where it stands. -/
structure Session where
  tracker : Tracker
  work : List Step
  stage : Stage := .opening
deriving Repr

/-- How a piece of work stands after a run: finished, with its result and the
tracker, or waiting until a time (`none`: for ever) to go on as `next`. -/
inductive Progress (α : Type) where
  | finished (r : Except Failure (List Yield)) (t : Tracker)
  | waiting (wake : Option Nat) (next : α)
deriving Repr

/-- The largest namespace index an address can carry. -/
def maxNamespaceIndex : Nat := 65535

/-- The index of a namespace in the published list. -/
def namespaceIndexIn (uri : String) (published : List String) : Except Failure Nat :=
  match published.findIdx? (· == uri) with
  | none => .error (Failure.namespaceMissing uri published)
  | some i =>
    if i ≤ maxNamespaceIndex then .ok i
    else .error (.operation "namespace array" "namespace index out of range")

/-- The failure of a connection that did not answer in time. -/
def connectTimedOut (c : Config.Connection) : Failure :=
  .connection c.endpoint ("timed out after " ++ toString c.connectTimeoutMs ++ " ms")

namespace Session

variable {σ : Type} (gw : Gateway σ) (conn : Config.Connection)

/-- Whether the session holds an open connection. -/
def isConnected (s : Session) : Bool :=
  match s.stage with
  | .working .. | .stalled => true
  | .opening | .connecting => false

/-- Ends a session that failed while connected: the connection is closed,
whatever closing says, and the fault recorded. -/
def abandon (e : Failure) (t : Tracker) (g : σ) : Progress Session × σ :=
  (.finished (.error e) (t.step .fault).2, (gw.close g).2)

/-- Works through steps at namespace `index` at time `now`, up to the end or
the first wait. -/
def perform (now : Nat) (t : Tracker) (work : List Step) (index : Nat) :
    List Step → List Yield → σ → Progress Session × σ
  | [], done, g =>
    (.finished (.ok done.reverse) (t.step .completed).2, (gw.close g).2)
  | .read k :: rest, done, g =>
    match gw.read ⟨index, k⟩ g with
    | (.answer (.ok v), g) => perform now t work index rest (.number v :: done) g
    | (.answer (.error e), g) => abandon gw e t g
    | (.silent, g) => (.waiting none ⟨t, work, .stalled⟩, g)
  | .write k v :: rest, done, g =>
    match gw.write ⟨index, k⟩ v g with
    | (.answer (.ok ()), g) => perform now t work index rest (.unit :: done) g
    | (.answer (.error e), g) => abandon gw e t g
    | (.silent, g) => (.waiting none ⟨t, work, .stalled⟩, g)
  | .pause ms :: rest, done, g =>
    if ms = 0 then perform now t work index rest (.unit :: done) g
    else (.waiting (some (now + ms)) ⟨t, work, .working index rest (.unit :: done)⟩, g)
  | .namespaceIndex :: rest, done, g => perform now t work index rest (.index index :: done) g
  | .resolve k :: rest, done, g =>
    perform now t work index rest (.address ⟨index, k⟩ :: done) g

/-- A connected session: the namespace is looked up, then the work done. -/
def connected (now : Nat) (t : Tracker) (work : List Step) (g : σ) : Progress Session × σ :=
  let t := (t.step .connected).2
  match gw.namespaces g with
  | (.error e, g) => abandon gw e t g
  | (.ok published, g) =>
    match namespaceIndexIn conn.namespaceUri published with
    | .error e => abandon gw e t g
    | .ok index => perform gw now (t.step .resolved).2 work index work [] g

/-- Runs a session at time `now` up to its end or its next wait. -/
def advance (now : Nat) (s : Session) (g : σ) : Progress Session × σ :=
  match s.stage with
  | .opening =>
    let t := (s.tracker.step .connect).2
    match gw.connect conn g with
    | (.answer (.ok ()), g) => connected gw conn now t s.work g
    | (.answer (.error e), g) => (.finished (.error e) (t.step .fault).2, g)
    | (.silent, g) =>
      if conn.connectTimeoutMs = 0 then
        (.finished (.error (connectTimedOut conn)) (t.step .fault).2, g)
      else (.waiting (some (now + conn.connectTimeoutMs)) ⟨t, s.work, .connecting⟩, g)
  | .connecting => (.finished (.error (connectTimedOut conn)) (s.tracker.step .fault).2, g)
  | .working index todo done => perform gw now s.tracker s.work index todo done g
  | .stalled => (.waiting none s, g)

/-- How a session ended: with a result, cancelled, or never. -/
inductive Ending where
  | finished (r : Except Failure (List Yield))
  | cancelled
  | never
deriving Repr

/-- A session run: how it ended, the tracker after it, and the time it ended. -/
structure Run where
  ending : Ending
  tracker : Tracker
  time : Nat
deriving Repr

/-- Runs a session from time `now` to its end, or to its cancellation at time
`cancel`. `fuel` bounds the waits. -/
def finishFrom (cancel : Option Nat) : Nat → Nat → Session → σ → Run × σ
  | 0, now, s, g => (⟨.never, s.tracker, now⟩, g)
  | fuel + 1, now, s, g =>
    match advance gw conn now s g with
    | (.finished r t, g) => (⟨.finished r, t, now⟩, g)
    | (.waiting wake s, g) =>
      let dropped := if s.isConnected then gw.release g else g
      match cancel, wake with
      | some c, some w =>
        if c < w then (⟨.cancelled, s.tracker, c⟩, dropped) else finishFrom cancel fuel w s g
      | some c, none => (⟨.cancelled, s.tracker, c⟩, dropped)
      | none, some w => finishFrom cancel fuel w s g
      | none, none => (⟨.never, s.tracker, now⟩, g)

/-- Runs a session of work from time `now`, reporting to a tracker, to its end
or its cancellation at `cancel`. -/
def finish (cancel : Option Nat) (now : Nat) (t : Tracker) (work : List Step) (g : σ) : Run × σ :=
  finishFrom gw conn cancel (work.length + 2) now ⟨t, work, .opening⟩ g

/-- A session of work from time zero, cancelled at `cancel` if it lasts that
long, then `more` sessions of the same work, never cancelled, each reporting
to the tracker the one before left. Gives the first run and the others. -/
def repeated (cancel : Option Nat) (more : Nat) (work : List Step) (g : σ) :
    (Run × List Run) × σ :=
  let (first, g) := finish gw conn cancel 0 {} work g
  let (runs, _, g) := (List.range more).foldl
    (fun (acc : List Run × Tracker × σ) _ =>
      let (r, g) := finish gw conn none 0 acc.2.1 work acc.2.2
      (acc.1 ++ [r], r.tracker, g))
    ([], first.tracker, g)
  ((first, runs), g)

end Session

end LotBridge
