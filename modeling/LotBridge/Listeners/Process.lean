import LotBridge.Listeners

/-!
# Emitters of lot events across a process

Listener ids come from one counter that the whole process shares: a 64-bit
counter that wraps, so ids are distinct across every emitter as long as fewer
than `2 ^ 64` listeners were registered. An emitter is the list of the ids
registered with it, in registration order; registering and unregistering on it
are `Listeners.register` and `Listeners.unregister` with the shared counter as
its next id. A clone copies the list, so it is a snapshot of the emitter.

A notification calls the listeners of an emitter one after the other. Its
listeners are fixed when it starts, and other calls may come between its
calls: the registry takes a clone of its emitter under its lock and notifies
the clone after releasing the lock, so that listeners may use the registry.

## Main definitions

* `Notification`, `Emitters`: the state of a process.
* `EmitterCall`, `EmitterAnswer`: what is asked of the emitters and what they
  answer.
* `Emitters.step`, `Emitters.run`.
* `Emitters.notifyAll`: a notification that calls all its listeners at once.
-/

namespace LotBridge

/-- A notification under way: its event and the listeners it has still to
call, in order. -/
structure Notification where
  event : LotEvent
  pending : List Nat

/-- The emitters of a process, numbered in the order they were made, the
listener id counter they share, and the notifications under way, numbered in
the order they started. -/
structure Emitters where
  counter : UInt64 := 0
  emitters : List (List Nat) := []
  notifications : List Notification := []

/-- A call on the emitters of a process. -/
inductive EmitterCall where
  /-- Makes an emitter without listeners. -/
  | create
  /-- Makes a copy of emitter `e`. -/
  | clone (e : Nat)
  /-- Registers a listener with emitter `e`. -/
  | register (e : Nat)
  /-- Unregisters the listener `id` from emitter `e`. -/
  | unregister (e id : Nat)
  /-- Starts notifying the listeners of emitter `e` of an event. -/
  | notify (e : Nat) (event : LotEvent)
  /-- Notification `k` calls its next listener. -/
  | deliver (k : Nat)

/-- What the emitters answer to a call. -/
inductive EmitterAnswer where
  /-- The number of the emitter made. -/
  | emitter (e : Nat)
  /-- The id of the listener registered. -/
  | listener (id : Nat)
  /-- The number of the notification started. -/
  | notification (k : Nat)
  /-- Notification `k` called listener `id` with its event. -/
  | called (k id : Nat) (event : LotEvent)
  | done
  /-- A call on an emitter that was never made, or on a notification that
  was never started or has called all its listeners. -/
  | ignored

namespace Emitters

/-- One call. -/
def step (p : Emitters) : EmitterCall → EmitterAnswer × Emitters
  | .create => (.emitter p.emitters.length, { p with emitters := p.emitters ++ [[]] })
  | .clone e =>
    match p.emitters[e]? with
    | some ids => (.emitter p.emitters.length, { p with emitters := p.emitters ++ [ids] })
    | none => (.ignored, p)
  | .register e =>
    match p.emitters[e]? with
    | some ids =>
      let (id, ls) := Listeners.register ⟨ids, p.counter.toNat⟩
      (.listener id, { p with counter := p.counter + 1, emitters := p.emitters.set e ls.ids })
    | none => (.ignored, p)
  | .unregister e id =>
    match p.emitters[e]? with
    | some ids =>
      (.done, { p with emitters := p.emitters.set e (Listeners.unregister ⟨ids, p.counter.toNat⟩ id).ids })
    | none => (.ignored, p)
  | .notify e event =>
    match p.emitters[e]? with
    | some ids =>
      (.notification p.notifications.length, { p with notifications := p.notifications ++ [⟨event, ids⟩] })
    | none => (.ignored, p)
  | .deliver k =>
    match p.notifications[k]? with
    | some ⟨event, id :: rest⟩ =>
      (.called k id event, { p with notifications := p.notifications.set k ⟨event, rest⟩ })
    | _ => (.ignored, p)

section StepEquations

variable (p : Emitters) {e : Nat} {ids : List Nat}

theorem step_create :
    p.step .create = (.emitter p.emitters.length, { p with emitters := p.emitters ++ [[]] }) := rfl

theorem step_clone (h : p.emitters[e]? = some ids) :
    p.step (.clone e) = (.emitter p.emitters.length, { p with emitters := p.emitters ++ [ids] }) := by
  simp [step, h]

theorem step_register (h : p.emitters[e]? = some ids) :
    p.step (.register e) = (.listener p.counter.toNat,
      { p with counter := p.counter + 1, emitters := p.emitters.set e (ids ++ [p.counter.toNat]) }) := by
  simp [step, h, Listeners.register]

theorem step_unregister (id : Nat) (h : p.emitters[e]? = some ids) :
    p.step (.unregister e id) = (.done, { p with emitters := p.emitters.set e (ids.filter (· != id)) }) := by
  simp [step, h, Listeners.unregister]

theorem step_notify (event : LotEvent) (h : p.emitters[e]? = some ids) :
    p.step (.notify e event) = (.notification p.notifications.length,
      { p with notifications := p.notifications ++ [⟨event, ids⟩] }) := by
  simp [step, h]

/-- A call on an emitter that was never made changes nothing. -/
theorem step_of_missing (h : p.emitters[e]? = none) :
    p.step (.clone e) = (.ignored, p) ∧ p.step (.register e) = (.ignored, p) ∧
      (∀ id, p.step (.unregister e id) = (.ignored, p)) ∧
      ∀ event, p.step (.notify e event) = (.ignored, p) := by
  simp [step, h]

theorem step_deliver {k id : Nat} {event : LotEvent} {rest : List Nat}
    (h : p.notifications[k]? = some ⟨event, id :: rest⟩) :
    p.step (.deliver k) = (.called k id event,
      { p with notifications := p.notifications.set k ⟨event, rest⟩ }) := by
  simp [step, h]

/-- A notification that was never started, or has called all its listeners,
calls no one. -/
theorem step_deliver_idle {k : Nat} (h : ∀ event id rest, p.notifications[k]? ≠ some ⟨event, id :: rest⟩) :
    p.step (.deliver k) = (.ignored, p) := by
  simp only [step]

end StepEquations

/-- The answers to calls made one after the other, and the state after them. -/
def run (p : Emitters) : List EmitterCall → List EmitterAnswer × Emitters
  | [] => ([], p)
  | c :: cs =>
    let (a, p') := p.step c
    let (as, q) := p'.run cs
    (a :: as, q)

/-- Lets notification `k` call its next listeners, at most `fuel` of them, with
no other call in between: the listeners called and their event, in order. -/
def drain (p : Emitters) (k : Nat) : Nat → List (Nat × LotEvent) × Emitters
  | 0 => ([], p)
  | fuel + 1 =>
    match p.step (.deliver k) with
    | (.called _ id event, p') =>
      let (calls, q) := p'.drain k fuel
      ((id, event) :: calls, q)
    | (_, p') => ([], p')

/-- Notifies the listeners of emitter `e` of an event with nothing in between,
as an emitter notifies when it is called directly: the listeners called and
the event, in order. -/
def notifyAll (p : Emitters) (e : Nat) (event : LotEvent) : List (Nat × LotEvent) × Emitters :=
  let (_, p') := p.step (.notify e event)
  p'.drain p.notifications.length (((p.emitters[e]?).map List.length).getD 0)

end Emitters

end LotBridge
