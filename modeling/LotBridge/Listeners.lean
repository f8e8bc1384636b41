import LotBridge.Lot

/-!
# Listeners to lot events

Parties that want to hear when a lot is activated, deactivated or completed
register as listeners and get an id, distinct from every id handed out before.
A notification reaches every listener registered and not yet unregistered, in
the order of registration, once each.

## Main definitions

* `LotEvent`: what listeners hear.
* `Listeners`: the registered ids, with `register`, `unregister`,
  `unregisterKnown` and `notify`.
-/

namespace LotBridge

/-- What listeners hear about lots. -/
inductive LotEvent where
  /-- A lot became active, replacing `previous` if there was one. -/
  | activated (lot : ActiveLot) (previous : Option ActiveLot)
  /-- The lot on a line was taken off it. -/
  | deactivated (line : Line) (lot : ActiveLot)
  /-- The lot on its line was finished with a count of units. -/
  | completed (lot : ActiveLot) (actualCount : Nat)
deriving Inhabited

/-- The registered listeners, by id in registration order, and the next id to
hand out. -/
structure Listeners where
  ids : List Nat := []
  nextId : Nat := 0
deriving DecidableEq, Repr

namespace Listeners

/-- Registers a listener under a fresh id. -/
def register (ls : Listeners) : Nat × Listeners :=
  (ls.nextId, { ids := ls.ids ++ [ls.nextId], nextId := ls.nextId + 1 })

/-- Removes the listener with an id, if it is registered. -/
def unregister (ls : Listeners) (id : Nat) : Listeners :=
  { ls with ids := ls.ids.filter (· != id) }

/-- Unregisters the listener with an id; `false` for an id never handed out,
`true` otherwise, also for a listener already gone. -/
def unregisterKnown (ls : Listeners) (id : Nat) : Bool × Listeners :=
  if id < ls.nextId then (true, ls.unregister id) else (false, ls)

/-- How many listeners are registered. -/
def count (ls : Listeners) : Nat := ls.ids.length

/-- The deliveries of an event: one to each registered listener, in
registration order. -/
def notify (ls : Listeners) (e : LotEvent) : List (Nat × LotEvent) := ls.ids.map (·, e)

end Listeners

end LotBridge
