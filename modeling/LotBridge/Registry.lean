import LotBridge.Listeners
import LotBridge.Repository

/-!
# The registry of active lots

Each line has at most one active lot. Activating a lot looks its record up,
checks that the record carries the requested id, and puts a snapshot of it on
the line, replacing the lot there. Deactivating takes the lot off; completing
records a completion with the count of units and then deactivates.

Every change of a line is sent to the equipment: the new lot's id on
activation and `0` when the line is cleared. Every change is also announced to
the listeners. A step that changes nothing sends and announces nothing.

## Main definitions

* `RegistryError`: a lookup that failed or returned another lot.
* `Registry`, `Effects`: the lines, and what a step sends and announces.
* `Registry.activate`, `Registry.deactivate`, `Registry.complete`.
-/

namespace LotBridge

/-- Why an activation was refused. -/
inductive RegistryError where
  | lotLookup (lotId : Nat) (cause : RepositoryError)
  | lotMismatch (requested returned : Nat)
deriving DecidableEq, Repr

/-- The wording of a refused activation. -/
def RegistryError.message : RegistryError → String
  | .lotLookup id cause => "cannot activate lot " ++ toString id ++ ": " ++ cause.message
  | .lotMismatch r got =>
    "cannot activate lot " ++ toString r ++ ": repository returned lot " ++ toString got

/-- The short name of a refusal's cause. -/
def RegistryError.kind : RegistryError → String
  | .lotLookup .. => "LotLookup"
  | .lotMismatch .. => "LotMismatch"

/-- The active lot of each line and the listeners. -/
structure Registry where
  first : Option ActiveLot := none
  second : Option ActiveLot := none
  listeners : Listeners := {}
deriving Inhabited

/-- What a step sent to the equipment, recorded as completed, and announced,
each in order. -/
structure Effects where
  dispatched : List (Line × Nat) := []
  completions : List Completion := []
  deliveries : List (Nat × LotEvent) := []
deriving Inhabited

/-- The effects of two steps, one after the other. -/
def Effects.append (a b : Effects) : Effects :=
  ⟨a.dispatched ++ b.dispatched, a.completions ++ b.completions, a.deliveries ++ b.deliveries⟩

namespace Registry

/-- The active lot of a line. -/
def slot (reg : Registry) : Line → Option ActiveLot
  | .one => reg.first
  | .two => reg.second

/-- Replaces the active lot of a line. -/
def setSlot (reg : Registry) (line : Line) (lot : Option ActiveLot) : Registry :=
  match line with
  | .one => { reg with first := lot }
  | .two => { reg with second := lot }

/-- The active lots, line one first. -/
def activeLots (reg : Registry) : List ActiveLot := Line.all.filterMap reg.slot

/-- Activates lot `lotId` on a line at time `now`, replacing the lot there. -/
def activate (reg : Registry) (lookup : Lookup) (line : Line) (lotId now : Nat) :
    Except RegistryError ActiveLot × Registry × Effects :=
  match lookup lotId with
  | .error cause => (.error (.lotLookup lotId cause), reg, {})
  | .ok record =>
    if record.id ≠ lotId then (.error (.lotMismatch lotId record.id), reg, {})
    else
      let lot := ActiveLot.ofRecord line record now
      let previous := reg.slot line
      (.ok lot, reg.setSlot line (some lot),
        { dispatched := [(line, lot.lotId)],
          deliveries := reg.listeners.notify (.activated lot previous) })

/-- Takes the lot off a line; `false` if there was none. -/
def deactivate (reg : Registry) (line : Line) : Bool × Registry × Effects :=
  match reg.slot line with
  | none => (false, reg, {})
  | some lot =>
    (true, reg.setSlot line none,
      { dispatched := [(line, 0)], deliveries := reg.listeners.notify (.deactivated line lot) })

/-- Finishes the lot on a line with a count of units at time `now`, then takes
it off; `false` if there was none. -/
def complete (reg : Registry) (line : Line) (count now : Nat) : Bool × Registry × Effects :=
  match reg.slot line with
  | none => (false, reg, {})
  | some lot =>
    let done : Effects :=
      { completions := [Completion.ofActive lot count now],
        deliveries := reg.listeners.notify (.completed lot count) }
    let (_, reg', off) := reg.deactivate line
    (true, reg', done.append off)

/-- Registers a listener. -/
def register (reg : Registry) : Nat × Registry :=
  let (id, ls) := reg.listeners.register
  (id, { reg with listeners := ls })

/-- Unregisters a listener. -/
def unregister (reg : Registry) (id : Nat) : Registry :=
  { reg with listeners := reg.listeners.unregister id }

theorem slot_setSlot (reg : Registry) (line : Line) (lot : Option ActiveLot) :
    (reg.setSlot line lot).slot line = lot := by
  cases line <;> rfl

theorem slot_setSlot_ne (reg : Registry) (line other : Line) (h : other ≠ line)
    (lot : Option ActiveLot) : (reg.setSlot line lot).slot other = reg.slot other := by
  cases line <;> cases other <;> simp_all [setSlot, slot]

end Registry

end LotBridge
