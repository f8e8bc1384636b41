import LotBridge.Registry

/-!
# What a registry is asked

The requests a host makes of the registry of active lots, as data, and what
each gives back, together with where the registry finds lot records: a
repository in memory, a source that returns a bare record for every id, or
one that cannot be reached.

A listener is known by the index it was registered under; unregistering an
index handed out before succeeds, also for a listener already gone, and one
never handed out is refused. Inserting records and asking for the size work
on a repository in memory only.

## Main definitions

* `LotSource`, `LotSource.lookup`.
* `RegistryCommand`, `RegistryReply`.
* `Registry.exec`: a request carried out.
-/

namespace LotBridge

/-- Where lot records come from. -/
inductive LotSource where
  | memory (repo : Repository)
  | fixed (id : Nat)
  | unavailable (reason : String)

/-- Looks a record up in a source. -/
def LotSource.lookup : LotSource → Lookup
  | .memory repo => repo.get?
  | .fixed id => fun _ => .ok ⟨id, []⟩
  | .unavailable r => fun _ => .error (.unavailable r)

/-- A request to the registry. -/
inductive RegistryCommand where
  | activate (line : Line) (lot : Nat)
  | deactivate (line : Line)
  | complete (line : Line) (count : Nat)
  | get (line : Line)
  | all
  | register
  | unregister (listener : Nat)
  | insert (record : LotRecord)
  | size

/-- What a registry request gives back. -/
inductive RegistryReply where
  | activated (r : Except RegistryError ActiveLot)
  | done (ok : Bool)
  | lot (a : Option ActiveLot)
  | lots (as : List ActiveLot)
  | listener (id : Nat)
  | records (count : Nat)
  | size (count : Nat)
  /-- The request needs a repository in memory. -/
  | unsupported

/-- Unregisters the listener with an index; `false` for an index never handed
out. -/
def Registry.unregisterKnown (reg : Registry) (id : Nat) : Bool × Registry :=
  let (known, ls) := reg.listeners.unregisterKnown id
  (known, { reg with listeners := ls })

/-- Carries out a request at time `now`, giving the reply, the registry and
the source after it, and the effects. -/
def Registry.exec (src : LotSource) (now : Nat) (cmd : RegistryCommand) (reg : Registry) :
    RegistryReply × Registry × LotSource × Effects :=
  match cmd with
  | .activate l lot =>
    let (r, reg, e) := reg.activate src.lookup l lot now
    (.activated r, reg, src, e)
  | .deactivate l => let (b, reg, e) := reg.deactivate l; (.done b, reg, src, e)
  | .complete l n => let (b, reg, e) := reg.complete l n now; (.done b, reg, src, e)
  | .get l => (.lot (reg.slot l), reg, src, {})
  | .all => (.lots reg.activeLots, reg, src, {})
  | .register => let (id, reg) := reg.register; (.listener id, reg, src, {})
  | .unregister id => let (b, reg) := reg.unregisterKnown id; (.done b, reg, src, {})
  | .insert r =>
    match src with
    | .memory repo => let repo := repo.insert r; (.records repo.size, reg, .memory repo, {})
    | _ => (.unsupported, reg, src, {})
  | .size =>
    match src with
    | .memory repo => (.size repo.size, reg, src, {})
    | _ => (.unsupported, reg, src, {})

end LotBridge
