import LotBridge.Gateway

/-!
# A gateway held in memory

The gateway every test bench starts from: it publishes the server namespace
and the plant's namespace, and holds the four active-lot registers and
`last_updated` at index 1, all zero. It answers at once.

A write is refused for `last_updated`, which is not writable, then for a
register it does not hold, then while writes are set to fail; otherwise it
stores the value, stamps `last_updated` of the same namespace with the wall
clock, and logs the write. A connection is refused while the gateway is
unreachable, and reset while connections are set to fail; each of these
counts as an attempt.

## Main definitions

* `MemoryGateway`, `MemoryGateway.create`.
* `MemoryGateway.gateway`: the requests it serves.
* `MemoryGateway.value`: a register of the plant's namespace.
-/

namespace LotBridge

/-- The state of a gateway held in memory. `stamp` is the wall-clock reading,
in milliseconds, that a write leaves in `last_updated`. -/
structure MemoryGateway where
  namespaces : List String
  /-- Register values by namespace index and register name. -/
  values : List ((Nat × String) × Int)
  /-- Acknowledged writes, in the order they were applied. -/
  writes : List (RegisterKey × Int) := []
  unreachable : Bool := false
  /-- Connection attempts still to be reset. -/
  failingConnects : Nat := 0
  /-- Writes still to be refused. -/
  failingWrites : Nat := 0
  /-- Connection attempts so far, refused ones included. -/
  connects : Nat := 0
  /-- Connections opened and not yet closed or dropped. -/
  openSessions : Nat := 0
  stamp : Nat
deriving Repr

namespace MemoryGateway

/-- The namespace every gateway publishes first. -/
def serverNamespace : String := "http://opcfoundation.org/UA/"

/-- A gateway publishing `uri` at index 1, its registers all zero. -/
def create (uri : String) (stamp : Nat) : MemoryGateway where
  namespaces := [serverNamespace, uri]
  values := RegisterKey.all.map fun k => ((1, k.name), 0)
  stamp := stamp

/-- The value of a register slot. -/
def slot? (g : MemoryGateway) (ns : Nat) (name : String) : Option Int :=
  g.values.lookup (ns, name)

/-- Stores a value in a slot, adding the slot if it is new. -/
def store (ns : Nat) (name : String) (v : Int) :
    List ((Nat × String) × Int) → List ((Nat × String) × Int)
  | [] => [((ns, name), v)]
  | (s, w) :: rest => if s = (ns, name) then (s, v) :: rest else (s, w) :: store ns name v rest

/-- A register of the plant's namespace. -/
def value (g : MemoryGateway) (k : RegisterKey) : Option Int := g.slot? 1 k.name

/-- A connection attempt. -/
def connect (c : Config.Connection) (g : MemoryGateway) : Reply Unit × MemoryGateway :=
  let g := { g with connects := g.connects + 1 }
  if g.unreachable then (.answer (.error (.connection c.endpoint "connection refused")), g)
  else if g.failingConnects > 0 then
    (.answer (.error (.connection c.endpoint "connection reset")),
      { g with failingConnects := g.failingConnects - 1 })
  else (.answer (.ok ()), { g with openSessions := g.openSessions + 1 })

/-- A read of a register. -/
def read (a : Address) (g : MemoryGateway) : Reply Int × MemoryGateway :=
  match g.slot? a.namespaceIndex a.key.name with
  | some v => (.answer (.ok v), g)
  | none => (.answer (.error (.operation a.render "BadNodeIdUnknown")), g)

/-- A write of a register. -/
def write (a : Address) (v : Int) (g : MemoryGateway) : Reply Unit × MemoryGateway :=
  if a.key = .lastUpdated then (.answer (.error (.operation a.render "BadNotWritable")), g)
  else if (g.slot? a.namespaceIndex a.key.name).isNone then
    (.answer (.error (.operation a.render "BadNodeIdUnknown")), g)
  else if g.failingWrites > 0 then
    (.answer (.error (.operation a.render "BadInternalError")),
      { g with failingWrites := g.failingWrites - 1 })
  else
    let values := store a.namespaceIndex a.key.name v g.values
    (.answer (.ok ()),
      { g with
        values := store a.namespaceIndex RegisterKey.lastUpdated.name g.stamp values
        writes := g.writes ++ [(a.key, v)] })

/-- One connection fewer. -/
def leave (g : MemoryGateway) : MemoryGateway := { g with openSessions := g.openSessions - 1 }

/-- The requests a gateway in memory serves. -/
def gateway : Gateway MemoryGateway where
  connect := connect
  namespaces g := (.ok g.namespaces, g)
  read := read
  write := write
  close g := (.ok (), g.leave)
  release := leave

theorem value_create (uri : String) (stamp : Nat) (k : RegisterKey) (h : k ∈ RegisterKey.all) :
    (create uri stamp).value k = some 0 := by
  simp only [RegisterKey.all, List.mem_cons, List.not_mem_nil, or_false] at h
  rcases h with h | h | h | h | h <;> subst h <;> rfl

end MemoryGateway

end LotBridge
