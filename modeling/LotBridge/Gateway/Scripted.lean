import LotBridge.Gateway

/-!
# A scripted gateway

A gateway that behaves as a script says, and logs every request it gets, for
checking what a controller asks and in which order. The script says whether a
connection is accepted, hangs or is refused; which namespaces are published,
or that asking for them fails; whether reads and writes are served from a
store of values by address, fail, or hang; and whether closing fails.

A store starts empty, and an address never written reads zero.

## Main definitions

* `Script`, `Request`, `ScriptedGateway`.
* `ScriptedGateway.gateway`: the requests it serves.
-/

namespace LotBridge

/-- How a scripted gateway answers a connection attempt. -/
inductive Admission where
  | accept
  | hang
  | refuse (reason : String)
deriving DecidableEq, Repr

/-- How a scripted gateway answers reads and writes. -/
inductive Service where
  | store
  | fail (reason : String)
  | hang
deriving DecidableEq, Repr

/-- What a scripted gateway does. -/
structure Script where
  admission : Admission := .accept
  namespaces : List String := ["http://opcfoundation.org/UA/", "urn:potline:lines"]
  /-- The reason asking for the namespaces fails, if it does. -/
  namespacesFault : Option String := none
  service : Service := .store
  /-- The reason closing fails, if it does. -/
  closeFault : Option String := none
deriving Repr

/-- A request as the scripted gateway logs it; addresses are rendered. -/
inductive Request where
  | connect
  | namespaceArray
  | read (address : String)
  | write (address : String) (value : Int)
  | close
deriving DecidableEq, Repr

/-- The state of a scripted gateway: its script, its store and its log. -/
structure ScriptedGateway where
  script : Script
  store : List (String × Int) := []
  requests : List Request := []
deriving Repr

namespace ScriptedGateway

/-- Logs a request. -/
def log (r : Request) (g : ScriptedGateway) : ScriptedGateway :=
  { g with requests := g.requests ++ [r] }

/-- Stores a value at an address, replacing the one there. -/
def put (address : String) (v : Int) : List (String × Int) → List (String × Int)
  | [] => [(address, v)]
  | (a, w) :: rest => if a = address then (a, v) :: rest else (a, w) :: put address v rest

/-- A connection attempt. -/
def connect (c : Config.Connection) (g : ScriptedGateway) : Reply Unit × ScriptedGateway :=
  let g := g.log .connect
  match g.script.admission with
  | .accept => (.answer (.ok ()), g)
  | .hang => (.silent, g)
  | .refuse reason => (.answer (.error (.connection c.endpoint reason)), g)

/-- The namespaces, or the scripted fault. -/
def namespaces (g : ScriptedGateway) : Except Failure (List String) × ScriptedGateway :=
  let g := g.log .namespaceArray
  match g.script.namespacesFault with
  | some reason => (.error (.operation "namespace array" reason), g)
  | none => (.ok g.script.namespaces, g)

/-- A read. -/
def read (a : Address) (g : ScriptedGateway) : Reply Int × ScriptedGateway :=
  let g := g.log (.read a.render)
  match g.script.service with
  | .store => (.answer (.ok ((g.store.lookup a.render).getD 0)), g)
  | .fail reason => (.answer (.error (.operation a.render reason)), g)
  | .hang => (.silent, g)

/-- A write. -/
def write (a : Address) (v : Int) (g : ScriptedGateway) : Reply Unit × ScriptedGateway :=
  let g := g.log (.write a.render v)
  match g.script.service with
  | .store => (.answer (.ok ()), { g with store := put a.render v g.store })
  | .fail reason => (.answer (.error (.operation a.render reason)), g)
  | .hang => (.silent, g)

/-- Closing the connection. -/
def close (g : ScriptedGateway) : Except Failure Unit × ScriptedGateway :=
  let g := g.log .close
  match g.script.closeFault with
  | some reason => (.error (.operation "session" reason), g)
  | none => (.ok (), g)

/-- The requests a scripted gateway serves; a dropped connection leaves no
trace. -/
def gateway : Gateway ScriptedGateway where
  connect := connect
  namespaces := namespaces
  read := read
  write := write
  close := close
  release g := g

end ScriptedGateway

end LotBridge
