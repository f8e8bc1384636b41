import LotBridge.Simulator
import LotBridge.Wire.Envelope
import LotBridge.Wire.Response
import LotBridge.Wire.Framing

/-!
# Serving the gateway protocol

A simulated gateway serves its clients over connections. Each connection is
a stream of lines and has a session, which a `hello` opens; until then only a
`hello` is served. The registers and the count of open sessions are shared by
all connections, and every request is served on them as a whole, so the
connections interleave request by request.

A line is cut from the stream as the framing does it: a line of more than
`maxLineBytes` bytes, or one that is no UTF-8, ends the connection. A line
that is blank once trimmed is skipped. Any other line is read as an envelope:
a line that does not read gets a `BadDecodingError` under sequence number 0,
and an envelope gets the response to its request under its own sequence
number.

A `hello` is accepted when the gateway asks for no credentials or when it
names the configured user and password; a refused `hello` ends the
connection, and so does `close`. Reads and writes name a register of
namespace 2; `last_updated` cannot be written, and a write stamps it with the
time of the write. When a connection ends, its session no longer counts.

## Main definitions

* `Simulator.Setup`, `Simulator.Session`, `Simulator.Turn`.
* `Simulator.readRegister`, `Simulator.writeRegister`, `Simulator.respond`.
* `Simulator.serveLine`, `Simulator.servePiece`: one line of a connection.
* `Simulator.Server`, `Simulator.Event`, `Simulator.Server.step`,
  `Simulator.Server.run`: connections served in any interleaving.
-/

namespace LotBridge

open Wire

/-- Whether a request opens a session. -/
def Wire.Request.isHello : Request → Bool
  | .hello .. => true
  | _ => false

namespace Simulator

/-- The namespace every gateway publishes first. -/
def serverNamespace : String := "http://opcfoundation.org/UA/"

/-- The namespace index the registers live under. -/
def linesNamespaceIndex : Nat := 2

/-- The most bytes a line may have, its line feed included. -/
def maxLineBytes : Nat := 16384

/-- What a simulated gateway is set up with: the namespace it publishes the
registers under, and the user name and password it requires, if any. -/
structure Setup where
  namespaceUri : String := "urn:potline:lines"
  credentials : Option (String × String) := none
deriving DecidableEq, Repr

/-- Whether a `hello` with these credentials is accepted. -/
def Setup.admits (s : Setup) (user pass : Option String) : Bool :=
  match s.credentials with
  | none => true
  | some (u, p) => user == some u && pass == some p

/-- A connection's session: the id of its last accepted `hello`. -/
structure Session where
  id : Option String := none
deriving DecidableEq, Repr

/-- What serving one line gives: the response written back, if any, whether
the connection ends after it, the connection's session and the registers. -/
structure Turn where
  response : Option Response
  close : Bool
  session : Session
  table : Simulator

/-- Refuses a namespace index other than that of the registers. -/
def checkNamespace (ns : Nat) : Except (StatusCode × String) Unit :=
  if ns = linesNamespaceIndex then .ok ()
  else .error (.badNamespaceUnknown, "unknown namespace index " ++ toString ns)

/-- Reads a register by name. -/
def readRegister (t : Simulator) (id : String) : Except (StatusCode × String) Int :=
  match t.values.lookup id with
  | some v => .ok v
  | none => .error (.badNodeIdUnknown, "unknown node '" ++ id ++ "'")

/-- Writes a register by name at time `now`: `last_updated` is read-only, and
a write stamps it with `now`. -/
def writeRegister (t : Simulator) (now : Int) (id : String) (v : Int) :
    Except (StatusCode × String) Simulator :=
  if id = RegisterKey.lastUpdated.name then .error (.badNotWritable, "'" ++ id ++ "' is read-only")
  else if (t.values.lookup id).isSome then .ok ((t.set ⟨id⟩ v).set .lastUpdated now)
  else .error (.badNodeIdUnknown, "unknown node '" ++ id ++ "'")

/-- Serves one request of a connection at time `now`. -/
def respond (setup : Setup) (now : Int) (e : Envelope) (sess : Session) (t : Simulator) : Turn :=
  let seq := e.seq
  if sess.id.isNone && !e.request.isHello then
    ⟨some (.failure seq .badSessionNotActivated ("'" ++ e.request.name ++ "' before hello")),
      false, sess, t⟩
  else
    match e.request with
    | .hello sid _ _ _ user pass =>
      if setup.admits user pass then
        ⟨some (.ok seq), false, ⟨some sid⟩,
          if sess.id.isNone then { t with sessions := t.sessions + 1 } else t⟩
      else ⟨some (.failure seq .badUserAccessDenied "invalid user name or password"), true, sess, t⟩
    | .getNamespaceArray =>
      ⟨some (.withNamespaces seq [serverNamespace, "urn:potline:sim", setup.namespaceUri]),
        false, sess, t⟩
    | .read ns id =>
      match (checkNamespace ns).bind fun _ => readRegister t id with
      | .ok v => ⟨some (.withValue seq v), false, sess, t⟩
      | .error (c, m) => ⟨some (.failure seq c m), false, sess, t⟩
    | .write ns id v =>
      match (checkNamespace ns).bind fun _ => writeRegister t now id v with
      | .ok t' => ⟨some (.ok seq), false, sess, t'⟩
      | .error (c, m) => ⟨some (.failure seq c m), false, sess, t⟩
    | .close => ⟨some (.ok seq), true, sess, t⟩

/-- Serves one line of a connection: a blank line is skipped, a line that does
not read as an envelope is answered with a decoding failure. -/
def serveLine (setup : Setup) (now : Int) (line : String) (sess : Session) (t : Simulator) : Turn :=
  let trimmed := Text.trim line
  if trimmed.isEmpty then ⟨none, false, sess, t⟩
  else
    match Envelope.parse trimmed with
    | .ok e => respond setup now e sess t
    | .error err => ⟨some (.failure 0 .badDecodingError err.render), false, sess, t⟩

/-- Serves one piece of a connection's stream, a line as the framing cuts it:
a piece that is too long or no UTF-8 ends the connection unanswered. -/
def servePiece (setup : Setup) (now : Int) (piece : List UInt8) (sess : Session) (t : Simulator) :
    Turn :=
  match linesOf maxLineBytes [piece] with
  | ([line], none) => serveLine setup now line sess t
  | _ => ⟨none, true, sess, t⟩

/-- A client connection: the pieces of its stream not read yet, its session,
the responses written to it, and whether it is still served. -/
structure Connection where
  pending : List (List UInt8)
  session : Session := {}
  written : List Response := []
  live : Bool := true

/-- The gateway: the shared registers and session count, and the connections
in the order they came. -/
structure Server where
  table : Simulator := seeded
  conns : List Connection := []

/-- What happens next: a client connects and sends a stream, or the server
serves the next line of a connection at time `now`, or finds its stream
ended. -/
inductive Event where
  | accept (stream : List UInt8)
  | serve (conn : Nat) (now : Int)

namespace Server

/-- Ends connection `c`, last seen as `conn`, with the registers `t`: its
session, if it had one, is counted off. -/
def finish (s : Server) (c : Nat) (conn : Connection) (t : Simulator) : Server :=
  ⟨if conn.session.id.isSome then { t with sessions := t.sessions - 1 } else t,
    s.conns.set c { conn with live := false }⟩

/-- One event. Serving a connection that has ended, or none, does nothing. -/
def step (setup : Setup) (s : Server) : Event → Server
  | .accept stream => { s with conns := s.conns ++ [{ pending := pieces stream }] }
  | .serve c now =>
    match s.conns[c]? with
    | none => s
    | some conn =>
      if !conn.live then s
      else
        match conn.pending with
        | [] => s.finish c conn s.table
        | p :: ps =>
          let turn := servePiece setup now p conn.session s.table
          let conn' : Connection :=
            ⟨ps, turn.session, conn.written ++ turn.response.toList, conn.live⟩
          if turn.close then s.finish c conn' turn.table
          else ⟨turn.table, s.conns.set c conn'⟩

/-- The gateway after a sequence of events, from its seeded registers and no
connection. -/
def run (setup : Setup) (events : List Event) : Server := events.foldl (step setup) ({} : Server)

end Server

end Simulator

end LotBridge
