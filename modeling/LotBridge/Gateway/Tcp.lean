import LotBridge.Gateway.Network
import LotBridge.Simulator.Serve

/-!
# A gateway reached over TCP

The bridge reaches a gateway over a TCP connection with one request in flight
at a time. Each request travels as an envelope line under the connection's
next sequence number, and the gateway answers it with one response line. The
gateway at the other end here is a simulated one: what the client writes joins
the stream the server has yet to read, the server serves it, and the client
reads back the responses the server wrote, a line at a time.

Connecting reads the endpoint, opens a connection and says `hello` with the
session's id, the watchdog interval, the security names and the credentials;
a `hello` that fails fails the connection. A request (`Tcp.exchange`) takes
the next sequence number, sends its line and reads one line back. It fails
when no line comes, when the line does not read, when the response carries
another sequence number, and when the response reports a failure, in that
order (`Tcp.check`). Closing says `close` and shuts the connection down; a
client that lets go of its connection without closing it only shuts it down.
Either way the server finds the stream ended.

Session ids are random in practice; here the `n`-th connection's is `ids n`.

## Main definitions

* `Simulator.Server.deliver`: bytes arriving on a connection.
* `Tcp.Link`: a client and the simulated gateway it talks to.
* `Tcp.check`, `Tcp.receive`, `Tcp.exchange`: one request and its response.
* `Tcp.gateway`: the requests of a gateway reached over TCP.
-/

namespace LotBridge

open Wire

/-- Bytes a client sends on connection `c` join the pieces the server has yet
to read. -/
def Simulator.Server.deliver (s : Simulator.Server) (c : Nat) (bytes : List UInt8) :
    Simulator.Server :=
  { s with conns := s.conns.modify c fun conn => { conn with pending := conn.pending ++ pieces bytes } }

namespace Tcp

/-- A client and the simulated gateway at the other end of its connections. -/
structure Link where
  server : Simulator.Server := {}
  /-- The connection the client holds, by its place among the server's. -/
  conn : Option Nat := none
  /-- The responses on the held connection the client has read. -/
  seen : Nat := 0
  /-- The sequence number of the next request. -/
  nextSeq : Nat := 1
  /-- How long the client waits for a response, in milliseconds. -/
  timeoutMs : Nat := 5000
  /-- The connections opened so far. -/
  opened : Nat := 0
  /-- The time at which the server serves. -/
  now : Int := 0

/-- The `hello` that opens a session with id `sid`. -/
def hello (cfg : Config.Connection) (sid : String) : Wire.Request :=
  .hello sid cfg.watchdogIntervalMs cfg.security.policy.name cfg.security.mode.name
    cfg.security.username cfg.security.password

/-- The client's checks on the response to request `seq`, after `node`: its
sequence number, then its success. -/
def check (node : String) (seq : Nat) (resp : Response) : Except Failure Response :=
  if resp.seq ≠ seq then
    .error (.operation node
      ("response out of sequence (expected " ++ toString seq ++ ", got " ++ toString resp.seq ++ ")"))
  else if !resp.success then .error (.operation node resp.errorText)
  else .ok resp

/-- The response lines of a connection the client has not read, as the bytes
it receives them in. -/
def unread (l : Link) (conn : Simulator.Connection) : List (List UInt8) :=
  (conn.written.drop l.seen).map fun r => Text.encodeUtf8 r.encodeLine

/-- Reads the response to request `seq`, of kind `op`, after `node`, from
connection `conn` as the server left it. With no line to read, the client
waits out its timeout on a live connection, and finds the stream ended
otherwise. -/
def receive (op node : String) (seq : Nat) (conn : Simulator.Connection) (l : Link) :
    Except Failure Response × Link :=
  match (readLineFrom Simulator.maxLineBytes [] (unread l conn)).1 with
  | .error e => (.error (.operation node ("read failed: " ++ e.message)), { l with seen := l.seen + 1 })
  | .ok none =>
    if conn.live then (.error (.timeout (op ++ " on " ++ node) l.timeoutMs), l)
    else (.error (.operation node "connection closed by remote"), l)
  | .ok (some line) =>
    let l := { l with seen := l.seen + 1 }
    match Response.parse line with
    | .error e => (.error (.operation node ("invalid response: " ++ e.render)), l)
    | .ok resp => (check node seq resp, l)

section Requests

variable (setup : Simulator.Setup)

/-- Sends request `r` about `node` on the held connection, under the next
sequence number, lets the server serve it, and reads the response. -/
def exchange (r : Wire.Request) (node : String) (l : Link) : Except Failure Response × Link :=
  match l.conn with
  | none => (.error (.operation node "connection closed by remote"), l)
  | some c =>
    let seq := l.nextSeq
    let server := (l.server.deliver c (Text.encodeUtf8 (Envelope.encodeLine ⟨seq, r⟩))).step setup
      (.serve c l.now)
    let l := { l with server, nextSeq := seq + 1 }
    match server.conns[c]? with
    | none => (.error (.operation node "connection closed by remote"), l)
    | some conn => receive r.name node seq conn l

/-- The client lets go of its connection: the server finds the stream ended. -/
def drop (l : Link) : Link :=
  match l.conn with
  | none => l
  | some c => { l with server := l.server.step setup (.serve c l.now), conn := none }

/-- Opens a connection for settings `cfg` and says `hello` on it. -/
def connect (ids : Nat → String) (cfg : Config.Connection) (l : Link) : Reply Unit × Link :=
  match Endpoint.parse cfg.endpoint with
  | .error e => (.answer (.error (.connection cfg.endpoint e.message)), l)
  | .ok ep =>
    if ep.host.toList.contains (Char.ofNat 0) then (.answer (.error (.connection ep.render nulInHost)), l)
    else
      let sid := ids l.opened
      -- the new connection comes after those the server has
      let c := l.server.conns.length
      let l := { l with server := l.server.step setup (.accept []), conn := some c, seen := 0,
                        nextSeq := 1, timeoutMs := cfg.requestTimeoutMs, opened := l.opened + 1 }
      match exchange setup (hello cfg sid) "session" l with
      | (.ok _, l) => (.answer (.ok ()), l)
      | (.error e, l) =>
        (.answer (.error (.connection ep.render ("handshake failed: " ++ e.message))), drop setup l)

/-- Asks for the namespaces the gateway publishes. -/
def namespaces (l : Link) : Except Failure (List String) × Link :=
  match exchange setup .getNamespaceArray "namespace array" l with
  | (.error e, l) => (.error e, l)
  | (.ok resp, l) =>
    match resp.namespaces with
    | some ns => (.ok ns, l)
    | none => (.error (.operation "namespace array" "missing namespaces"), l)

/-- Reads a register. -/
def read (a : Address) (l : Link) : Reply Int × Link :=
  match exchange setup (.read a.namespaceIndex a.key.name) a.render l with
  | (.error e, l) => (.answer (.error e), l)
  | (.ok resp, l) =>
    match resp.value with
    | some v => (.answer (.ok v), l)
    | none => (.answer (.error (.operation a.render "read returned no value")), l)

/-- Writes a register. -/
def write (a : Address) (v : Int) (l : Link) : Reply Unit × Link :=
  let (r, l) := exchange setup (.write a.namespaceIndex a.key.name v) a.render l
  (.answer (r.map fun _ => ()), l)

/-- Says `close`, then shuts the connection down, whatever the answer. -/
def close (l : Link) : Except Failure Unit × Link :=
  let (r, l) := exchange setup .close "session" l
  (r.map fun _ => (), drop setup l)

/-- The requests of a gateway reached over TCP, a simulated one set up as
`setup` at the other end, with session ids `ids`. -/
def gateway (ids : Nat → String) : Gateway Link where
  connect := connect setup ids
  namespaces := namespaces setup
  read := read setup
  write := write setup
  close := close setup
  release := drop setup

end Requests

end Tcp

end LotBridge
