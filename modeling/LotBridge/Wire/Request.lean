import LotBridge.Json.Decode

/-!
# Gateway requests

What the bridge asks a gateway: to open a session, to list its namespaces, to
read or write a register, and to close. On the wire a request is an object
whose `op` member names it and whose other members are its fields.

A request is read in two phases. The first goes through the object's members:
it decodes `op`, refuses a second one, and keeps the other members, read
strictly, in their order. The second decodes the fields of the named request
from the members kept; members it does not know are ignored. Refusals of the
second phase carry no place of their own.

## Main definitions

* `Request`, `Request.name`, `Request.toMembers`.
* `Request.ofMembers`: a request from the members of an object.
* `Request.decoder`: a request read from a whole value.
-/

namespace LotBridge.Wire

open LotBridge.Json

/-- A request to a gateway. -/
inductive Request where
  | hello (sessionId : String) (watchdogMs : Nat) (securityPolicy securityMode : String)
      (username password : Option String)
  | getNamespaceArray
  | read (ns : Nat) (id : String)
  | write (ns : Nat) (id : String) (value : Int)
  | close
deriving DecidableEq, Repr, Inhabited

namespace Request

/-- The kinds of request, by their wire names, in declaration order. -/
inductive Op where
  | hello
  | getNamespaceArray
  | read
  | write
  | close
deriving DecidableEq, Repr

/-- The wire names of the kinds. -/
def Op.names : List (String × Op) :=
  [("hello", .hello), ("get_namespace_array", .getNamespaceArray), ("read", .read),
   ("write", .write), ("close", .close)]

/-- The wire name of a request. -/
def name : Request → String
  | .hello .. => "hello"
  | .getNamespaceArray => "get_namespace_array"
  | .read .. => "read"
  | .write .. => "write"
  | .close => "close"

/-- The members of a request: `op` first, then the fields in order; absent
credentials are left out. -/
def toMembers (r : Request) : List (String × Json) :=
  let fields : List (String × Json) := match r with
    | .hello s w p m u pw =>
      [("session_id", .string s), ("watchdog_ms", Json.nat w), ("security_policy", .string p),
        ("security_mode", .string m)] ++
      (u.map fun v => [("username", Json.string v)]).getD [] ++
      (pw.map fun v => [("password", Json.string v)]).getD []
    | .getNamespaceArray | .close => []
    | .read ns id => [("ns", Json.nat ns), ("id", .string id)]
    | .write ns id v => [("ns", Json.nat ns), ("id", .string id), ("value", Json.int v)]
  ("op", .string r.name) :: fields

/-- Decodes the kind of request. Text and values name it; members kept from a
text may also give its index. -/
def opDecoder (byIndex : Bool) : Decoder Op := fun src n =>
  let names := Op.names.map (·.1)
  match n, byIndex with
  | .string (.ok s) _ _, _ =>
    match Decoder.variant? Op.names s with
    | some op => .ok op
    | none => .error ⟨"unknown variant `" ++ s ++ "`, expected " ++ oneOf names, Site.of? n.finishSite⟩
  | .number (.ok (.natural i)) _ _, true =>
    match (Op.names.map (·.2))[i.toNat]? with
    | some op => .ok op
    | none => valueError src n (.unsigned i.toNat) "variant index 0 <= i < 5"
  | _, _ => typeError src n "variant identifier"

/-- The first phase: the kind of request and the other members, kept without
places. -/
def splitOp (src : Source) (byIndex : Bool) :
    List (Option Key × Node) → Option Op → Leftovers → Decoded (Option Op × Leftovers)
  | [], op, kept => .ok (op, kept)
  | (none, b) :: _, _, _ => .error ((b.strictFault.map Located.refusal).getD ⟨"", none⟩)
  | (some ⟨.error l, _, _⟩, _) :: _, _, _ => .error l.refusal
  | (some ⟨.ok k, _, colon⟩, v) :: rest, op, kept =>
    if k = "op" then
      match op with
      | some _ => .error ⟨"duplicate field `op`", Site.at? colon⟩
      | none =>
        match placeAt v.finishSite (opDecoder byIndex src v) with
        | .error e => .error e
        | .ok o => splitOp src byIndex rest (some o) kept
    else
      match v.strictFault with
      | some l => .error l.refusal
      | none => splitOp src byIndex rest op (kept ++ [(k, v.forget)])

/-- The fields of a request under construction. -/
structure Fields where
  sessionId : Option String := none
  watchdogMs : Option Nat := none
  securityPolicy : Option String := none
  securityMode : Option String := none
  username : Option String := none
  password : Option String := none
  ns : Option Nat := none
  id : Option String := none
  value : Option Int := none

/-- The members of the kinds that have fields. -/
def fieldsOf : Op → List (Json.Field Fields)
  | .hello =>
    [Json.Field.of "session_id" Decoder.string fun v s => { s with sessionId := some v },
     Json.Field.of "watchdog_ms" (Decoder.uint 64 "u64") fun v s => { s with watchdogMs := some v },
     Json.Field.of "security_policy" Decoder.string fun v s => { s with securityPolicy := some v },
     Json.Field.of "security_mode" Decoder.string fun v s => { s with securityMode := some v },
     Json.Field.of "username" (Decoder.option Decoder.string) fun v s => { s with username := v },
     Json.Field.of "password" (Decoder.option Decoder.string) fun v s => { s with password := v }]
  | .read =>
    [Json.Field.of "ns" (Decoder.uint 16 "u16") fun v s => { s with ns := some v },
     Json.Field.of "id" Decoder.string fun v s => { s with id := some v }]
  | .write =>
    [Json.Field.of "ns" (Decoder.uint 16 "u16") fun v s => { s with ns := some v },
     Json.Field.of "id" Decoder.string fun v s => { s with id := some v },
     Json.Field.of "value" Decoder.int64 fun v s => { s with value := some v }]
  | .getNamespaceArray | .close => []

/-- Builds a request of a kind from its fields, naming the first one missing. -/
def build : Op → Fields → Decoded Request
  | .hello, f => do
    let s ← required "session_id" f.sessionId
    let w ← required "watchdog_ms" f.watchdogMs
    let p ← required "security_policy" f.securityPolicy
    let m ← required "security_mode" f.securityMode
    pure (.hello s w p m f.username f.password)
  | .read, f => do
    let ns ← required "ns" f.ns
    let id ← required "id" f.id
    pure (.read ns id)
  | .write, f => do
    let ns ← required "ns" f.ns
    let id ← required "id" f.id
    let v ← required "value" f.value
    pure (.write ns id v)
  | .getNamespaceArray, _ => .ok .getNamespaceArray
  | .close, _ => .ok .close

/-- The second phase: a request of a kind from the members kept. -/
def ofKept (op : Op) (kept : Leftovers) : Decoded Request :=
  let members := kept.map fun (k, v) => (some (⟨.ok k, Pos.none, Pos.none⟩ : Key), v)
  decodeStruct "GatewayRequest" (fieldsOf op) {} (fun f _ _ => build op f) false
    (fieldsOf op).length .value (.object Pos.none members (some Pos.none))

/-- A request from the members of an object; `byIndex` lets the kind be given
by its index. -/
def ofMembers (src : Source) (byIndex : Bool) (members : List (Option Key × Node)) :
    Decoded (Decoded Request) := do
  let (op, kept) ← splitOp src byIndex members none []
  let op ← required "op" op
  pure (ofKept op kept)

/-- Reads a request from a whole value. The refusals of the first phase stand
at the end of the object; those of the second have no place. -/
def decoder : Decoder Request := fun src n =>
  match n with
  | .object _ members _ =>
    match placeAt n.finishSite (ofMembers src false members) with
    | .error e => .error e
    | .ok r => r
  | _ => typeError src n "internally tagged enum GatewayRequest"

end Request

end LotBridge.Wire
