import LotBridge.Wire.Request
import LotBridge.Json.Writer
import LotBridge.Text.Blank

/-!
# Request envelopes

On the wire every request travels in an envelope: one JSON object on one
line, holding the sequence number `seq` beside the request's own members. A
line is read after dropping blanks at its end. The sequence number is read
first; the request is then read from the other members, and its refusals
stand at the end of the object.

## Main definitions

* `Envelope`, `Envelope.toJson`, `Envelope.encodeLine`.
* `Envelope.decoder`, `Envelope.parse`.
-/

namespace LotBridge.Wire

open LotBridge.Json

/-- A request with its sequence number. -/
structure Envelope where
  seq : Nat
  request : Request
deriving DecidableEq, Repr, Inhabited

namespace Envelope

/-- The record form: `seq`, then the request's members. -/
def toJson (e : Envelope) : Json := .object (("seq", Json.nat e.seq) :: e.request.toMembers)

/-- The line of an envelope, with its line break. -/
def encodeLine (e : Envelope) : String := Json.render e.toJson ++ "\n"

/-- The members of the record form besides the request's. -/
def fields : List (Json.Field (Option Nat)) :=
  [Json.Field.of "seq" (Decoder.uint 64 "u64") fun v _ => some v]

/-- Reads an envelope: `seq` is required, and the request is read from the
other members. -/
def decoder : Decoder Envelope :=
  decodeStruct "GatewayEnvelope" fields none (fun s _ left => do
    let seq ← required "seq" s
    let members := left.map fun (k, v) => (some (⟨.ok k, Pos.none, Pos.none⟩ : Key), v)
    let request ← (← Request.ofMembers .value true members)
    pure ⟨seq, request⟩) true 1

/-- Reads an envelope from a line, ignoring blanks at its end. -/
def parse (line : String) : Decoded Envelope := decodeText decoder (Text.trimEnd line)

end Envelope

end LotBridge.Wire
