import LotBridge.Json.Decode
import LotBridge.Json.Writer
import LotBridge.Text.Blank

/-!
# Gateway responses

A gateway answers each request with a response carrying the request's
sequence number and whether it succeeded. A success may carry the namespace
list or a register value; a failure carries a status code and a message.
Members left out when absent, as well as `null`, read as absent.

## Main definitions

* `StatusCode`, `Response`, `Response.errorText`.
* `Response.toJson`, `Response.decoder`, `Response.parse`.
-/

namespace LotBridge.Wire

open LotBridge.Json

/-- Why a gateway refused a request. -/
inductive StatusCode where
  | badDecodingError
  | badSessionNotActivated
  | badUserAccessDenied
  | badNamespaceUnknown
  | badNodeIdUnknown
  | badNotWritable
  | badInternalError
deriving DecidableEq, Repr

/-- The wire names of the status codes, in declaration order. -/
def StatusCode.names : List (String × StatusCode) :=
  [("BadDecodingError", .badDecodingError), ("BadSessionNotActivated", .badSessionNotActivated),
   ("BadUserAccessDenied", .badUserAccessDenied), ("BadNamespaceUnknown", .badNamespaceUnknown),
   ("BadNodeIdUnknown", .badNodeIdUnknown), ("BadNotWritable", .badNotWritable),
   ("BadInternalError", .badInternalError)]

/-- The wire name of a status code. -/
def StatusCode.name : StatusCode → String
  | .badDecodingError => "BadDecodingError"
  | .badSessionNotActivated => "BadSessionNotActivated"
  | .badUserAccessDenied => "BadUserAccessDenied"
  | .badNamespaceUnknown => "BadNamespaceUnknown"
  | .badNodeIdUnknown => "BadNodeIdUnknown"
  | .badNotWritable => "BadNotWritable"
  | .badInternalError => "BadInternalError"

/-- A gateway's answer to the request with sequence number `seq`. -/
structure Response where
  seq : Nat
  success : Bool
  namespaces : Option (List String) := none
  value : Option Int := none
  code : Option StatusCode := none
  error : Option String := none
deriving DecidableEq, Repr, Inhabited

namespace Response

/-- A plain success. -/
def ok (seq : Nat) : Response := ⟨seq, true, none, none, none, none⟩

/-- A success carrying the namespace list. -/
def withNamespaces (seq : Nat) (ns : List String) : Response := { ok seq with namespaces := some ns }

/-- A success carrying a register value. -/
def withValue (seq : Nat) (v : Int) : Response := { ok seq with value := some v }

/-- A failure with its code and message. -/
def failure (seq : Nat) (code : StatusCode) (msg : String) : Response :=
  ⟨seq, false, none, none, some code, some msg⟩

/-- The text of a failure: code and message, either alone, or a stock text. -/
def errorText (r : Response) : String :=
  match r.code, r.error with
  | some c, some m => c.name ++ ": " ++ m
  | some c, none => c.name
  | none, some m => m
  | none, none => "gateway error"

/-- The record form: fields in declaration order, absent ones left out. -/
def toJson (r : Response) : Json :=
  let opt (k : String) : Option Json → List (String × Json)
    | some j => [(k, j)]
    | none => []
  .object ([("seq", Json.nat r.seq), ("success", .bool r.success)] ++
    opt "namespaces" (r.namespaces.map fun ns => .array (ns.map .string)) ++
    opt "value" (r.value.map Json.int) ++
    opt "code" (r.code.map (.string ·.name)) ++
    opt "error" (r.error.map .string))

/-- The line of a response, with its line break. -/
def encodeLine (r : Response) : String := Json.render r.toJson ++ "\n"

/-- A response under construction. -/
structure Fields where
  seq : Option Nat := none
  success : Option Bool := none
  namespaces : Option (List String) := none
  value : Option Int := none
  code : Option StatusCode := none
  error : Option String := none

/-- The members of the record form. -/
def fields : List (Json.Field Fields) :=
  [Json.Field.of "seq" (Decoder.uint 64 "u64") fun v s => { s with seq := some v },
   Json.Field.of "success" Decoder.bool fun v s => { s with success := some v },
   Json.Field.of "namespaces" (Decoder.option (Decoder.list Decoder.string))
     fun v s => { s with namespaces := v },
   Json.Field.of "value" (Decoder.option Decoder.int64) fun v s => { s with value := v },
   Json.Field.of "code" (Decoder.option (Decoder.unitEnum StatusCode.names)) fun v s => { s with code := v },
   Json.Field.of "error" (Decoder.option Decoder.string) fun v s => { s with error := v }]

/-- Reads a response: `seq` and `success` are required. -/
def decoder : Decoder Response :=
  decodeStruct "GatewayResponse" fields {} (fun f _ _ => do
    let seq ← required "seq" f.seq
    let success ← required "success" f.success
    pure ⟨seq, success, f.namespaces, f.value, f.code, f.error⟩) false 2

/-- Reads a response from a line, ignoring blanks at its end, as a client
reads the answer to its request. -/
def parse (line : String) : Decoded Response := decodeText decoder (Text.trimEnd line)

theorem errorText_failure (seq : Nat) (c : StatusCode) (m : String) :
    (failure seq c m).errorText = c.name ++ ": " ++ m := rfl

end Response

end LotBridge.Wire
