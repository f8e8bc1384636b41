import LotBridge.Text.Blank
import LotBridge.Text.Unsigned

/-!
# Gateway endpoints

An endpoint names the host and port of a gateway, written as
`opc.tcp://host:port`. Reading one is lenient: blanks around it are
dropped, the scheme `opc.tcp://` or `tcp://` may be left out, everything from
the first `/` after the authority on is ignored, and a missing port is
`4840`. A host with colons must be bracketed (`[::1]:4840`); any other
scheme, an empty host and a port outside `1 ..= 65535` are refused.

The address a connection uses is `host:port`, with the host bracketed again
when it holds a colon.

## Main definitions

* `Endpoint`, `EndpointError`.
* `Endpoint.parse`, `Endpoint.connectAddr`, `Endpoint.render`.
-/

namespace LotBridge

open LotBridge.Text

/-- A gateway's host and port. -/
structure Endpoint where
  host : String
  port : Nat
deriving DecidableEq, Repr

/-- Why a text is no endpoint. -/
inductive EndpointError where
  | empty
  | unsupportedScheme (url : String)
  | missingBracket
  | hostEmpty
  | junkAfterBracket
  | unbracketedColons
  | badPort (text : String)
  | zeroPort
deriving DecidableEq, Repr

/-- The wording of a refused endpoint. -/
def EndpointError.message : EndpointError → String
  | .empty => "endpoint url is empty"
  | .unsupportedScheme url => "unsupported endpoint scheme in '" ++ url ++ "'"
  | .missingBracket => "invalid endpoint: missing closing ']' for IPv6 host"
  | .hostEmpty => "invalid endpoint: host is empty"
  | .junkAfterBracket => "invalid endpoint: expected ':<port>' after ']'"
  | .unbracketedColons => "invalid endpoint: IPv6 host must be bracketed like [::1]:4840"
  | .badPort t => "invalid endpoint port: '" ++ t ++ "'"
  | .zeroPort => "invalid endpoint port: 0"

namespace Endpoint

/-- The port of an endpoint that names none. -/
def defaultPort : Nat := 4840

/-- The address a connection uses: `host:port`, the host bracketed when it
holds a colon and is not bracketed yet. -/
def connectAddr (e : Endpoint) : String :=
  if e.host.toList.contains ':' && !(e.host.toList.head? == some '[') then
    "[" ++ e.host ++ "]:" ++ toString e.port
  else e.host ++ ":" ++ toString e.port

/-- The endpoint as a URL with its scheme. -/
def render (e : Endpoint) : String := "opc.tcp://" ++ e.connectAddr

/-- The rest of a character list after a prefix, if it starts with it. -/
def dropPrefix? : List Char → List Char → Option (List Char)
  | [], s => some s
  | _ :: _, [] => none
  | p :: ps, c :: cs => if p = c then dropPrefix? ps cs else none

/-- Whether a character list holds another one as a contiguous part. -/
def hasInfix (needle : List Char) : List Char → Bool
  | [] => needle.isEmpty
  | c :: cs => (dropPrefix? needle (c :: cs)).isSome || hasInfix needle cs

/-- Splits at the first occurrence of a character, dropping it. -/
def splitAtFirst (sep : Char) : List Char → Option (List Char × List Char)
  | [] => none
  | c :: cs =>
    if c = sep then some ([], cs)
    else (splitAtFirst sep cs).map fun (a, b) => (c :: a, b)

/-- A port: an unsigned 16-bit number other than zero. -/
def parsePort (cs : List Char) : Except EndpointError Nat :=
  match readUnsigned 65536 (String.ofList cs) with
  | .error _ => .error (.badPort (String.ofList cs))
  | .ok 0 => .error .zeroPort
  | .ok p => .ok p

/-- The host and port of an authority: bracketed, with one colon, or a bare
host. -/
def parseAuthority : List Char → Except EndpointError Endpoint
  | '[' :: rest =>
    match splitAtFirst ']' rest with
    | none => .error .missingBracket
    | some (host, after) =>
      if host.isEmpty then .error .hostEmpty
      else
        match after with
        | [] => .ok ⟨String.ofList host, defaultPort⟩
        | ':' :: p => (parsePort p).map (⟨String.ofList host, ·⟩)
        | _ => .error .junkAfterBracket
  | cs =>
    if cs.contains ':' then
      if cs.count ':' > 1 then .error .unbracketedColons
      else
        match splitAtFirst ':' cs with
        | none => .error .unbracketedColons
        | some (host, p) =>
          if host.isEmpty then .error .hostEmpty
          else (parsePort p).map (⟨String.ofList host, ·⟩)
    else if cs.isEmpty then .error .hostEmpty
    else .ok ⟨String.ofList cs, defaultPort⟩

/-- Reads an endpoint URL. -/
def parse (url : String) : Except EndpointError Endpoint :=
  let t := trimList url.toList
  if t.isEmpty then .error .empty
  else
    let rest := ((dropPrefix? "opc.tcp://".toList t).orElse fun _ => dropPrefix? "tcp://".toList t).getD t
    if hasInfix "://".toList rest then .error (.unsupportedScheme (String.ofList t))
    else parseAuthority (rest.takeWhile (· ≠ '/'))

theorem parse_empty : parse "" = .error .empty := by
  rfl

end Endpoint

end LotBridge
