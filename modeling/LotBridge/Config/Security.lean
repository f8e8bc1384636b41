import LotBridge.Json.Decode
import LotBridge.Json.Writer
import LotBridge.Toml.Value

/-!
# Transport security settings

How a connection to a gateway is secured: a security policy, a message mode,
the client certificate and its private key, and an optional user identity.

The settings hang together when:

* a mode other than `None` comes with a policy other than `None`, and the
  other way round;
* with a mode, the certificate and then the private key are given and exist;
* a password comes with a user name.

The first of these that fails is the refusal.

## Main definitions

* `Policy`, `Mode`, `Security`.
* `SecurityProblem`, `Security.check`.
* `Security.decoder`, `Security.toJson`, `Security.toToml`.
-/

namespace LotBridge.Config

open LotBridge.Json

/-- The security policy negotiated with a gateway. -/
inductive Policy where
  | none
  | basic256Sha256
deriving DecidableEq, Repr

/-- The security mode of messages. -/
inductive Mode where
  | none
  | sign
  | signAndEncrypt
deriving DecidableEq, Repr

/-- The names of the policies. -/
def Policy.names : List (String × Policy) := [("None", .none), ("Basic256Sha256", .basic256Sha256)]

/-- The names of the modes. -/
def Mode.names : List (String × Mode) :=
  [("None", .none), ("Sign", .sign), ("SignAndEncrypt", .signAndEncrypt)]

/-- The name of a policy. -/
def Policy.name : Policy → String
  | .none => "None"
  | .basic256Sha256 => "Basic256Sha256"

/-- The name of a mode. -/
def Mode.name : Mode → String
  | .none => "None"
  | .sign => "Sign"
  | .signAndEncrypt => "SignAndEncrypt"

/-- Transport security and identity; nothing is secured by default. -/
structure Security where
  policy : Policy := .none
  mode : Mode := .none
  certificate : Option String := none
  privateKey : Option String := none
  username : Option String := none
  password : Option String := none
deriving DecidableEq, Repr

/-- What makes security settings inconsistent. -/
inductive SecurityProblem where
  | modeWithoutPolicy (mode : Mode)
  | policyWithoutMode
  | missingFile (name : String) (mode : Mode)
  | absentFile (name path : String)
  | passwordWithoutUser
deriving DecidableEq, Repr

/-- The wording of a security problem, naming the key at fault. -/
def SecurityProblem.message : SecurityProblem → String
  | .modeWithoutPolicy m =>
    "[connection.security].mode = \"" ++ m.name ++ "\" requires a policy other than None"
  | .policyWithoutMode => "[connection.security].policy requires mode Sign or SignAndEncrypt"
  | .missingFile n m => "[connection.security]." ++ n ++ " is required when mode is " ++ m.name
  | .absentFile n p => "[connection.security]." ++ n ++ " '" ++ p ++ "' does not exist"
  | .passwordWithoutUser => "[connection.security].password is set without a username"

namespace Security

/-- The first problem of the key files under a mode, certificate first. -/
def fileProblem (present : String → Bool) (mode : Mode) :
    List (String × Option String) → Option SecurityProblem
  | [] => none
  | (name, none) :: _ => some (.missingFile name mode)
  | (name, some path) :: rest =>
    if present path then fileProblem present mode rest else some (.absentFile name path)

/-- A password needs a user name. -/
def identityProblem (s : Security) : Option SecurityProblem :=
  if s.password.isSome && s.username.isNone then some .passwordWithoutUser else none

/-- The first problem of security settings, given which paths exist. -/
def check (s : Security) (present : String → Bool) : Option SecurityProblem :=
  match s.policy, s.mode with
  | .none, .none => s.identityProblem
  | .none, m => some (.modeWithoutPolicy m)
  | _, .none => some .policyWithoutMode
  | _, m =>
    match fileProblem present m [("certificate", s.certificate), ("private_key", s.privateKey)] with
    | some p => some p
    | none => s.identityProblem

/-- The record form, fields in declaration order; absent ones are `null`. -/
def toJson (s : Security) : Json :=
  let opt (o : Option String) : Json := (o.map Json.string).getD .null
  .object [("policy", .string s.policy.name), ("mode", .string s.mode.name),
    ("certificate", opt s.certificate), ("private_key", opt s.privateKey),
    ("username", opt s.username), ("password", opt s.password)]

/-- The TOML table of the settings; absent ones are left out. -/
def toToml (s : Security) : Toml.Value :=
  let opt (k : String) (o : Option String) : List (String × Toml.Value) :=
    (o.map fun v => (k, Toml.Value.string v)).toList
  .table ([("policy", .string s.policy.name), ("mode", .string s.mode.name)] ++
    opt "certificate" s.certificate ++ opt "private_key" s.privateKey ++
    opt "username" s.username ++ opt "password" s.password)

/-- A file path, written as a string. -/
def path : Decoder String := fun src n =>
  match n with
  | .string (.ok s) _ _ => .ok s
  | _ => typeError src n "path string"

/-- The members of the record form. -/
def fields : List (Json.Field Security) :=
  [Json.Field.of "policy" (Decoder.unitEnum Policy.names) fun v s => { s with policy := v },
   Json.Field.of "mode" (Decoder.unitEnum Mode.names) fun v s => { s with mode := v },
   Json.Field.of "certificate" (Decoder.option path) fun v s => { s with certificate := v },
   Json.Field.of "private_key" (Decoder.option path) fun v s => { s with privateKey := v },
   Json.Field.of "username" (Decoder.option Decoder.string) fun v s => { s with username := v },
   Json.Field.of "password" (Decoder.option Decoder.string) fun v s => { s with password := v }]

/-- Reads security settings: every member optional, unknown members skipped. -/
def decoder : Decoder Security :=
  decodeStruct "SecurityConfig" fields {} (fun s _ _ => .ok s) false 0

end Security

theorem Security.check_default (present : String → Bool) :
    Security.check {} present = none := by
  simp [Security.check, Security.identityProblem]

end LotBridge.Config
