import LotBridge.Json.Reader
import LotBridge.Json.Writer

/-!
# Decoding located values into records

A decoder reads a located `Node` into a typed value and reports a refusal in
the words of the data format. Three sources feed decoders:

* `text`: JSON text, whose faults carry the place where a streaming reader
  stands when it gives up;
* `value`: JSON values and buffered members, which have no places;
* `config`: configuration documents, whose faults point at a value's span.

The sources differ in wording (`null` against `unit value`, how floats are
shown) and in how an enumeration may be written. A decoder that refuses a
value without reading it (an array or object in place of a number) stands at
the value's start; otherwise at its finish.

## Main definitions

* `DecodeError`, `Decoder`: refusals and decoders.
* `Decoder.uint`, `Decoder.int64`, `Decoder.bool`, `Decoder.string`,
  `Decoder.option`, `Decoder.list`, `Decoder.unitEnum`: the scalar decoders.
* `decodeStruct`: a record read member by member, with duplicate and
  missing member checks and an optional buffer for the remaining members.
* `Node.toJson`, `Json.parse`: reading a whole value.
-/

namespace LotBridge.Json

/-- The sources of decoded values. -/
inductive Source where
  | text
  | value
  | config
deriving DecidableEq, Repr

/-- What a decoder met in place of what it expected. -/
inductive Unexpected where
  | bool (b : Bool)
  | unsigned (n : Nat)
  | signed (n : Int)
  | float (f : Float)
  | str (s : String)
  | unit
  | seq
  | map

/-- The hex digits of a number, lower case, without leading zeros. -/
def hexText (n : Nat) : String :=
  String.ofList ((Nat.toDigits 16 n))

/-- The quoted, escaped form of a string in diagnostics: quote, backslash
and the usual control characters get short escapes, other control characters
become `\u{..}`, and everything else stays. -/
def debugQuote (s : String) : String :=
  let esc (c : Char) : List Char :=
    if c = '"' then ['\\', '"']
    else if c = '\\' then ['\\', '\\']
    else if c = '\n' then ['\\', 'n']
    else if c = '\r' then ['\\', 'r']
    else if c = '\t' then ['\\', 't']
    else if c.toNat = 0 then ['\\', '0']
    else if c.toNat < 32 ∨ (127 ≤ c.toNat ∧ c.toNat < 160) then
      ['\\', 'u', '\x7b'] ++ (hexText c.toNat).toList ++ ['\x7d']
    else [c]
  String.ofList ('"' :: (s.toList.flatMap esc ++ ['"']))

/-- How a source words an unexpected value. -/
def Unexpected.describe (src : Source) : Unexpected → String
  | .bool b => "boolean `" ++ toString b ++ "`"
  | .unsigned n => "integer `" ++ toString n ++ "`"
  | .signed n => "integer `" ++ toString n ++ "`"
  | .float f =>
    let shown := match src with
      | .config => Decimal.Layout.plain.format f
      | _ => Decimal.Layout.json.format f
    "floating point `" ++ shown ++ "`"
  | .str s => "string " ++ debugQuote s
  | .unit => match src with
    | .config => "unit value"
    | _ => "null"
  | .seq => "sequence"
  | .map => "map"

/-- The list of names a refusal offers: one, two joined by `or`, or many. -/
def oneOf : List String → String
  | [] => "nothing"
  | [a] => "`" ++ a ++ "`"
  | [a, b] => "`" ++ a ++ "` or `" ++ b ++ "`"
  | names => "one of " ++ ", ".intercalate (names.map fun n => "`" ++ n ++ "`")

/-- Where a refusal lies: the value's start and finish, and whether a streaming
reader stands at the start. -/
structure Site where
  start : Pos
  finish : Pos
  atStart : Bool
deriving DecidableEq, Repr

/-- A refusal: its message, and its site once known. -/
structure DecodeError where
  message : String
  site : Option Site
deriving Repr

/-- The point a streaming reader reports for a site. -/
def Site.point (s : Site) : Pos := if s.atStart then s.start else s.finish

/-- The message with its place, as a JSON reader writes it; values that came
from no text have no place. -/
def DecodeError.render (e : DecodeError) : String :=
  match e.site with
  | some s =>
    let p := s.point
    if p.line = 0 then e.message
    else e.message ++ " at line " ++ toString p.line ++ " column " ++ toString p.column
  | none => e.message

/-- A result of decoding. -/
abbrev Decoded (α : Type) := Except DecodeError α

/-- A decoder reads a located node of a given source. -/
abbrev Decoder (α : Type) := Source → Node → Decoded α

/-- A refusal whose site is not known yet. -/
def refuse {α : Type} (message : String) : Decoded α := .error ⟨message, none⟩

/-- A site, if it lies in a text: values that came from no text have none. -/
def Site.of? (s : Site) : Option Site := if s.start.line = 0 then none else some s

/-- The site of a point of the text. -/
def Site.at? (p : Pos) : Option Site := Site.of? ⟨p, p, true⟩

/-- Places a refusal that has no site yet. A site of no text places nothing,
so that the reader of an enclosing text can place the refusal. -/
def placeAt {α : Type} (site : Site) (d : Decoded α) : Decoded α :=
  match d with
  | .error e =>
    .error (if e.site.isNone && site.start.line != 0 then { e with site := some site } else e)
  | ok => ok

/-- A reader fault as a refusal. -/
def Located.refusal (l : Located) : DecodeError := ⟨l.fault.message, some ⟨l.pos, l.pos, true⟩⟩

namespace Node

/-- Where a node starts. -/
def start : Node → Pos
  | .null s _ | .bool _ s _ | .number _ s _ | .string _ s _ | .array s _ _ | .object s _ _ => s
  | .broken s _ => s.pos

/-- Where a node finishes; an unfinished one at its start. -/
def finish : Node → Pos
  | .null _ f | .bool _ _ f | .number _ _ f | .string _ _ f => f
  | .array s _ f | .object s _ f => f.getD s
  | .broken s _ => s.pos

/-- The site at a node's finish. -/
def finishSite (n : Node) : Site := ⟨n.start, n.finish, false⟩

/-- The site at a node's start. -/
def startSite (n : Node) : Site := ⟨n.start, n.finish, true⟩

mutual

/-- The first fault a strict reading meets in a node, in reading order. -/
def strictFault : Node → Option Located
  | .null _ _ | .bool _ _ _ => none
  | .number (.error l) _ _ | .string (.error l) _ _ => some l
  | .number _ _ _ | .string _ _ _ => none
  | .array _ items _ => itemsStrictFault items
  | .object _ members _ => membersStrictFault members
  | .broken s _ => some s

/-- The first strict fault among array elements. -/
def itemsStrictFault : List Node → Option Located
  | [] => none
  | n :: rest => match strictFault n with
    | some l => some l
    | none => itemsStrictFault rest

/-- The first strict fault among object members, keys included. -/
def membersStrictFault : List (Option Key × Node) → Option Located
  | [] => none
  | (some ⟨.error l, _, _⟩, _) :: _ => some l
  | (_, n) :: rest => match strictFault n with
    | some l => some l
    | none => membersStrictFault rest

end

mutual

/-- The fault a lenient reading meets in a node: that of its broken part. -/
def lenientFault : Node → Option Located
  | .array _ items _ => itemsLenientFault items
  | .object _ members _ => membersLenientFault members
  | .broken _ l => some l
  | _ => none

/-- The lenient fault among array elements. -/
def itemsLenientFault : List Node → Option Located
  | [] => none
  | n :: rest => match lenientFault n with
    | some l => some l
    | none => itemsLenientFault rest

/-- The lenient fault among object members. -/
def membersLenientFault : List (Option Key × Node) → Option Located
  | [] => none
  | (_, n) :: rest => match lenientFault n with
    | some l => some l
    | none => membersLenientFault rest

end

/-- What a node offers to a decoder that wants something else; a node that is
broken or badly read refuses with its fault. -/
def unexpected : Node → Except DecodeError Unexpected
  | .null _ _ => .ok .unit
  | .bool b _ _ => .ok (.bool b)
  | .number (.ok (.natural n)) _ _ => .ok (.unsigned n.toNat)
  | .number (.ok (.negative n)) _ _ => .ok (.signed n.toInt)
  | .number (.ok (.float f)) _ _ => .ok (.float f)
  | .number (.error l) _ _ => .error l.refusal
  | .string (.ok s) _ _ => .ok (.str s)
  | .string (.error l) _ _ => .error l.refusal
  | .array _ _ _ => .ok .seq
  | .object _ _ _ => .ok .map
  | .broken s _ => .error s.refusal

end Node

/-- Refuses a node for having the wrong type; arrays and objects are refused
without being read. -/
def typeError {α : Type} (src : Source) (n : Node) (expected : String) : Decoded α :=
  match n.unexpected with
  | .error e => .error e
  | .ok u =>
    let site := match u with
      | .seq | .map => n.startSite
      | _ => n.finishSite
    .error ⟨"invalid type: " ++ u.describe src ++ ", expected " ++ expected, Site.of? site⟩

/-- Refuses a value of the right type that is out of range. -/
def valueError {α : Type} (src : Source) (n : Node) (u : Unexpected) (expected : String) :
    Decoded α :=
  .error ⟨"invalid value: " ++ u.describe src ++ ", expected " ++ expected, Site.of? n.finishSite⟩

/-- The one key of the map that stands for a date-time of a configuration
document; its value is the date-time's text. -/
def datetimeKey : String := "$__toml_private_datetime"

/-- Whether a node is a configuration date-time. -/
def Node.isDatetime : Node → Bool
  | .object _ [(some ⟨.ok k, _, _⟩, _)] _ => k == datetimeKey
  | _ => false

/-- The kind of a configuration value, as refusals name it. -/
def Node.configKind (n : Node) : String :=
  match n with
  | .null _ _ => "none"
  | .bool _ _ _ => "boolean"
  | .number (.ok (.float _)) _ _ => "float"
  | .number _ _ _ => "integer"
  | .string _ _ _ => "string"
  | .array _ _ _ => "array"
  | .object _ _ _ => if n.isDatetime then "datetime" else "table"
  | .broken _ _ => "none"

namespace Decoder

/-- An unsigned integer of `bits` bits, named `name` in refusals. -/
def uint (bits : Nat) (name : String) : Decoder Nat := fun src n =>
  match n with
  | .number (.ok (.natural v)) _ _ =>
    if v.toNat < Nat.pow 2 bits then .ok v.toNat else valueError src n (.unsigned v.toNat) name
  | .number (.ok (.negative v)) _ _ => valueError src n (.signed v.toInt) name
  | _ => typeError src n name

/-- A signed 64-bit integer. -/
def int64 : Decoder Int := fun src n =>
  match n with
  | .number (.ok (.natural v)) _ _ =>
    if v.toNat < 9223372036854775808 then .ok v.toNat else valueError src n (.unsigned v.toNat) "i64"
  | .number (.ok (.negative v)) _ _ => .ok v.toInt
  | _ => typeError src n "i64"

/-- A boolean. -/
def bool : Decoder Bool := fun src n =>
  match n with
  | .bool b _ _ => .ok b
  | _ => typeError src n "a boolean"

/-- A string. -/
def string : Decoder String := fun src n =>
  match n with
  | .string (.ok s) _ _ => .ok s
  | _ => typeError src n "a string"

/-- An optional value: `null` is absent. -/
def option {α : Type} (d : Decoder α) : Decoder (Option α) := fun src n =>
  match n with
  | .null _ _ => .ok none
  | _ => (d src n).map some

/-- Decodes array elements in order. -/
def items {α : Type} (d : Decoder α) (src : Source) : List Node → Decoded (List α)
  | [] => .ok []
  | n :: rest => do
    let a ← d src n
    let as ← items d src rest
    pure (a :: as)

/-- A list: an array of decoded elements. -/
def list {α : Type} (d : Decoder α) : Decoder (List α) := fun src n =>
  match n with
  | .array _ xs _ => placeAt n.finishSite (items d src xs)
  | _ => typeError src n "a sequence"

/-- Looks a variant name up. -/
def variant? {α : Type} (variants : List (String × α)) (name : String) : Option α :=
  (variants.find? (·.1 == name)).map (·.2)

/-- An enumeration without payloads, written as the variant's name. Text may
also write `{"name": null}`; values may write a one-member object; a
configuration may write a table whose first key names the variant and holds
an empty table or array. -/
def unitEnum {α : Type} (variants : List (String × α)) : Decoder α := fun src n =>
  let names := variants.map (·.1)
  let lookup (name : String) (site : Site) : Decoded α :=
    match variant? variants name with
    | some a => .ok a
    | none => .error ⟨"unknown variant `" ++ name ++ "`, expected " ++ oneOf names, Site.of? site⟩
  let unitPayload (v : Node) (a : α) : Decoded α :=
    match v with
    | .null _ _ => .ok a
    | _ => typeError src v "unit"
  match n with
  | .string (.ok s) _ _ => lookup s n.finishSite
  | .string (.error l) _ _ => .error l.refusal
  | .object _ members _ =>
    match src, members with
    | .text, (some ⟨.ok name, keyEnd, _⟩, v) :: more =>
      match lookup name ⟨keyEnd, keyEnd, true⟩ with
      | .error e => .error e
      | .ok a => do
        let r ← unitPayload v a
        match more with
        | [] => .ok r
        | _ => .error ⟨Fault.expectedValue.message, some ⟨v.finish, v.finish, true⟩⟩
    | .text, (some ⟨.error l, _, _⟩, _) :: _ => .error l.refusal
    | .text, (none, b) :: _ => .error (b.strictFault.map Located.refusal |>.getD ⟨"", none⟩)
    | .value, [(some ⟨.ok name, _, _⟩, v)] => do
      let a ← lookup name n.finishSite
      unitPayload v a
    | .value, _ =>
      .error ⟨"invalid value: map, expected map with a single key", Site.of? n.finishSite⟩
    | .config, [] =>
      .error ⟨"expected table with exactly 1 entry, found empty table", Site.of? n.finishSite⟩
    | .config, (some ⟨.ok name, keyStart, keyStop⟩, v) :: _ =>
      if n.isDatetime then .error ⟨"wanted string or table", Site.of? n.finishSite⟩
      else do
        let a ← lookup name ⟨keyStart, keyStop, true⟩
        let empty (what : String) : Decoded α :=
          .error ⟨"expected empty " ++ what, Site.of? v.finishSite⟩
        match v with
        | .array _ [] _ => .ok a
        | .array _ _ _ => empty "array"
        | .object _ [] _ => .ok a
        | .object _ _ _ =>
          if v.isDatetime then .error ⟨"expected table, found datetime", Site.of? v.finishSite⟩
          else empty "table"
        | _ => .error ⟨"expected table, found " ++ v.configKind, Site.of? v.finishSite⟩
    | _, _ => .error ⟨"wanted string or table", Site.of? n.finishSite⟩
  | .broken s _ => .error s.refusal
  | _ =>
    match src with
    | .text =>
      -- a streaming reader reports the place just past the first character
      let p := n.start.peekAfter ' '
      .error ⟨Fault.expectedValue.message, some ⟨p, p, true⟩⟩
    | .value => typeError src n "string or map"
    | .config => .error ⟨"wanted string or table", Site.of? n.finishSite⟩

end Decoder

/-! ## Records -/

/-- A known member of a record: its name and how its value updates the
record under construction. -/
structure Field (σ : Type) where
  name : String
  absorb : Source → Node → σ → Decoded σ

/-- A field whose value is decoded and stored by `set`. -/
def Field.of {σ α : Type} (name : String) (d : Decoder α) (set : α → σ → σ) : Field σ :=
  ⟨name, fun src n s => (d src n).map (set · s)⟩

mutual

/-- Strips the places from a node, as a buffered member has none. -/
def Node.forget : Node → Node
  | .null _ _ => .null Pos.none Pos.none
  | .bool b _ _ => .bool b Pos.none Pos.none
  | .number v _ _ => .number v Pos.none Pos.none
  | .string v _ _ => .string v Pos.none Pos.none
  | .array _ items _ => .array Pos.none (Node.forgetItems items) (some Pos.none)
  | .object _ members _ => .object Pos.none (Node.forgetMembers members) (some Pos.none)
  | .broken s l => .broken s l

/-- Strips the places from array elements. -/
def Node.forgetItems : List Node → List Node
  | [] => []
  | n :: rest => n.forget :: Node.forgetItems rest

/-- Strips the places from object members. -/
def Node.forgetMembers : List (Option Key × Node) → List (Option Key × Node)
  | [] => []
  | (k, v) :: rest =>
    (k.map fun key => { key with finish := Pos.none, colon := Pos.none }, v.forget) ::
      Node.forgetMembers rest

end

/-- The members left over for a record's buffer, without places. -/
abbrev Leftovers := List (String × Node)

/-- A record read from an object member by member, or from an array element by
element. Known members update the state; a member seen twice is refused at its
key. Unknown members are read leniently and skipped, unless the record buffers
them (`buffer`), in which case they are read strictly and kept, without
places. `finish` checks the state, with the names of the members seen and the
members kept, once the object is finished; its refusals stand at the end of
the object. Read from an array, the first `minItems` elements are required
and the missing ones after them keep the initial state. -/
def decodeStruct {σ α : Type} (structName : String) (fields : List (Field σ)) (init : σ)
    (finish : σ → List String → Leftovers → Decoded α) (buffer : Bool)
    (minItems : Nat) : Decoder α := fun src n =>
  let rec members (seen : List String) (state : σ) (left : Leftovers) :
      List (Option Key × Node) → Decoded (List String × σ × Leftovers)
    | [] => .ok (seen, state, left)
    | (none, b) :: _ => .error ((b.strictFault.map Located.refusal).getD ⟨"", none⟩)
    | (some ⟨.error l, _, _⟩, _) :: _ => .error l.refusal
    | (some ⟨.ok name, _, colon⟩, v) :: rest =>
      match fields.find? (·.name == name) with
      | some fld =>
        if seen.contains name then
          .error ⟨"duplicate field `" ++ name ++ "`", Site.at? colon⟩
        else
          match placeAt v.finishSite (fld.absorb src v state) with
          | .error e => .error e
          | .ok state' => members (seen ++ [name]) state' left rest
      | none =>
        if buffer then
          match v.strictFault with
          | some l => .error l.refusal
          | none => members seen state (left ++ [(name, v.forget)]) rest
        else
          match v.lenientFault with
          | some l => .error l.refusal
          | none => members seen state left rest
  let rec elements (i : Nat) (state : σ) : List (Field σ) → List Node → Decoded (σ × List Node)
    | [], extra => .ok (state, extra)
    | _ :: _, [] =>
      if minItems ≤ i then .ok (state, [])
      else refuse ("invalid length " ++ toString i ++ ", expected struct " ++ structName ++
        " with " ++ toString fields.length ++ " elements")
    | fld :: fs, x :: xs =>
      match placeAt x.finishSite (fld.absorb src x state) with
      | .error e => .error e
      | .ok state' => elements (i + 1) state' fs xs
  match n with
  | .object _ ms _ =>
    match members [] init [] ms with
    | .error e => .error e
    | .ok (seen, state, left) => placeAt n.finishSite (finish state seen left)
  | .array _ xs _ =>
    -- a record that buffers its unknown members is read from objects only
    match src, buffer with
    | _, true => typeError src n ("struct " ++ structName)
    | .config, false =>
      -- a configuration array fills the fields in order and may hold more
      match elements 0 init fields xs with
      | .error e => placeAt n.finishSite (.error e)
      | .ok (state, _) => placeAt n.finishSite (finish state (fields.map (·.name)) [])
    | _, false =>
      match elements 0 init fields xs with
      | .error e => placeAt n.finishSite (.error e)
      | .ok (state, []) => placeAt n.finishSite (finish state (fields.map (·.name)) [])
      | .ok (_, extra :: _) =>
        match src with
        | .text => .error ⟨Fault.trailingCharacters.message, some ⟨extra.start, extra.start, true⟩⟩
        | _ => .error ⟨"invalid length " ++ toString xs.length ++
            ", expected fewer elements in array", Site.of? n.finishSite⟩
  | _ => typeError src n ("struct " ++ structName)

/-- The refusal of a record member that is required but missing. -/
def missingField {α : Type} (name : String) : Decoded α := refuse ("missing field `" ++ name ++ "`")

/-- A required member's value, or the refusal naming it. -/
def required {α : Type} (name : String) : Option α → Decoded α
  | some a => .ok a
  | none => missingField name

/-! ## Whole values -/

mutual

/-- The JSON value of a node read strictly. Objects become maps: sorted keys,
and of two members with one key the later wins. -/
def Node.toJson : Node → Except DecodeError Json
  | .null _ _ => .ok .null
  | .bool b _ _ => .ok (.bool b)
  | .number (.ok v) _ _ => .ok (.number v)
  | .string (.ok s) _ _ => .ok (.string s)
  | .number (.error l) _ _ | .string (.error l) _ _ => .error l.refusal
  | .array _ items _ => (Node.itemsToJson items).map .array
  | .object _ members _ => (Node.membersToJson members).map fun ps => .object (Fields.ofPairs ps)
  | .broken s _ => .error s.refusal

/-- The values of array elements. -/
def Node.itemsToJson : List Node → Except DecodeError (List Json)
  | [] => .ok []
  | n :: rest => do
    let j ← n.toJson
    let js ← Node.itemsToJson rest
    pure (j :: js)

/-- The members of an object, in reading order. -/
def Node.membersToJson : List (Option Key × Node) → Except DecodeError (List (String × Json))
  | [] => .ok []
  | (none, b) :: _ => .error ((b.strictFault.map Located.refusal).getD ⟨"", none⟩)
  | (some ⟨.error l, _, _⟩, _) :: _ => .error l.refusal
  | (some ⟨.ok k, _, _⟩, n) :: rest => do
    let j ← n.toJson
    let js ← Node.membersToJson rest
    pure ((k, j) :: js)

end

/-- Reads a whole JSON text as a value; anything but blanks after the value is
refused. -/
def parse (text : String) : Except DecodeError Json := do
  let doc := readDocument text
  let j ← doc.root.toJson
  match doc.trailing with
  | some l => .error l.refusal
  | none => pure j

mutual

/-- A JSON value as a node without places; objects keep their member order. -/
def toNode : Json → Node
  | .null => .null Pos.none Pos.none
  | .bool b => .bool b Pos.none Pos.none
  | .number v => .number (.ok v) Pos.none Pos.none
  | .string s => .string (.ok s) Pos.none Pos.none
  | .array xs => .array Pos.none (itemsToNodes xs) (some Pos.none)
  | .object fs => .object Pos.none (fieldsToNodes fs) (some Pos.none)

/-- Array elements as nodes. -/
def itemsToNodes : List Json → List Node
  | [] => []
  | j :: rest => toNode j :: itemsToNodes rest

/-- Object members as nodes. -/
def fieldsToNodes : List (String × Json) → List (Option Key × Node)
  | [] => []
  | (k, v) :: rest => (some ⟨.ok k, Pos.none, Pos.none⟩, toNode v) :: fieldsToNodes rest

end

/-- Decodes a text: the value first, then the check for trailing characters. -/
def decodeText {α : Type} (d : Decoder α) (text : String) : Decoded α := do
  let doc := readDocument text
  let a ← d .text doc.root
  match doc.trailing with
  | some l => .error l.refusal
  | none => pure a

/-- Decodes a JSON value. -/
def decodeValue {α : Type} (d : Decoder α) (j : Json) : Decoded α := d .value (toNode j)

end LotBridge.Json
