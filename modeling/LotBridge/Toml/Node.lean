import LotBridge.Toml.Document
import LotBridge.Toml.Report
import LotBridge.Json.Decode

/-!
# Decoding TOML documents into records

A document read into a tree is handed to the record decoders as a located
node of the configuration source. A place of such a node is a byte offset of
the document, kept as the column of line 1, so that a refusal's site gives
back the span of the value it refuses. A table made without being written has
the span of its key; a date-time is a map with one key holding its text.

A refusal, from reading or from decoding, is reported with the line it
points at.

## Main definitions

* `Tree.toNode`: the located node of a tree.
* `decodeDocument`: a record read from a TOML text, or the report of the
  first refusal.
-/

namespace LotBridge.Toml

open LotBridge.Json

/-- The place of a byte offset. -/
def placeOf (offset : Nat) : Pos := ⟨1, offset⟩

/-- The span of a site. -/
def spanOf (s : Site) : Span := ⟨s.start.column, s.finish.column⟩

/-- The located node of a value other than an array or a table. -/
def scalarNode (v : Value) (sp : Span) : Node :=
  let a := placeOf sp.start
  let b := placeOf sp.stop
  match v with
  | .string s => .string (.ok s) a b
  | .integer i =>
    if i < 0 then .number (.ok (.negative (Int64.ofInt i))) a b
    else .number (.ok (.natural i.toNat.toUInt64)) a b
  | .float f => .number (.ok (.float f)) a b
  | .boolean x => .bool x a b
  | .datetime d => .object a [(some ⟨.ok datetimeKey, a, b⟩, .string (.ok d.render) a b)] (some b)
  | .array _ => .array a [] (some b)
  | .table _ => .object a [] (some b)

mutual

/-- The located node of a tree; a table without a span of its own takes
`fallback`. -/
def Tree.toNode (fallback : Span) : Tree → Node
  | .scalar v sp => scalarNode v sp
  | .array items sp =>
    .array (placeOf sp.start) (Tree.itemNodes fallback items) (some (placeOf sp.stop))
  | .table _ entries span =>
    let sp := span.getD fallback
    .object (placeOf sp.start) (Tree.entryNodes entries) (some (placeOf sp.stop))
  | .tables items =>
    .array (placeOf fallback.start) (Tree.itemNodes fallback items) (some (placeOf fallback.stop))

/-- The located nodes of array elements. -/
def Tree.itemNodes (fallback : Span) : List Tree → List Node
  | [] => []
  | t :: rest => t.toNode fallback :: Tree.itemNodes fallback rest

/-- The located members of table entries; a key's places are the ends of its
span. -/
def Tree.entryNodes : List Entry → List (Option Key × Node)
  | [] => []
  | (k, ks, t) :: rest =>
    (some ⟨.ok k, placeOf ks.start, placeOf ks.stop⟩, t.toNode ks) :: Tree.entryNodes rest

end

/-- The report of a decoding refusal of a text. -/
def DecodeError.report (e : DecodeError) (text : String) : String :=
  Toml.report text (e.site.map spanOf) e.message

/-- The node of a document's root table, which has no place. -/
def Tree.rootNode : Tree → Node
  | .table _ entries _ => .object Pos.none (Tree.entryNodes entries) (some Pos.none)
  | t => t.toNode ⟨0, 0⟩

/-- Reads a record from a TOML text with a decoder; a refusal comes back as
its report. -/
def decodeDocument {α : Type} (d : Decoder α) (text : String) : Except String α :=
  match Tree.parse text with
  | .error f => .error (f.report text)
  | .ok root =>
    match d .config root.rootNode with
    | .ok a => .ok a
    | .error e => .error (DecodeError.report e text)

end LotBridge.Toml
