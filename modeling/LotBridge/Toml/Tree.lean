import LotBridge.Toml.Value

/-!
# TOML documents as read

A document as read keeps, beside each value, the span of bytes it came from,
and tells tables apart by how they came to be: named by a header, made
implicitly as the parent of a table that a header names, made by a dotted key,
or written inline. Spans let a refusal point at the text it refuses; the kind
of a table decides whether a later header or dotted key may still add to it.

A refusal of the reader says where reading stopped, what was being read, what
was expected there and what went wrong, and is written on up to three lines:
`invalid <what>`, `expected <a>, <b>` and the cause. A refusal is soft when
another reading of the same text may still be tried.

## Main definitions

* `Span`, `TableKind`, `Tree`, `Tree.toValue`.
* `Fault`, `Fault.message`.
-/

namespace LotBridge.Toml

/-- A range of byte offsets of a text, its end excluded. -/
structure Span where
  start : Nat
  stop : Nat
deriving DecidableEq, Repr, Inhabited

/-- How a table came to be. -/
inductive TableKind where
  /-- Named by a header, or an element of an array of tables. -/
  | header
  /-- Made as the parent of a table that a header names. -/
  | parent
  /-- Made by a dotted key. -/
  | dotted
  /-- Written inline. -/
  | inline
  /-- Made by a dotted key inside an inline table. -/
  | inlineDotted
deriving DecidableEq, Repr

namespace TableKind

/-- Whether the table is a value written inline. -/
def isInline : TableKind → Bool
  | .inline | .inlineDotted => true
  | _ => false

/-- Whether the table was made without being written out. -/
def isImplicit : TableKind → Bool
  | .parent | .dotted | .inlineDotted => true
  | _ => false

/-- Whether the table was made by a dotted key. -/
def isDotted : TableKind → Bool
  | .dotted | .inlineDotted => true
  | _ => false

end TableKind

/-- A TOML value as read, with the spans of the text it came from. A table
made without being written has no span of its own. -/
inductive Tree where
  | scalar (v : Value) (span : Span)
  | array (items : List Tree) (span : Span)
  | table (kind : TableKind) (entries : List (String × Span × Tree)) (span : Option Span)
  | tables (items : List Tree)
deriving Inhabited

/-- A table entry as read: the key, the span of the key, and the value. -/
abbrev Entry := String × Span × Tree

namespace Tree

/-- The name of the kind of a value, as refusals give it. -/
def typeName : Tree → String
  | .scalar (.string _) _ => "string"
  | .scalar (.integer _) _ => "integer"
  | .scalar (.float _) _ => "float"
  | .scalar (.boolean _) _ => "boolean"
  | .scalar (.datetime _) _ => "datetime"
  | .scalar (.array _) _ => "array"
  | .scalar (.table _) _ => "inline table"
  | .array _ _ => "array"
  | .table k _ _ => if k.isInline then "inline table" else "table"
  | .tables _ => "array of tables"

/-- The span of a value, if it has one. -/
def span? : Tree → Option Span
  | .scalar _ s | .array _ s => some s
  | .table _ _ s => s
  | .tables _ => none

mutual

/-- The value read, without spans. -/
def toValue : Tree → Value
  | .scalar v _ => v
  | .array items _ => .array (itemValues items)
  | .table _ entries _ => .table (entryValues entries)
  | .tables items => .array (itemValues items)

/-- The values of array elements. -/
def itemValues : List Tree → List Value
  | [] => []
  | t :: rest => t.toValue :: itemValues rest

/-- The values of table entries. -/
def entryValues : List Entry → List (String × Value)
  | [] => []
  | (k, _, t) :: rest => (k, t.toValue) :: entryValues rest

end

end Tree

/-- The value of a key among table entries as read. -/
def findEntry (key : String) (entries : List Entry) : Option Tree :=
  (entries.find? (·.1 == key)).map (·.2.2)

/-- A refusal of the reader: the byte offset where reading stopped, what was
being read, what was expected there, and the cause. A soft refusal leaves
room for another reading. -/
structure Fault where
  offset : Nat
  label : Option String
  expected : List String
  cause : Option String
  soft : Bool
deriving Repr

/-- The wording of a refusal: `invalid <label>`, then `expected ...`, then the
cause, each present part on a line of its own. -/
def Fault.message (f : Fault) : String :=
  let parts := (f.label.map ("invalid " ++ ·)).toList ++
    (if f.expected.isEmpty then [] else ["expected " ++ ", ".intercalate f.expected]) ++
    f.cause.toList
  "\n".intercalate parts

end LotBridge.Toml
