import LotBridge.Toml.Value
import LotBridge.Decimal.Shortest

/-!
# Writing TOML documents

A table is written as a document: the values of the root first, then every
table below it under a header with its full dotted path, each table's values
before the tables below it, in the order of the keys. A table with values of
its own, or with nothing at all, gets a header; one that only holds tables
does not. A non-empty array whose elements are all tables is written as an
array of tables, one `[[path]]` header per element. A blank line stands
before every header but the first one written, and before that one too when
the root has values.

Inside arrays, tables stay inline: `{ a = 1, b = 2 }`. Arrays are written on
one line, or, in the spread style, with two or more elements one element per
line, indented by four spaces and each followed by a comma.

A string is written in the first of these forms that can hold it: a basic
string needing no escape, a literal string, a multi-line basic string needing
no escape, a multi-line literal string, and last an escaped basic string
(multi-line when it holds a line break). Escapes are `\b \t \n \f \r \" \\`
and `\uXXXX` for the other control characters. A key is bare when it is made
of `A-Za-z0-9_-` only, and quoted otherwise.

Floats are written positionally with the fewest digits that read back, with
`.0` when integral, and as `inf`, `-inf`, `nan` and `-nan`.

## Main definitions

* `quoteString`, `keyText`, `floatText`.
* `Value.inlineText`, `documentText`.
-/

namespace LotBridge.Toml

/-- What decides the form of a string: the longest runs of single and double
quotes, and whether it holds a backslash, a line break or another control
character than tab. -/
structure StringShape where
  singles : Nat
  doubles : Nat
  backslash : Bool
  newline : Bool
  control : Bool

/-- The longest run of a character. -/
def longestRun (q : Char) (cs : List Char) : Nat :=
  (cs.foldl (fun (best, run) c => if c = q then (max best (run + 1), run + 1) else (best, 0))
    (0, 0)).1

/-- The shape of a string. -/
def StringShape.of (s : String) : StringShape :=
  let cs := s.toList
  ⟨longestRun '\'' cs, longestRun '"' cs, cs.contains '\\', cs.contains '\n',
    cs.any fun c => c != '\t' && c != '\n' && (c.toNat ≤ 0x1F || c.toNat = 0x7F)⟩

/-- Four uppercase hexadecimal digits. -/
def hex4 (n : Nat) : String :=
  let digit (d : Nat) : Char := if d < 10 then Char.ofNat (48 + d) else Char.ofNat (55 + d)
  String.ofList [digit (n / 4096 % 16), digit (n / 256 % 16), digit (n / 16 % 16), digit (n % 16)]

/-- A character inside an escaped basic string; a line break stays one in a
multi-line string. -/
def escapeChar (multiline : Bool) (c : Char) : String :=
  match c with
  | '\x08' => "\\b"
  | '\t' => "\\t"
  | '\n' => if multiline then "\n" else "\\n"
  | '\x0c' => "\\f"
  | '\r' => "\\r"
  | '"' => "\\\""
  | '\\' => "\\\\"
  | c => if c.toNat ≤ 0x1F || c.toNat = 0x7F then "\\u" ++ hex4 c.toNat else c.toString

/-- A string in the first form that can hold it. -/
def quoteString (s : String) : String :=
  let m := StringShape.of s
  if !m.control && !m.backslash && m.doubles = 0 && !m.newline then "\"" ++ s ++ "\""
  else if !m.control && m.singles = 0 && !m.newline then "'" ++ s ++ "'"
  else if !m.control && !m.backslash && m.doubles ≤ 2 then "\"\"\"\n" ++ s ++ "\"\"\""
  else if !m.control && m.singles ≤ 2 then "'''\n" ++ s ++ "'''"
  else if m.newline then "\"\"\"\n" ++ String.join (s.toList.map (escapeChar true)) ++ "\"\"\""
  else "\"" ++ String.join (s.toList.map (escapeChar false)) ++ "\""

/-- A key: bare when it can be, else quoted. -/
def keyText (k : String) : String :=
  if !k.isEmpty && k.toList.all (fun c => c.isAlphanum || c = '_' || c = '-') then k
  else
    let m := StringShape.of k
    if !m.control && !m.backslash && m.doubles = 0 && !m.newline then "\"" ++ k ++ "\""
    else if !m.control && m.singles = 0 && !m.newline then "'" ++ k ++ "'"
    else "\"" ++ String.join (k.toList.map (escapeChar false)) ++ "\""

/-- The text of a float. -/
def floatText (f : Float) : String :=
  if f.isNaN then (if f.toBits >>> 63 = 1 then "-nan" else "nan")
  else Decimal.Layout.plain.format f

/-- An array's text from its elements' texts; `spread` puts two or more
elements on lines of their own. -/
def arrayText (spread : Bool) (items : List String) : String :=
  if spread && items.length ≥ 2 then
    "[" ++ String.join (items.map fun t => "\n    " ++ t ++ ",") ++ "\n]"
  else "[" ++ ", ".intercalate items ++ "]"

/-- An inline table's text from its pairs' texts. -/
def inlineTableText (pairs : List String) : String :=
  if pairs.isEmpty then "\x7b\x7d" else "\x7b " ++ ", ".intercalate pairs ++ " \x7d"

mutual

/-- The text of a value written inline. -/
def Value.inlineText (spread : Bool) : Value → String
  | .string s => quoteString s
  | .integer i => toString i
  | .float f => floatText f
  | .boolean b => if b then "true" else "false"
  | .datetime d => d.render
  | .array items => arrayText spread (itemTexts spread items)
  | .table entries => inlineTableText (pairTexts spread entries)

/-- The texts of array elements. -/
def itemTexts (spread : Bool) : List Value → List String
  | [] => []
  | v :: rest => v.inlineText spread :: itemTexts spread rest

/-- The texts of inline key-value pairs. -/
def pairTexts (spread : Bool) : List (String × Value) → List String
  | [] => []
  | (k, v) :: rest => (keyText k ++ " = " ++ v.inlineText spread) :: pairTexts spread rest

end

/-- Whether a value is a table. -/
def Value.isTable : Value → Bool
  | .table _ => true
  | _ => false

/-- Whether a value is written as an array of tables. -/
def Value.isTableArray : Value → Bool
  | .array items => !items.isEmpty && items.all Value.isTable
  | _ => false

/-- Whether a value is written under a header of its own. -/
def Value.isSection (v : Value) : Bool := v.isTable || v.isTableArray

/-- A header line, with the blank line before it unless it is the first. -/
def headerText (path : List String) (arrayElement first : Bool) : String :=
  let name := ".".intercalate (path.map keyText)
  (if first then "" else "\n") ++
    (if arrayElement then "[[" ++ name ++ "]]" else "[" ++ name ++ "]") ++ "\n"

/-- The header and the value lines of one table; `first` says whether no
header or root value was written yet, and comes back updated. -/
def headAndValues (spread : Bool) (path : List String) (arrayElement : Bool)
    (entries : List (String × Value)) (first : Bool) : String × Bool :=
  let values := entries.filter fun (_, v) => !v.isSection
  let body := String.join (values.map fun (k, v) => keyText k ++ " = " ++ v.inlineText spread ++ "\n")
  if path.isEmpty then (body, first && values.isEmpty)
  else if arrayElement || !values.isEmpty || entries.isEmpty then
    (headerText path arrayElement first ++ body, false)
  else (body, first)

mutual

/-- The text of the tables below a table's entries, in key order. -/
def sectionsText (spread : Bool) (path : List String) :
    List (String × Value) → Bool → String × Bool
  | [], first => ("", first)
  | (k, .table inner) :: rest, first =>
    let (head, first) := headAndValues spread (path ++ [k]) false inner first
    let (below, first) := sectionsText spread (path ++ [k]) inner first
    let (more, first) := sectionsText spread path rest first
    (head ++ below ++ more, first)
  | (k, .array items) :: rest, first =>
    if (Value.array items).isTableArray then
      let (elems, first) := tableArrayText spread (path ++ [k]) items first
      let (more, first) := sectionsText spread path rest first
      (elems ++ more, first)
    else sectionsText spread path rest first
  | _ :: rest, first => sectionsText spread path rest first

/-- The text of the tables of an array of tables. -/
def tableArrayText (spread : Bool) (path : List String) : List Value → Bool → String × Bool
  | [], first => ("", first)
  | .table inner :: rest, first =>
    let (head, first) := headAndValues spread path true inner first
    let (below, first) := sectionsText spread path inner first
    let (more, first) := tableArrayText spread path rest first
    (head ++ below ++ more, first)
  | _ :: rest, first => tableArrayText spread path rest first

end

/-- A table written as a document; `spread` spreads arrays over lines. -/
def documentText (spread : Bool) (entries : List (String × Value)) : String :=
  let (head, first) := headAndValues spread [] false entries true
  head ++ (sectionsText spread [] entries first).1

end LotBridge.Toml
