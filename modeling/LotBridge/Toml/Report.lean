import LotBridge.Toml.Tree
import LotBridge.Text.Utf8

/-!
# Reporting TOML refusals

A refusal of a document, from reading it or from decoding its values, is
shown with the line it points at:

```text
TOML parse error at line 2, column 12
  |
2 | attempts = -1
  |            ^^
invalid value: integer `-1`, expected u32
```

Lines and columns count from one. The column counts the characters of the
line up to the byte the refusal points at, or its bytes when that byte starts
a character of several bytes; past the end of the text the column goes on
counting. The carets cover the span the refusal points at, as far as the line
goes, and are at least one. A refusal without a span is its message alone.

## Main definitions

* `position`: the line and column of a byte offset.
* `report`: the full text of a refusal.
-/

namespace LotBridge.Toml

open LotBridge.Text

/-- The line and column, both from zero, of a byte offset of a text. -/
def position (bytes : List UInt8) (index : Nat) : Nat × Nat :=
  if bytes.isEmpty then (0, index)
  else
    let safe := min index (bytes.length - 1)
    let beyond := index - safe
    let before := bytes.take safe
    let lineStart := before.length - (before.reverse.takeWhile (· != 10)).length
    let line := (bytes.take lineStart).count 10
    let piece := (bytes.drop lineStart).take (safe - lineStart + 1)
    let column := match decodeUtf8 piece with
      | .ok s => s.length - 1
      | .error _ => safe - lineStart
    (line, column + beyond)

/-- `n` spaces. -/
def spaces (n : Nat) : String := String.ofList (List.replicate n ' ')

/-- The text of a refusal with its message, pointing at a span of a text. -/
def report (text : String) (span : Option Span) (message : String) : String :=
  match span with
  | none => message ++ "\n"
  | some sp =>
    let (line, column) := position text.toUTF8.toList sp.start
    let lineNumber := toString (line + 1)
    let gutter := spaces (lineNumber.length + 1)
    let content := ((text.splitOn "\n")[line]?).getD ""
    let highlight := min (sp.stop - sp.start) (content.utf8ByteSize - column)
    "TOML parse error at line " ++ lineNumber ++ ", column " ++ toString (column + 1) ++ "\n" ++
      gutter ++ "|\n" ++
      lineNumber ++ " | " ++ content ++ "\n" ++
      gutter ++ "|" ++ spaces (column + 1) ++ "^" ++ String.ofList (List.replicate (highlight - 1) '^') ++
      "\n" ++ message ++ "\n"

/-- The span a reading refusal points at: the byte where reading stopped, or
nothing at the end of the text. -/
def Fault.span (f : Fault) (text : String) : Span :=
  if f.offset = text.utf8ByteSize then ⟨f.offset, f.offset⟩ else ⟨f.offset, f.offset + 1⟩

/-- The text of a reading refusal. -/
def Fault.report (f : Fault) (text : String) : String :=
  Toml.report text (some (f.span text)) f.message

end LotBridge.Toml
