import LotBridge.Json.Value
import LotBridge.Decimal.Shortest

/-!
# Writing JSON text

Compact text has no blanks at all; pretty text puts every member and element
on a line of its own, indented by two spaces per level, with `": "` after a
key. Strings escape the quote, the backslash and the control characters below
U+0020: five of them by their short escapes, the others as `\u00xx` with
lower-case hex digits. Every other character is written as it is. Finite
floats take their shortest digits in the JSON layout; the others are `null`.

## Main definitions

* `Json.quote`: a string literal.
* `Json.render`, `Json.renderPretty`: compact and pretty text.
-/

namespace LotBridge.Json

/-- The lower-case hex digit of a number below 16. -/
def hexDigit (n : Nat) : Char :=
  if n < 10 then Char.ofNat (48 + n) else Char.ofNat (87 + n)

/-- The escaped form of one character inside a string literal. -/
def escapeChar (c : Char) : List Char :=
  if c = '"' then ['\\', '"']
  else if c = '\\' then ['\\', '\\']
  else if c = '\n' then ['\\', 'n']
  else if c = '\r' then ['\\', 'r']
  else if c = '\t' then ['\\', 't']
  else if c.toNat = 8 then ['\\', 'b']
  else if c.toNat = 12 then ['\\', 'f']
  else if c.toNat < 32 then ['\\', 'u', '0', '0', hexDigit (c.toNat / 16), hexDigit (c.toNat % 16)]
  else [c]

/-- A string literal with its quotes. -/
def quote (s : String) : String :=
  String.ofList ('"' :: (s.toList.flatMap escapeChar ++ ['"']))

/-- The text of a number. -/
def Number.render : Number → String
  | .natural n => toString n.toNat
  | .negative n => toString n.toInt
  | .float f => if f.isFinite then Decimal.Layout.json.format f else "null"

mutual

/-- Compact text of a value. -/
def render : Json → String
  | .null => "null"
  | .bool true => "true"
  | .bool false => "false"
  | .number n => n.render
  | .string s => quote s
  | .array items => "[" ++ renderItems items ++ "]"
  | .object fields => "\x7b" ++ renderFields fields ++ "\x7d"

/-- Compact text of array elements, comma separated. -/
def renderItems : List Json → String
  | [] => ""
  | [x] => render x
  | x :: rest => render x ++ "," ++ renderItems rest

/-- Compact text of object members, comma separated. -/
def renderFields : List (String × Json) → String
  | [] => ""
  | [(k, v)] => quote k ++ ":" ++ render v
  | (k, v) :: rest => quote k ++ ":" ++ render v ++ "," ++ renderFields rest

end

/-- Two spaces per level of nesting. -/
def indent (level : Nat) : String := String.ofList (List.replicate (2 * level) ' ')

mutual

/-- Pretty text of a value whose first line is already indented to `level`. -/
def renderPrettyAt (level : Nat) : Json → String
  | .array [] => "[]"
  | .object [] => "\x7b\x7d"
  | .array items => "[\n" ++ prettyItems (level + 1) items ++ "\n" ++ indent level ++ "]"
  | .object fields => "\x7b\n" ++ prettyFields (level + 1) fields ++ "\n" ++ indent level ++ "\x7d"
  | j => render j

/-- Pretty array elements, one per line. -/
def prettyItems (level : Nat) : List Json → String
  | [] => ""
  | [x] => indent level ++ renderPrettyAt level x
  | x :: rest => indent level ++ renderPrettyAt level x ++ ",\n" ++ prettyItems level rest

/-- Pretty object members, one per line. -/
def prettyFields (level : Nat) : List (String × Json) → String
  | [] => ""
  | [(k, v)] => indent level ++ quote k ++ ": " ++ renderPrettyAt level v
  | (k, v) :: rest =>
    indent level ++ quote k ++ ": " ++ renderPrettyAt level v ++ ",\n" ++ prettyFields level rest

end

/-- Pretty text of a value. -/
def renderPretty (j : Json) : String := renderPrettyAt 0 j

theorem escapeChar_plain (c : Char) (h1 : c ≠ '"') (h2 : c ≠ '\\') (h3 : 32 ≤ c.toNat) :
    escapeChar c = [c] := by
  have hn : c ≠ '\n' := by intro h; subst h; simp at h3
  have hr : c ≠ '\r' := by intro h; subst h; simp at h3
  have ht : c ≠ '\t' := by intro h; subst h; simp at h3
  have h8 : c.toNat ≠ 8 := by omega
  have h12 : c.toNat ≠ 12 := by omega
  have hlt : ¬ c.toNat < 32 := by omega
  simp [escapeChar, h1, h2, hn, hr, ht, h8, h12, hlt]

end LotBridge.Json
