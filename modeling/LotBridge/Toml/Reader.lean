import LotBridge.Toml.Tree
import LotBridge.Decimal.Shortest

/-!
# Reading TOML values

The grammar of TOML keys and values over a list of characters, with byte
offsets. A reader either reads, moving the cursor, or refuses with a `Fault`;
a soft refusal lets the caller try another reading from the same place, and
`attempt` does so with the cursor put back. The rules:

* blanks are spaces and tabs; a comment runs from `#` to the end of the line;
  a line ends with `\n` or `\r\n`;
* a key is bare (`A-Za-z0-9_-`), a basic string or a literal string, and keys
  joined by dots, with blanks around each, name a path;
* strings are basic (`"..."`, with escapes), literal (`'...'`) or their
  multi-line forms with three quotes, where a line break right after the
  opening quotes is dropped and a backslash at the end of a line drops the
  blanks and line breaks after it;
* a number is an integer in decimal (no leading zero), hexadecimal, octal or
  binary, with single underscores between digits, or a float with a fraction,
  an exponent or both, or `inf` and `nan` with an optional sign; a float too
  large to be finite is refused, and so is an integer outside 64 bits;
* a date-time is a date `YYYY-MM-DD` (the day within its month), a time
  `HH:MM:SS` with an optional fraction, or both joined by `T`, `t` or a
  blank, with an optional offset `Z` or `+HH:MM`;
* arrays may spread over lines and hold comments and a trailing comma; an
  inline table stays on one line, and its dotted keys make tables inside it.

## Main definitions

* `Cursor`, `Reader`, `Reader.attempt`.
* `Reader.dottedKey`, `Reader.value`.
-/

namespace LotBridge.Toml

/-- Where reading stands: the characters left, and the byte offset of the
first of them. -/
structure Cursor where
  rest : List Char
  offset : Nat

/-- A reader of part of a document. -/
abbrev Reader := StateT Cursor (Except Fault)

/-- The number of bytes of characters in UTF-8. -/
def byteLength (cs : List Char) : Nat := (cs.map Char.utf8Size).foldl (· + ·) 0

/-- The number that decimal digits spell. -/
def digitsValue (cs : List Char) : Nat :=
  cs.foldl (fun acc c => acc * 10 + (c.toNat - '0'.toNat)) 0

/-- The value of a hexadecimal digit. -/
def hexValue? (c : Char) : Option Nat :=
  if c.isDigit then some (c.toNat - '0'.toNat)
  else if 'a' ≤ c && c ≤ 'f' then some (c.toNat - 'a'.toNat + 10)
  else if 'A' ≤ c && c ≤ 'F' then some (c.toNat - 'A'.toNat + 10)
  else none

/-- A blank: space or tab. -/
def isBlankChar (c : Char) : Bool := c = ' ' || c = '\t'

/-- A character of a bare key. -/
def isBareChar (c : Char) : Bool := c.isAlphanum || c = '_' || c = '-'

/-- A character outside ASCII. -/
def isWide (c : Char) : Bool := 0x80 ≤ c.toNat

/-- A character that stands for itself in a basic string. -/
def isBasicChar (c : Char) : Bool :=
  isBlankChar c || c = '!' || ('#' ≤ c && c ≤ '[') || (']' ≤ c && c ≤ '~') || isWide c

/-- A character of a literal string. -/
def isLiteralChar (c : Char) : Bool :=
  c = '\t' || (' ' ≤ c && c ≤ '&') || ('(' ≤ c && c ≤ '~') || isWide c

/-- A character of a comment. -/
def isCommentChar (c : Char) : Bool := c = '\t' || (' ' ≤ c && c ≤ '~') || isWide c

/-- The days of a month; February has 29 in a leap year. -/
def daysInMonth (year month : Nat) : Nat :=
  if month = 2 then
    if year % 4 = 0 && (year % 100 != 0 || year % 400 = 0) then 29 else 28
  else if month = 4 || month = 6 || month = 9 || month = 11 then 30
  else 31

/-- The sign, the significant digits and the exponent of a decimal text: it
spells `digits * 10 ^ exponent`, with its sign, underscores, fraction and
exponent taken apart and leading zeros dropped. -/
def decimalParts (text : List Char) : Bool × List Char × Int :=
  let cs := text.filter (· ≠ '_')
  let (neg, cs) := match cs with
    | '-' :: r => (true, r)
    | '+' :: r => (false, r)
    | r => (false, r)
  let whole := cs.takeWhile Char.isDigit
  let afterWhole := cs.drop whole.length
  let (frac, afterFrac) := match afterWhole with
    | '.' :: r => (r.takeWhile Char.isDigit, r.dropWhile Char.isDigit)
    | r => ([], r)
  let exponent : Int := match afterFrac with
    | _ :: '-' :: ds => -(digitsValue ds : Int)
    | _ :: '+' :: ds => digitsValue ds
    | _ :: ds => digitsValue ds
    | [] => 0
  (neg, (whole ++ frac).dropWhile (· = '0'), exponent - frac.length)

/-- The float a decimal text spells, rounded to the nearest double. -/
def decimalFloat (text : List Char) : Float :=
  let (neg, digits, e) := decimalParts text
  let magnitude : Float :=
    if digits.isEmpty then 0
    else if e + digits.length > 310 then Float.ofScientific 1 false 400
    else if e + digits.length < -330 then 0
    else if e < 0 then Float.ofScientific (digitsValue digits) true e.natAbs
    else Float.ofScientific (digitsValue digits) false e.natAbs
  if neg then -magnitude else magnitude

/-- Whether a decimal text is too large for a finite double. A text whose
first digit stands beyond `10 ^ 310`, or below `10 ^ -330`, is decided by
that alone. -/
def decimalOverflows (text : List Char) : Bool :=
  let (_, digits, e) := decimalParts text
  if digits.isEmpty then false
  else if e + digits.length > 310 then true
  else if e + digits.length < -330 then false
  else (Decimal.Scientific.mk (digitsValue digits) e).overflows

/-- The largest 64-bit signed integer. -/
def int64Max : Int := 9223372036854775807

/-- The smallest 64-bit signed integer. -/
def int64Min : Int := -9223372036854775808

/-- The names of the escapes a basic string knows, as a refusal lists them. -/
def escapeNames : List String :=
  ["`b`", "`f`", "`n`", "`r`", "`t`", "`u`", "`U`", "`\\`", "`\"`"]

namespace Reader

/-- The characters left. -/
def ahead : Reader (List Char) := do return (← get).rest

/-- The next character, if any. -/
def peek : Reader (Option Char) := do return (← get).rest.head?

/-- The byte offset reached. -/
def offset : Reader Nat := do return (← get).offset

/-- Moves past the next character. -/
def bump : Reader Unit := modify fun c =>
  match c.rest with
  | [] => c
  | x :: r => ⟨r, c.offset + x.utf8Size⟩

/-- Moves past `n` characters. -/
def skip (n : Nat) : Reader Unit := modify fun c =>
  ⟨c.rest.drop n, c.offset + byteLength (c.rest.take n)⟩

/-- Moves past the characters for which a test holds, and gives them. -/
def takeWhile (p : Char → Bool) : Reader (List Char) := fun c =>
  let t := c.rest.takeWhile p
  .ok (t, ⟨c.rest.drop t.length, c.offset + byteLength t⟩)

/-- Whether the characters left start with a text. -/
def startsWith (s : String) : Reader Bool := do return s.toList.isPrefixOf (← ahead)

/-- Refuses at an offset. -/
def failAt {α : Type} (offset : Nat) (label : Option String) (expected : List String)
    (cause : Option String) (soft : Bool) : Reader α :=
  throw ⟨offset, label, expected, cause, soft⟩

/-- Refuses here, for good. -/
def refuse {α : Type} (label : Option String) (expected : List String) : Reader α := do
  failAt (← offset) label expected none false

/-- Refuses here, leaving room for another reading. -/
def decline {α : Type} (label : Option String) (expected : List String) : Reader α := do
  failAt (← offset) label expected none true

/-- Reads with `r`; when `r` refuses softly, nothing is read and the result is
`none`. -/
def attempt {α : Type} (r : Reader α) : Reader (Option α) :=
  tryCatch (some <$> r) fun f => if f.soft then pure none else throw f

/-- Reads with `r`, making its refusals final. -/
def commit {α : Type} (r : Reader α) : Reader α :=
  tryCatch r fun f => throw { f with soft := false }

/-- Reads with `r`; a refusal says what was being read, unless it says so
already, and adds what was expected. -/
def within {α : Type} (label : Option String) (expected : List String) (r : Reader α) :
    Reader α :=
  tryCatch r fun f => throw { f with label := f.label.orElse fun _ => label,
                                      expected := f.expected ++ expected }

/-- Reads with `r`, and gives the characters it read beside its result. -/
def recognize {α : Type} (r : Reader α) : Reader (List Char × α) := do
  let before ← ahead
  let a ← r
  let after ← ahead
  pure (before.take (before.length - after.length), a)

/-- Moves past blanks. -/
def blanks : Reader Unit := do
  let _ ← takeWhile isBlankChar

/-- Moves past a comment, if one starts here. -/
def comment? : Reader Bool := do
  if (← peek) = some '#' then
    bump
    let _ ← takeWhile isCommentChar
    pure true
  else pure false

/-- Moves past a line break, if one starts here. -/
def newline? : Reader Bool := do
  match ← ahead with
  | '\n' :: _ => bump; pure true
  | '\r' :: '\n' :: _ => skip 2; pure true
  | _ => pure false

/-- Whether a line ends here: a line break, read, or the end of the text. -/
def lineEnd? : Reader Bool := do
  if (← ahead).isEmpty then pure true else newline?

/-- Moves past blanks, comments and line breaks, at most `fuel` of them. -/
def blankLinesFor : Nat → Reader Unit
  | 0 => pure ()
  | fuel + 1 => do
    let before ← offset
    blanks
    let _ ← comment?
    let _ ← newline?
    if (← offset) = before then pure () else blankLinesFor fuel

/-- Moves past blanks, comments and line breaks. -/
def blankLines : Reader Unit := do
  blankLinesFor ((← ahead).length + 1)

/-- The end of a line after a key-value pair or a header: blanks, perhaps a
comment, and a line break or the end of the text. -/
def lineTrailing : Reader Unit := do
  blanks
  let _ ← comment?
  if ← lineEnd? then pure () else refuse none ["newline", "`#`"]

/-- Reads a character given by `width` hexadecimal digits; digits that are no
Unicode scalar value are refused. -/
def hexEscape (width : Nat) (label : String) : Reader Char := do
  let start ← offset
  let digits := ((← ahead).takeWhile fun c => (hexValue? c).isSome).take width
  if digits.length < width then failAt start (some label) [] none false
  else
    let v := digits.foldl (fun acc c => acc * 16 + (hexValue? c).getD 0) 0
    if v < 0xD800 || (0xDFFF < v && v < 0x110000) then
      skip width
      pure (Char.ofNat v)
    else failAt start (some label) [] none false

/-- Reads an escape after its backslash. -/
def escape : Reader Char := do
  match ← peek with
  | none => decline none []
  | some c =>
    bump
    match c with
    | 'b' => pure '\x08'
    | 'f' => pure '\x0c'
    | 'n' => pure '\n'
    | 'r' => pure '\r'
    | 't' => pure '\t'
    | 'u' => hexEscape 4 "unicode 4-digit hex code"
    | 'U' => hexEscape 8 "unicode 8-digit hex code"
    | '\\' => pure '\\'
    | '"' => pure '"'
    | _ => refuse (some "escape sequence") escapeNames

/-- Reads the rest of a basic string after its opening quote, with the
closing quote; `acc` holds what was read, last first. -/
def basicBody : Nat → List Char → Reader String
  | 0, _ => refuse (some "basic string") []
  | fuel + 1, acc => do
    match ← ahead with
    | '"' :: _ =>
      bump
      pure (String.ofList acc.reverse)
    | ['\\'] => refuse (some "basic string") []
    | '\\' :: _ =>
      bump
      let c ← escape
      basicBody fuel (c :: acc)
    | c :: _ =>
      if isBasicChar c then
        bump
        basicBody fuel (c :: acc)
      else refuse (some "basic string") []
    | [] => refuse (some "basic string") []

/-- Reads the rest of a literal string after its opening quote, with the
closing quote. -/
def literalBody : Reader String := do
  let cs ← takeWhile isLiteralChar
  if (← peek) = some '\'' then
    bump
    pure (String.ofList cs)
  else refuse (some "literal string") []

/-- Reads a run of quotes `q` inside a multi-line string. Fewer than three are
text; three to five close the string, the ones before the last three being
text; of more, five are read. Gives the quotes that are text and whether the
string is closed. -/
def quoteRun (q : Char) (label : String) : Reader (List Char × Bool) := do
  let cs ← ahead
  let n := (cs.takeWhile (· = q)).length
  if n < 3 then
    if cs.length = n then refuse (some label) []
    else
      skip n
      pure (List.replicate n q, false)
  else
    let extra := min (n - 3) 2
    skip (extra + 3)
    pure (List.replicate extra q, true)

/-- Reads the rest of a multi-line basic string, with the closing quotes. -/
def mlBasicBody : Nat → List Char → Reader String
  | 0, _ => refuse (some "multiline basic string") []
  | fuel + 1, acc => do
    let label := "multiline basic string"
    match ← ahead with
    | '"' :: _ =>
      let (quotes, closed) ← quoteRun '"' label
      if closed then pure (String.ofList (acc.reverse ++ quotes))
      else mlBasicBody fuel (quotes.reverse ++ acc)
    | '\\' :: rest =>
      match rest.dropWhile isBlankChar with
      | '\n' :: _ | '\r' :: '\n' :: _ =>
        bump
        blanks
        let _ ← takeWhile fun c => isBlankChar c || c = '\n' || c = '\r'
        mlBasicBody fuel acc
      | _ =>
        if rest.isEmpty then refuse (some label) []
        else
          bump
          let c ← escape
          mlBasicBody fuel (c :: acc)
    | '\n' :: _ =>
      bump
      mlBasicBody fuel ('\n' :: acc)
    | '\r' :: '\n' :: _ =>
      skip 2
      mlBasicBody fuel ('\n' :: acc)
    | c :: _ =>
      if isBasicChar c then
        bump
        mlBasicBody fuel (c :: acc)
      else refuse (some label) []
    | [] => refuse (some label) []

/-- Reads the rest of a multi-line literal string, with the closing quotes. -/
def mlLiteralBody : Nat → List Char → Reader String
  | 0, _ => refuse (some "multiline literal string") []
  | fuel + 1, acc => do
    let label := "multiline literal string"
    match ← ahead with
    | '\'' :: _ =>
      let (quotes, closed) ← quoteRun '\'' label
      if closed then pure (String.ofList (acc.reverse ++ quotes))
      else mlLiteralBody fuel (quotes.reverse ++ acc)
    | '\n' :: _ =>
      bump
      mlLiteralBody fuel ('\n' :: acc)
    | '\r' :: '\n' :: _ =>
      skip 2
      mlLiteralBody fuel ('\n' :: acc)
    | c :: _ =>
      if isLiteralChar c then
        bump
        mlLiteralBody fuel (c :: acc)
      else refuse (some label) []
    | [] => refuse (some label) []

/-- Reads a string in any of its four forms. -/
def string : Reader String := do
  let fuel := (← ahead).length + 1
  if ← startsWith "\"\"\"" then
    skip 3
    let _ ← newline?
    mlBasicBody fuel []
  else if ← startsWith "\"" then
    bump
    basicBody fuel []
  else if ← startsWith "'''" then
    skip 3
    let _ ← newline?
    mlLiteralBody fuel []
  else
    bump
    literalBody

/-- Reads one key of a path: bare, basic or literal. -/
def simpleKey : Reader (String × Span) := do
  let start ← offset
  match ← peek with
  | some '"' =>
    bump
    let s ← basicBody ((← ahead).length + 1) []
    pure (s, ⟨start, ← offset⟩)
  | some '\'' =>
    bump
    let s ← literalBody
    pure (s, ⟨start, ← offset⟩)
  | _ =>
    let cs ← takeWhile isBareChar
    if cs.isEmpty then decline none []
    else pure (String.ofList cs, ⟨start, ← offset⟩)

/-- Reads more keys of a path, each after a dot; a dot with no key after it
is left unread. -/
def moreKeys : Nat → Reader (List (String × Span))
  | 0 => pure []
  | fuel + 1 => do
    let next ← attempt do
      if (← peek) = some '.' then bump else decline none []
      blanks
      let k ← simpleKey
      blanks
      pure k
    match next with
    | none => pure []
    | some k => return k :: (← moreKeys fuel)

/-- Reads a path of keys joined by dots, with the blanks around them. -/
def dottedKey : Reader (List (String × Span)) := within (some "key") [] do
  blanks
  let first ← simpleKey
  blanks
  return first :: (← moreKeys ((← ahead).length + 1))

/-- Reads exactly `n` decimal digits as a number, or declines. -/
def fixedDigits (n : Nat) : Reader Nat := do
  let cs := (← ahead).take n
  if cs.length = n && cs.all Char.isDigit then
    skip n
    pure (digitsValue cs)
  else decline none []

/-- Reads a number with `r` and declines one outside `lo ..= hi`, pointing at
its start. -/
def inRange (lo hi : Nat) (r : Reader Nat) : Reader Nat := do
  let start ← offset
  let v ← r
  if lo ≤ v && v ≤ hi then pure v
  else failAt start none [] (some "value is out of range") true

/-- Reads a character, or declines. -/
def expectChar (c : Char) : Reader Unit := do
  if (← peek) = some c then bump else decline none []

/-- Reads the fraction of a second after its point, as nanoseconds: the first
nine digits count. -/
def secondFraction : Reader Nat := do
  expectChar '.'
  let ds ← takeWhile Char.isDigit
  if ds.isEmpty then decline none []
  else
    let kept := ds.take 9
    pure (digitsValue kept * Nat.pow 10 (9 - kept.length))

/-- Reads a time of day; once the hour and its colon are read, it must go
on. -/
def partialTime : Reader Time := do
  let hour ← inRange 0 23 (fixedDigits 2)
  expectChar ':'
  commit do
    let minute ← inRange 0 59 (fixedDigits 2)
    expectChar ':'
    let second ← inRange 0 60 (fixedDigits 2)
    let nanos ← attempt secondFraction
    pure ⟨hour, minute, second, nanos.getD 0⟩

/-- Reads a date; once the year and its dash are read, it must go on, and the
day must lie within its month. -/
def fullDate : Reader Date := do
  let year ← fixedDigits 4
  expectChar '-'
  commit do
    let month ← inRange 1 12 (fixedDigits 2)
    expectChar '-'
    let dayStart ← offset
    let day ← inRange 1 31 (fixedDigits 2)
    if daysInMonth year month < day then
      failAt dayStart none [] (some "value is out of range") false
    else pure ⟨year, month, day⟩

/-- Reads the offset of a date-time: `Z`, or a sign with hours and minutes. -/
def timeOffset : Reader Offset := do
  match ← peek with
  | some 'Z' | some 'z' =>
    bump
    pure .utc
  | some '+' | some '-' =>
    let negative := (← peek) = some '-'
    bump
    commit do
      let h ← inRange 0 23 (fixedDigits 2)
      expectChar ':'
      let m ← inRange 0 59 (fixedDigits 2)
      let total : Int := h * 60 + m
      pure (.minutes (if negative then -total else total))
  | _ => decline none []

/-- Reads a date-time: a date with an optional time and offset, or a time. -/
def dateTime : Reader Datetime := within (some "date-time") [] do
  match ← attempt fullDate with
  | some d =>
    let timePart ← attempt do
      match ← peek with
      | some 'T' | some 't' | some ' ' => bump
      | _ => decline none []
      let t ← partialTime
      let o ← attempt timeOffset
      pure (t, o)
    match timePart with
    | some (t, o) => pure ⟨some d, some t, o⟩
    | none => pure ⟨some d, none, none⟩
  | none =>
    let t ← partialTime
    pure ⟨none, some t, none⟩

/-- Reads digits of a class, with single underscores between them, after a
first digit; at most `fuel` of them. -/
def digitRun (isDigitOf : Char → Bool) : Nat → Reader Unit
  | 0 => pure ()
  | fuel + 1 => do
    match ← peek with
    | some c =>
      if isDigitOf c then
        bump
        digitRun isDigitOf fuel
      else if c = '_' then
        bump
        match ← peek with
        | some d =>
          if isDigitOf d then
            bump
            digitRun isDigitOf fuel
          else refuse none ["digit"]
        | none => refuse none ["digit"]
      else pure ()
    | none => pure ()

/-- Reads a decimal integer's text: a sign, then `0` or digits without a
leading zero. -/
def decimalText : Reader (List Char) := within (some "integer") [] do
  let (text, _) ← recognize do
    match ← peek with
    | some '+' | some '-' => bump
    | _ => pure ()
    match ← peek with
    | some c =>
      if '1' ≤ c && c ≤ '9' then
        bump
        digitRun Char.isDigit ((← ahead).length + 1)
      else if c = '0' then bump
      else decline none []
    | none => decline none []
  pure text

/-- Reads digits that may start with zero. -/
def digitsFrom (expected : List String) : Reader Unit := do
  match ← peek with
  | some c =>
    if c.isDigit then
      bump
      digitRun Char.isDigit ((← ahead).length + 1)
    else refuse none expected
  | none => refuse none expected

/-- Reads an exponent: `e` or `E`, a sign, digits. -/
def exponentPart : Reader Unit := do
  bump
  match ← peek with
  | some '+' | some '-' => bump
  | _ => pure ()
  digitsFrom []

/-- Reads a float's text: an integer part, then an exponent, or a fraction
and perhaps an exponent. -/
def floatText : Reader (List Char) := do
  let (text, _) ← recognize do
    let _ ← decimalText
    match ← peek with
    | some 'e' | some 'E' => exponentPart
    | some '.' =>
      bump
      digitsFrom ["digit"]
      match ← peek with
      | some 'e' | some 'E' => exponentPart
      | _ => pure ()
    | _ => decline none []
  pure text

/-- Reads `inf` or `nan`, with an optional sign. -/
def specialFloat : Reader Float := do
  let negative ← match ← peek with
    | some '+' => do bump; pure false
    | some '-' => do bump; pure true
    | _ => pure false
  let magnitude ←
    if ← startsWith "inf" then do skip 3; pure (Float.ofScientific 1 false 400)
    else if ← startsWith "nan" then do skip 3; pure (0.0 / 0.0 : Float)
    else decline none []
  pure (if negative then -magnitude else magnitude)

/-- Reads a float; one too large to be finite is refused. -/
def float : Reader Float := within (some "floating-point number") [] do
  let start ← offset
  match ← attempt floatText with
  | some text =>
    if decimalOverflows text then failAt start none [] none false
    else pure (decimalFloat text)
  | none => specialFloat

/-- Reads an integer in base 16, 8 or 2 after its prefix. -/
def radixInteger (base : Nat) (label : String) : Reader Int := do
  let start ← offset
  let isDigitOf (c : Char) : Bool := match hexValue? c with
    | some v => v < base
    | none => false
  let (text, _) ← commit <| within (some label) [] <| recognize do
    skip 2
    match ← peek with
    | some c =>
      if isDigitOf c then
        bump
        digitRun isDigitOf ((← ahead).length + 1)
      else refuse none []
    | none => refuse none []
  let v := ((text.drop 2).filter (· ≠ '_')).foldl
    (fun acc c => acc * base + (hexValue? c).getD 0) 0
  if (v : Int) > int64Max then
    failAt start none [] (some "number too large to fit in target type") false
  else pure v

/-- Reads an integer; one outside 64 bits is refused. -/
def integer : Reader Int := do
  let start ← offset
  match ← ahead with
  | '0' :: 'x' :: _ => radixInteger 16 "hexadecimal integer"
  | '0' :: 'o' :: _ => radixInteger 8 "octal integer"
  | '0' :: 'b' :: _ => radixInteger 2 "binary integer"
  | _ =>
    let text ← decimalText
    let cs := text.filter (· ≠ '_')
    let v : Int := match cs with
      | '-' :: ds => -(digitsValue ds : Int)
      | '+' :: ds => digitsValue ds
      | ds => digitsValue ds
    if v > int64Max then
      failAt start none [] (some "number too large to fit in target type") false
    else if v < int64Min then
      failAt start none [] (some "number too small to fit in target type") false
    else pure v

/-- Reads a value that starts with a sign or a digit: a date-time, a float or
an integer, tried in that order. -/
def number : Reader Value := do
  match ← attempt dateTime with
  | some d => pure (.datetime d)
  | none =>
    match ← attempt float with
    | some f => pure (.float f)
    | none => return .integer (← integer)

/-- Reads a word that stands for a value, such as `true`. -/
def word (w : String) (v : Value) (final : Bool) : Reader Value := do
  if ← startsWith w then
    skip w.length
    pure v
  else if final then refuse none [] else decline none []

/-- The path names of keys. -/
def names (keys : List (String × Span)) : List String := keys.map (·.1)

/-- The wording of a key defined twice, in a table if one is named. -/
def duplicateKey (key : String) (table : Option (List String)) : String :=
  match table with
  | none => "duplicate key `" ++ key ++ "`"
  | some [] => "duplicate key `" ++ key ++ "` in document root"
  | some path => "duplicate key `" ++ key ++ "` in table `" ++ ".".intercalate path ++ "`"

/-- The wording of a dotted key that runs into a value that is no table. -/
def extendsValue (path : List String) (actual : String) : String :=
  "dotted key `" ++ ".".intercalate path ++ "` attempted to extend non-table type (" ++
    actual ++ ")"

/-- Replaces the value of a key among table entries. -/
def replaceEntry (key : String) (t : Tree) : List Entry → List Entry
  | [] => []
  | (k, s, u) :: rest => if k = key then (k, s, t) :: rest else (k, s, u) :: replaceEntry key t rest

/-- Applies `f` to the table at a path below a table's entries, making the
tables that are missing with kind `made`. Inline tables are the tables to go
through when `inline` holds, and values otherwise; `dotted` refuses to go
through a table written out; an array of tables is gone through at its last
table. `f` learns the kind of its table. -/
def descend {α : Type} (inline dotted : Bool) (made : TableKind)
    (f : TableKind → List Entry → Except String (List Entry × α)) (seen : List String) :
    TableKind → List (String × Span) → List Entry → Except String (List Entry × α)
  | kind, [], entries => f kind entries
  | _, (k, ks) :: more, entries =>
    let here := seen ++ [k]
    match findEntry k entries with
    | none => do
      let (inner, a) ← descend inline dotted made f here made more []
      pure (entries ++ [(k, ks, .table made inner none)], a)
    | some (.table tk inner span) =>
      if tk.isInline != inline then .error (extendsValue here "inline table")
      else if dotted && !tk.isImplicit then .error (duplicateKey k none)
      else do
        let (inner, a) ← descend inline dotted made f here tk more inner
        pure (replaceEntry k (.table tk inner span) entries, a)
    | some (.tables items) =>
      match items.reverse with
      | .table tk inner span :: earlier => do
        let (inner, a) ← descend inline dotted made f here tk more inner
        pure (replaceEntry k (.tables ((.table tk inner span :: earlier).reverse)) entries, a)
      | _ => .error (duplicateKey k none)
    | some other => .error (extendsValue here other.typeName)

/-- Adds a key-value pair, its key a path, to the entries of an inline
table. -/
def addInlinePair (entries : List Entry) (pair : List (String × Span) × Tree) :
    Except String (List Entry) :=
  match pair.1.reverse with
  | [] => .ok entries
  | (k, ks) :: revPrefix =>
    let pre := revPrefix.reverse
    Prod.fst <$> descend true true .inlineDotted (fun kind inner =>
      if kind.isDotted == pre.isEmpty then .error (duplicateKey k none)
      else if (findEntry k inner).isSome then .error (duplicateKey k none)
      else .ok (inner ++ [(k, ks, pair.2)], ())) [] .inline pre entries

mutual

/-- Reads a value; `fuel` bounds the steps of reading, each of which reads at
least one character. -/
def value : Nat → Reader Tree
  | 0 => refuse none []
  | fuel + 1 => do
    let start ← offset
    let scalar (r : Reader Value) : Reader Tree := do
      let v ← r
      pure (.scalar v ⟨start, ← offset⟩)
    let asString (r : Reader Value) : Reader Tree :=
      within (some "string") ["`\"`", "`'`"] (scalar r)
    match ← peek with
    | none => decline none []
    | some c =>
      if c = '"' || c = '\'' then scalar (Value.string <$> string)
      else if c = '[' then array fuel
      else if c = '{' then inlineTable fuel
      else if c = '+' || c = '-' || c.isDigit then scalar number
      else if c = '_' then within none ["leading digit"] (scalar (Value.integer <$> integer))
      else if c = '.' then within none ["leading digit"] (scalar (Value.float <$> float))
      else if c = 't' then asString (word "true" (.boolean true) true)
      else if c = 'f' then asString (word "false" (.boolean false) true)
      else if c = 'i' then asString (word "inf" (.float (Float.ofScientific 1 false 400)) false)
      else if c = 'n' then asString (word "nan" (.float (0.0 / 0.0)) false)
      else decline (some "string") ["`\"`", "`'`"]

/-- Reads the elements of an array after the first, each after a comma. -/
def moreItems : Nat → Reader (List Tree)
  | 0 => pure []
  | fuel + 1 => do
    let next ← attempt do
      if (← peek) = some ',' then bump else decline none []
      blankLines
      let v ← value fuel
      blankLines
      pure v
    match next with
    | none => pure []
    | some v => return v :: (← moreItems fuel)

/-- Reads an array from its opening bracket. -/
def array : Nat → Reader Tree
  | 0 => refuse none []
  | fuel + 1 => do
    let start ← offset
    bump
    let first ← attempt do
      blankLines
      let v ← value fuel
      blankLines
      pure v
    let items ← match first with
      | none => pure []
      | some v => do
        let rest ← moreItems fuel
        if (← peek) = some ',' then bump
        pure (v :: rest)
    blankLines
    if (← peek) = some ']' then
      bump
      pure (.array items ⟨start, ← offset⟩)
    else refuse (some "array") ["`]`"]

/-- Reads a key-value pair of an inline table. -/
def inlinePair : Nat → Reader (List (String × Span) × Tree)
  | 0 => refuse none []
  | fuel + 1 => do
    let keys ← dottedKey
    commit do
      if (← peek) = some '=' then bump else refuse none ["`.`", "`=`"]
      blanks
      let v ← value fuel
      blanks
      pure (keys, v)

/-- Reads the key-value pairs of an inline table after the first, each after
a comma. -/
def morePairs : Nat → Reader (List (List (String × Span) × Tree))
  | 0 => pure []
  | fuel + 1 => do
    let next ← attempt do
      if (← peek) = some ',' then bump else decline none []
      inlinePair fuel
    match next with
    | none => pure []
    | some p => return p :: (← morePairs fuel)

/-- Reads an inline table from its opening brace. -/
def inlineTable : Nat → Reader Tree
  | 0 => refuse none []
  | fuel + 1 => do
    let start ← offset
    bump
    let bodyStart ← offset
    let pairs ← match ← attempt (inlinePair fuel) with
      | none => pure []
      | some p => pure (p :: (← morePairs fuel))
    blanks
    match pairs.foldlM addInlinePair [] with
    | .error m => failAt bodyStart none [] (some m) false
    | .ok entries =>
      if (← peek) = some '}' then
        bump
        pure (.table .inline entries (some ⟨start, ← offset⟩))
      else refuse (some "inline table") ["`\x7d`"]

end

end Reader

end LotBridge.Toml
