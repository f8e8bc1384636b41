import LotBridge.Json.Value

/-!
# Reading JSON text into a located tree

The reader turns text into a `Node` tree that remembers where each value
starts and ends, so that a decoder can report a fault at the place where a
streaming reader would have stopped. A syntax fault ends the tree: the value
that could not be finished becomes a `broken` node and nothing after it is
read.

Two readings of the same text differ. A value that is decoded is read
*strictly*; a value that is skipped (an unknown member) is read *leniently*.
They disagree on a few faults: a lone UTF-16 surrogate, a number out of
binary64 range, the wording after a trailing comma, the place of a control
character. A broken node therefore carries both readings' faults, and a
finished string or number carries the strict fault, if any, as its value.

Places are a line, counted from 1, and a column counted in bytes from the
start of the line. A fault found by looking at a character without taking it
is placed one byte further on.

## Main definitions

* `Json.Fault`, `Json.Located`: reader faults and their places.
* `Json.Node`: the located tree.
* `Json.readDocument`: the tree of a text and the check for trailing characters.
-/

namespace LotBridge.Json

/-- A place in a text: line from 1, column in bytes from the line start.
Line 0 marks a value that came from no text. -/
structure Pos where
  line : Nat
  column : Nat
deriving DecidableEq, Repr, Inhabited

/-- The place of values that came from no text. -/
def Pos.none : Pos := ⟨0, 0⟩

/-- The faults a reader can meet. -/
inductive Fault where
  | eofList
  | eofObject
  | eofString
  | eofValue
  | expectedColon
  | expectedListCommaOrEnd
  | expectedObjectCommaOrEnd
  | expectedIdent
  | expectedValue
  | invalidEscape
  | invalidNumber
  | numberOutOfRange
  | controlCharacter
  | keyMustBeString
  | loneLeadingSurrogate
  | trailingComma
  | trailingCharacters
  | unexpectedEndOfHexEscape
deriving DecidableEq, Repr

/-- The wording of a reader fault. -/
def Fault.message : Fault → String
  | .eofList => "EOF while parsing a list"
  | .eofObject => "EOF while parsing an object"
  | .eofString => "EOF while parsing a string"
  | .eofValue => "EOF while parsing a value"
  | .expectedColon => "expected `:`"
  | .expectedListCommaOrEnd => "expected `,` or `]`"
  | .expectedObjectCommaOrEnd => "expected `,` or `\x7d`"
  | .expectedIdent => "expected ident"
  | .expectedValue => "expected value"
  | .invalidEscape => "invalid escape"
  | .invalidNumber => "invalid number"
  | .numberOutOfRange => "number out of range"
  | .controlCharacter => "control character (\\u0000-\\u001F) found while parsing a string"
  | .keyMustBeString => "key must be a string"
  | .loneLeadingSurrogate => "lone leading surrogate in hex escape"
  | .trailingComma => "trailing comma"
  | .trailingCharacters => "trailing characters"
  | .unexpectedEndOfHexEscape => "unexpected end of hex escape"

/-- A fault at a place. -/
structure Located where
  fault : Fault
  pos : Pos
deriving DecidableEq, Repr

/-- An object member's key: its strictly read text, the place after its
closing quote, and the place after the blanks that follow it. -/
structure Key where
  text : Except Located String
  finish : Pos
  colon : Pos

/-- A value as read, with its places. `broken` stands for a value the reader
could not finish; an array or object whose last element is broken has no
closing place. A member's key is `none` when the member broke before its key
was read. -/
inductive Node where
  | null (start finish : Pos)
  | bool (b : Bool) (start finish : Pos)
  | number (n : Except Located Number) (start finish : Pos)
  | string (s : Except Located String) (start finish : Pos)
  | array (start : Pos) (items : List Node) (finish : Option Pos)
  | object (start : Pos) (members : List (Option Key × Node)) (finish : Option Pos)
  | broken (strict lenient : Located)

instance : Inhabited Node := ⟨.null Pos.none Pos.none⟩

/-- The unread text and the place where it starts. -/
structure Cursor where
  rest : List Char
  pos : Pos

/-- The place after one character. -/
def Pos.after (p : Pos) (c : Char) : Pos :=
  if c = '\n' then ⟨p.line + 1, 0⟩ else ⟨p.line, p.column + c.utf8Size⟩

/-- The place one byte after a character that was looked at but not taken. -/
def Pos.peekAfter (p : Pos) (c : Char) : Pos :=
  if c = '\n' then ⟨p.line + 1, 0⟩ else ⟨p.line, p.column + 1⟩

/-- Advances a place over characters. -/
def Pos.afterAll (p : Pos) (cs : List Char) : Pos := cs.foldl Pos.after p

namespace Cursor

/-- Takes one character. -/
def advance (c : Cursor) : Cursor :=
  match c.rest with
  | [] => c
  | x :: xs => ⟨xs, c.pos.after x⟩

/-- Takes `n` characters. -/
def advanceBy (c : Cursor) (n : Nat) : Cursor :=
  ⟨c.rest.drop n, c.pos.afterAll (c.rest.take n)⟩

/-- The place of a fault found by looking at the next character. -/
def peekPos (c : Cursor) : Pos :=
  match c.rest with
  | [] => c.pos
  | x :: _ => c.pos.peekAfter x

/-- Skips blanks: space, line feed, tab and carriage return. -/
def skipBlanks : List Char → Pos → Cursor
  | [], p => ⟨[], p⟩
  | x :: xs, p =>
    if x = ' ' ∨ x = '\n' ∨ x = '\t' ∨ x = '\r' then skipBlanks xs (p.after x) else ⟨x :: xs, p⟩

/-- The cursor after blanks. -/
def blanks (c : Cursor) : Cursor := skipBlanks c.rest c.pos

/-- The next character, if any. -/
def peek (c : Cursor) : Option Char := c.rest.head?

end Cursor

/-- A node for a fault that both readings meet at the same place. -/
def Node.fail (f : Fault) (p : Pos) : Node := .broken ⟨f, p⟩ ⟨f, p⟩

/-- Whether a node is broken. -/
def Node.isBroken : Node → Bool
  | .broken _ _ => true
  | _ => false

/-! ## Literals and numbers -/

/-- Reads the rest of `null`, `true` or `false` after its first letter. -/
def readIdent : List Char → Cursor → Option Located × Cursor
  | [], c => (none, c)
  | e :: es, c =>
    match c.rest with
    | [] => (some ⟨.eofValue, c.pos⟩, c)
    | x :: _ =>
      let c' := c.advance
      if x = e then readIdent es c' else (some ⟨.expectedIdent, c'.pos⟩, c')

/-- Whether a character is a decimal digit. -/
def isDigit (c : Char) : Bool := '0' ≤ c && c ≤ '9'

/-- The value of a decimal digit. -/
def digitValue (c : Char) : Nat := c.toNat - 48

/-- Whether appending digit `d` to `sig` would pass `bound`. -/
def overflows (sig d bound : Nat) : Bool :=
  sig ≥ bound / 10 && (sig > bound / 10 || d > bound % 10)

/-- `10 ^ e` as a binary64, correctly rounded. -/
def powTen (e : Nat) : Float := Float.ofScientific 1 false e

/-- Scales a significand by a power of ten the way a fast reader does: the
significand is rounded to binary64 and then multiplied or divided once by the
binary64 power of ten, stepping by `1e308` below that range. A result that
overflows is `none`. -/
def scaleDecimal (sig : Nat) (exp : Int) : Option Float :=
  go (exp.natAbs / 308 + 2) sig.toUInt64.toFloat exp
where
  go : Nat → Float → Int → Option Float
    | 0, f, _ => some f
    | fuel + 1, f, e =>
      if e.natAbs ≤ 308 then
        if 0 ≤ e then
          let g := f * powTen e.toNat
          if g.isInf then none else some g
        else some (f / powTen e.natAbs)
      else if f == 0 then some f
      else if 0 ≤ e then none
      else go fuel (f / powTen 308) (e + 308)

/-- Clamps an integer to the signed 32-bit range. -/
def clampI32 (x : Int) : Int := max (-2147483648) (min 2147483647 x)

/-- Takes the leading decimal digits. -/
def spanDigits (cs : List Char) : List Char × List Char :=
  (cs.takeWhile isDigit, cs.dropWhile isDigit)

/-- Accumulates digits into a significand until the next would pass 64 bits;
returns the significand and the digits that did not fit. -/
def accumulate (sig : Nat) : List Char → Nat × List Char
  | [] => (sig, [])
  | d :: ds =>
    if overflows sig (digitValue d) 18446744073709551615 then (sig, d :: ds)
    else accumulate (sig * 10 + digitValue d) ds

/-- Accumulates exponent digits; the digit that would pass 32 bits is taken
and the place after it returned instead. -/
def accumulateExponent (e : Nat) (p : Pos) : List Char → Nat ⊕ Pos
  | [] => .inl e
  | d :: ds =>
    let p' := p.after d
    if overflows e (digitValue d) 2147483647 then .inr p'
    else accumulateExponent (e * 10 + digitValue d) p' ds

/-- A number read so far: its sign and significand and its decimal exponent. -/
structure Mantissa where
  positive : Bool
  significand : Nat
  exponent : Int

/-- The binary64 number of a mantissa, or the out-of-range fault at `p`. -/
def Mantissa.toFloat (m : Mantissa) (p : Pos) : Except Located Number :=
  match scaleDecimal m.significand m.exponent with
  | none => .error ⟨.numberOutOfRange, p⟩
  | some f => .ok (.float (if m.positive then f else -f))

/-- The number of an integer without fraction or exponent: a natural, a
negative 64-bit integer, or, for `-0` and integers below `-2 ^ 63`, a float. -/
def integerNumber (positive : Bool) (sig : Nat) : Number :=
  if positive then .natural sig.toUInt64
  else if sig = 0 ∨ sig > 9223372036854775808 then .float (-(sig.toUInt64.toFloat))
  else .negative (Int64.ofInt (-(sig : Int)))

/-- Reads an exponent: `c` stands at `e` or `E`. -/
def readExponent (start : Pos) (m : Mantissa) (c : Cursor) : Node × Cursor :=
  let c := c.advance
  let (positiveExp, c) :=
    match c.rest with
    | '+' :: _ => (true, c.advance)
    | '-' :: _ => (false, c.advance)
    | _ => (true, c)
  match c.rest with
  | [] => (.broken ⟨.eofValue, c.pos⟩ ⟨.invalidNumber, c.pos⟩, c)
  | x :: _ =>
    if ¬ isDigit x then
      let c' := c.advance
      (Node.fail .invalidNumber c'.pos, c')
    else
      let (ds, rest) := spanDigits c.rest
      let after : Cursor := ⟨rest, c.pos.afterAll ds⟩
      match accumulateExponent (digitValue x) (c.pos.after x) ds.tail with
      | .inl e =>
        let exp := clampI32 (if positiveExp then m.exponent + e else m.exponent - e)
        (.number ({ m with exponent := exp }.toFloat after.pos) start after.pos, after)
      | .inr p =>
        if m.significand ≠ 0 ∧ positiveExp then
          (.number (.error ⟨.numberOutOfRange, p⟩) start after.pos, after)
        else
          (.number (.ok (.float (if m.positive then 0 else -0.0))) start after.pos, after)

/-- Reads a fraction: `c` stands at the point. Digits beyond 64 bits of
significand are skipped. -/
def readFraction (start : Pos) (m : Mantissa) (c : Cursor) : Node × Cursor :=
  let c := c.advance
  let (ds, rest) := spanDigits c.rest
  if ds = [] then
    let strict := if rest = [] then Fault.eofValue else .invalidNumber
    (.broken ⟨strict, c.peekPos⟩ ⟨.invalidNumber, c.peekPos⟩, c)
  else
    let (sig, dropped) := accumulate m.significand ds
    let taken := ds.length - dropped.length
    let m' : Mantissa := ⟨m.positive, sig, m.exponent - taken⟩
    let after : Cursor := ⟨rest, c.pos.afterAll ds⟩
    match rest with
    | 'e' :: _ | 'E' :: _ => readExponent start m' after
    | _ => (.number (m'.toFloat after.pos) start after.pos, after)

/-- Reads what follows the integer digits of a number. `long` says that some
integer digits did not fit 64 bits; each of them raised the exponent. -/
def readAfterInteger (start : Pos) (m : Mantissa) (long : Bool) (c : Cursor) : Node × Cursor :=
  match c.rest with
  | '.' :: _ => readFraction start m c
  | 'e' :: _ | 'E' :: _ => readExponent start m c
  | _ =>
    if long then (.number (m.toFloat c.pos) start c.pos, c)
    else (.number (.ok (integerNumber m.positive m.significand)) start c.pos, c)

/-- Reads a number: `c` stands at its first character, a minus or a digit. -/
def readNumber (c : Cursor) : Node × Cursor :=
  let start := c.pos
  let (positive, c1) := match c.rest with
    | '-' :: _ => (false, c.advance)
    | _ => (true, c)
  match c1.rest with
  | [] => (.broken ⟨.eofValue, c1.pos⟩ ⟨.invalidNumber, c1.pos⟩, c1)
  | x :: _ =>
    if x = '0' then
      let c2 := c1.advance
      match c2.rest with
      | y :: _ =>
        if isDigit y then (Node.fail .invalidNumber c2.peekPos, c2)
        else readAfterInteger start ⟨positive, 0, 0⟩ false c2
      | [] => readAfterInteger start ⟨positive, 0, 0⟩ false c2
    else if isDigit x then
      let (ds, rest) := spanDigits c1.rest
      let c2 : Cursor := ⟨rest, c1.pos.afterAll ds⟩
      let (sig, dropped) := accumulate 0 ds
      readAfterInteger start ⟨positive, sig, dropped.length⟩ (dropped ≠ []) c2
    else
      let c2 := c1.advance
      (Node.fail .invalidNumber c2.pos, c2)

/-! ## Strings -/

/-- The value of a hex digit. -/
def hexValue (c : Char) : Option Nat :=
  if '0' ≤ c ∧ c ≤ '9' then some (c.toNat - 48)
  else if 'a' ≤ c ∧ c ≤ 'f' then some (c.toNat - 87)
  else if 'A' ≤ c ∧ c ≤ 'F' then some (c.toNat - 55)
  else none

/-- Advances a place by `n` bytes of the text `cs`; a character is entered
byte by byte. -/
def Pos.afterBytes (p : Pos) : List Char → Nat → Pos
  | _, 0 => p
  | [], _ => p
  | x :: xs, n =>
    if x.utf8Size ≤ n then Pos.afterBytes (p.after x) xs (n - x.utf8Size)
    else ⟨p.line, p.column + n⟩

/-- Reads four hex digits after `\u`: the code unit and the cursor after the
four bytes, or the fault. -/
def readHex4 (c : Cursor) : Except Located (Nat × Cursor) :=
  let bytes := (c.rest.take 4).foldl (fun n x => n + x.utf8Size) 0
  if bytes < 4 then
    .error ⟨.eofString, c.pos.afterAll c.rest⟩
  else
    match c.rest with
    | a :: b :: d :: e :: rest =>
      match hexValue a, hexValue b, hexValue d, hexValue e with
      | some va, some vb, some vd, some ve =>
        .ok (va * 4096 + vb * 256 + vd * 16 + ve, ⟨rest, c.pos.afterAll [a, b, d, e]⟩)
      | _, _, _, _ => .error ⟨.invalidEscape, c.pos.afterBytes c.rest 4⟩
    | _ => .error ⟨.invalidEscape, c.pos.afterBytes c.rest 4⟩

/-- Whether a code unit is a leading (high) surrogate. -/
def isLeadSurrogate (n : Nat) : Bool := 0xD800 ≤ n && n ≤ 0xDBFF

/-- Whether a code unit is a trailing (low) surrogate. -/
def isTrailSurrogate (n : Nat) : Bool := 0xDC00 ≤ n && n ≤ 0xDFFF

/-- The strict reading of a string so far: its characters, or its fault. -/
abbrev StrictText := Except Located (List Char)

/-- Records a character in the strict reading, unless it already failed. -/
def StrictText.push (s : StrictText) (x : Char) : StrictText := s.map (· ++ [x])

/-- Records a strict fault, unless there is an earlier one. -/
def StrictText.fault (s : StrictText) (l : Located) : StrictText :=
  match s with
  | .ok _ => .error l
  | e => e

/-- The strict fault of a string that the lenient reading also fails at `l`:
the strict reading's own earlier fault, if it has one. -/
def StrictText.orFault (s : StrictText) (l : Located) : Located :=
  match s with
  | .error l0 => l0
  | .ok _ => l

/-- The simple escapes and the characters they stand for. -/
def simpleEscape (c : Char) : Option Char :=
  if c = '"' then some '"' else if c = '\\' then some '\\' else if c = '/' then some '/'
  else if c = 'b' then some (Char.ofNat 8) else if c = 'f' then some (Char.ofNat 12)
  else if c = 'n' then some '\n' else if c = 'r' then some '\r' else if c = 't' then some '\t'
  else none

/-- Reads the body of a string after its opening quote. The lenient reading
decides where the string ends; the strict reading is carried along. -/
def readStringBody : Nat → StrictText → Cursor → (Except (Located × Located) StrictText) × Cursor
  | 0, s, c => (.ok s, c)
  | fuel + 1, s, c =>
    match c.rest with
    | [] => (.error (⟨.eofString, c.pos⟩, ⟨.eofString, c.pos⟩), c)
    | x :: _ =>
      if x = '"' then (.ok s, c.advance)
      else if x.toNat < 32 then
        let strict := match s with
          | .error l => l
          | .ok _ => ⟨.controlCharacter, c.advance.pos⟩
        (.error (strict, ⟨.controlCharacter, c.pos⟩), c)
      else if x = '\\' then
        let c1 := c.advance
        match c1.rest with
        | [] => (.error (⟨.eofString, c1.pos⟩, ⟨.eofString, c1.pos⟩), c1)
        | e :: _ =>
          let c2 := c1.advance
          match simpleEscape e with
          | some ch => readStringBody fuel (s.push ch) c2
          | none =>
            if e = 'u' then
              match readHex4 c2 with
              | .error l => (.error (s.orFault l, l), c2)
              | .ok (n, c3) =>
                if isTrailSurrogate n then
                  readStringBody fuel (s.fault ⟨.loneLeadingSurrogate, c3.pos⟩) c3
                else if ¬ isLeadSurrogate n then
                  readStringBody fuel (s.push (Char.ofNat n)) c3
                else
                  -- a leading surrogate must be followed by `\u` and a trailing one
                  match c3.rest with
                  | [] => (.error (s.orFault ⟨.eofString, c3.pos⟩,
                      ⟨.eofString, c3.pos⟩), c3)
                  | y :: _ =>
                    if y ≠ '\\' then
                      readStringBody fuel (s.fault ⟨.unexpectedEndOfHexEscape, c3.advance.pos⟩) c3
                    else
                      let c4 := c3.advance
                      match c4.rest with
                      | [] => (.error (s.orFault ⟨.eofString, c4.pos⟩,
                          ⟨.eofString, c4.pos⟩), c4)
                      | z :: _ =>
                        if z ≠ 'u' then
                          -- the lenient reading takes this as an ordinary escape
                          readStringBody fuel (s.fault ⟨.unexpectedEndOfHexEscape, c4.advance.pos⟩) c3
                        else
                          match readHex4 c4.advance with
                          | .error l => (.error (s.orFault l, l), c4.advance)
                          | .ok (n2, c5) =>
                            if isTrailSurrogate n2 then
                              let code := ((n - 0xD800) * 1024 + (n2 - 0xDC00)) + 0x10000
                              readStringBody fuel (s.push (Char.ofNat code)) c5
                            else
                              readStringBody fuel (s.fault ⟨.loneLeadingSurrogate, c5.pos⟩) c5
            else
              let l : Located := ⟨.invalidEscape, c2.pos⟩
              (.error (s.orFault l, l), c2)
      else
        -- plain characters up to the next quote, escape or control character
        let plain := c.rest.takeWhile (fun y => y ≠ '"' ∧ y ≠ '\\' ∧ 32 ≤ y.toNat)
        readStringBody fuel (plain.foldl StrictText.push s) (c.advanceBy plain.length)

/-- Reads a string: `c` stands after its opening quote. -/
def readString (start : Pos) (c : Cursor) : Node × Cursor :=
  match readStringBody (c.rest.length + 1) (.ok []) c with
  | (.error (strict, lenient), c') => (.broken strict lenient, c')
  | (.ok s, c') => (.string (s.map String.ofList) start c'.pos, c')

/-! ## Values, arrays and objects -/

mutual

/-- Reads one value after blanks. -/
def readValue : Nat → Cursor → Node × Cursor
  | 0, c => (Node.fail .eofValue c.pos, c)
  | fuel + 1, c0 =>
    let c := c0.blanks
    match c.rest with
    | [] => (Node.fail .eofValue c.pos, c)
    | x :: _ =>
      if x = 'n' ∨ x = 't' ∨ x = 'f' then
        let word := if x = 'n' then "ull" else if x = 't' then "rue" else "alse"
        match readIdent word.toList c.advance with
        | (some l, c') => (.broken l l, c')
        | (none, c') =>
          if x = 'n' then (.null c.pos c'.pos, c') else (.bool (x = 't') c.pos c'.pos, c')
      else if x = '-' ∨ isDigit x then readNumber c
      else if x = '"' then readString c.pos c.advance
      else if x = '[' then readItems fuel c.pos [] true c.advance
      else if x = '{' then readMembers fuel c.pos [] true c.advance
      else (Node.fail .expectedValue c.peekPos, c)

/-- Reads array elements; `first` says that no element was read yet. -/
def readItems : Nat → Pos → List Node → Bool → Cursor → Node × Cursor
  | 0, start, acc, _, c => (.array start (acc ++ [Node.fail .eofList c.pos]) none, c)
  | fuel + 1, start, acc, first, c0 =>
    let c := c0.blanks
    let stop (n : Node) (c' : Cursor) : Node × Cursor := (.array start (acc ++ [n]) none, c')
    match c.rest with
    | [] => stop (Node.fail .eofList c.pos) c
    | ']' :: _ => let c' := c.advance; (.array start acc (some c'.pos), c')
    | x :: _ =>
      if first then
        let (item, c') := readValue fuel c
        if item.isBroken then stop item c' else readItems fuel start (acc ++ [item]) false c'
      else if x = ',' then
        let c1 := c.advance.blanks
        match c1.rest with
        | ']' :: _ => stop (.broken ⟨.trailingComma, c1.peekPos⟩ ⟨.expectedValue, c1.peekPos⟩) c1
        | [] => stop (Node.fail .eofValue c1.pos) c1
        | _ =>
          let (item, c') := readValue fuel c1
          if item.isBroken then stop item c' else readItems fuel start (acc ++ [item]) false c'
      else stop (Node.fail .expectedListCommaOrEnd c.peekPos) c

/-- Reads object members; `first` says that no member was read yet. -/
def readMembers : Nat → Pos → List (Option Key × Node) → Bool → Cursor → Node × Cursor
  | 0, start, acc, _, c => (.object start (acc ++ [(none, Node.fail .eofObject c.pos)]) none, c)
  | fuel + 1, start, acc, first, c0 =>
    let c := c0.blanks
    let stop (n : Node) (c' : Cursor) : Node × Cursor := (.object start (acc ++ [(none, n)]) none, c')
    let member (c1 : Cursor) : Node × Cursor :=
      match c1.rest with
      | '"' :: _ =>
        match readString c1.pos c1.advance with
        | (.broken s l, c') => stop (.broken s l) c'
        | (.string text _ keyEnd, c2) =>
          let c3 := c2.blanks
          let key : Key := ⟨text, keyEnd, c3.pos⟩
          let stopAfterKey (n : Node) (c' : Cursor) : Node × Cursor :=
            (.object start (acc ++ [(some key, n)]) none, c')
          match c3.rest with
          | ':' :: _ =>
            let (value, c4) := readValue fuel c3.advance
            if value.isBroken then stopAfterKey value c4
            else readMembers fuel start (acc ++ [(some key, value)]) false c4
          | [] => stopAfterKey (Node.fail .eofObject c3.pos) c3
          | _ => stopAfterKey (Node.fail .expectedColon c3.peekPos) c3
        | (_, c') => stop (Node.fail .eofString c'.pos) c'
      | _ => stop (Node.fail .keyMustBeString c1.peekPos) c1
    match c.rest with
    | [] => stop (Node.fail .eofObject c.pos) c
    | '}' :: _ => let c' := c.advance; (.object start acc (some c'.pos), c')
    | x :: _ =>
      if first then member c
      else if x = ',' then
        let c1 := c.advance.blanks
        match c1.rest with
        | '}' :: _ => stop (.broken ⟨.trailingComma, c1.peekPos⟩ ⟨.keyMustBeString, c1.peekPos⟩) c1
        | [] => stop (.broken ⟨.eofValue, c1.pos⟩ ⟨.eofObject, c1.pos⟩) c1
        | _ => member c1
      else stop (Node.fail .expectedObjectCommaOrEnd c.peekPos) c

end

/-- A text read as one value: the tree, and the fault of anything but blanks
after it. -/
structure Document where
  root : Node
  trailing : Option Located

/-- Reads a whole text. -/
def readDocument (text : String) : Document :=
  let cs := text.toList
  let (root, c) := readValue (cs.length + 2) ⟨cs, ⟨1, 0⟩⟩
  let c' := c.blanks
  let trailing := match c'.rest with
    | [] => none
    | _ => some ⟨.trailingCharacters, c'.peekPos⟩
  ⟨root, trailing⟩

end LotBridge.Json
