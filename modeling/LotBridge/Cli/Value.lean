/-!
# Reading argument values

A value on a command line is text; an argument says how it is read.

Whole numbers are read as 64-bit signed integers: an optional sign, then
decimal digits, refused at the first character that is not a digit and at
the first digit that carries the number out of the 64-bit range. An argument
then checks the number against its own range.

Socket addresses are an IPv4 address and a port, `a.b.c.d:port`, or an
IPv6 address in brackets with an optional numeric scope and a port,
`[x:y::z%scope]:port`. An IPv4 part is a decimal number up to 255 without
leading zeros; an IPv6 group has one to four hexadecimal digits, one run of
zero groups may be written `::`, and the last two groups may be written as an
IPv4 address. The port is a decimal number below 65536.

## Main definitions

* `IntProblem`, `readInt64`: whole numbers.
* `SocketAddress`, `readSocketAddress`: socket addresses.
-/

namespace LotBridge.Cli

/-- Why a text is not a 64-bit signed integer. -/
inductive IntProblem where
  | empty
  | invalidDigit
  | tooLarge
  | tooSmall
deriving DecidableEq, Repr

/-- The problem as the reader words it. -/
def IntProblem.message : IntProblem → String
  | .empty => "cannot parse integer from empty string"
  | .invalidDigit => "invalid digit found in string"
  | .tooLarge => "number too large to fit in target type"
  | .tooSmall => "number too small to fit in target type"

/-- The largest 64-bit signed integer. -/
def int64Max : Int := 9223372036854775807

/-- The smallest 64-bit signed integer. -/
def int64Min : Int := -9223372036854775808

/-- Reads decimal digits onto `acc`, away from zero in the direction of the
sign. -/
def digitsOnto (negative : Bool) : List Char → Int → Except IntProblem Int
  | [], acc => .ok acc
  | c :: cs, acc =>
    if c.isDigit then
      let d : Int := (c.toNat - '0'.toNat : Nat)
      let next := if negative then acc * 10 - d else acc * 10 + d
      if next > int64Max then .error .tooLarge
      else if next < int64Min then .error .tooSmall
      else digitsOnto negative cs next
    else .error .invalidDigit

/-- Reads a 64-bit signed integer. -/
def readInt64 (s : String) : Except IntProblem Int :=
  match s.toList with
  | [] => .error .empty
  | ['+'] | ['-'] => .error .invalidDigit
  | '+' :: cs => digitsOnto false cs 0
  | '-' :: cs => digitsOnto true cs 0
  | cs => digitsOnto false cs 0

theorem readInt64_empty : readInt64 "" = .error .empty := rfl

/-- The value of a digit in base `radix`. -/
def digitIn (radix : Nat) (c : Char) : Option Nat :=
  let v := if c.isDigit then some (c.toNat - 48)
    else if 'a' ≤ c ∧ c ≤ 'z' then some (c.toNat - 87)
    else if 'A' ≤ c ∧ c ≤ 'Z' then some (c.toNat - 55)
    else none
  v.filter (· < radix)

/-- Reads as many digits as follow, onto `acc`; fails when the number
reaches `bound` or has more than `most` digits. Gives the number, how many
digits it had and what follows. -/
def digitRun (radix bound : Nat) (most : Option Nat) :
    List Char → Nat → Nat → Option (Nat × Nat × List Char)
  | [], acc, count => some (acc, count, [])
  | c :: rest, acc, count =>
    match digitIn radix c with
    | none => some (acc, count, c :: rest)
    | some d =>
      let acc := acc * radix + d
      if bound ≤ acc || most.any (· < count + 1) then none
      else digitRun radix bound most rest acc (count + 1)

/-- Reads a number of at least one digit; a leading zero of a longer number
is refused unless `zeros` allows it. -/
def readNumber (radix bound : Nat) (most : Option Nat) (zeros : Bool) (cs : List Char) :
    Option (Nat × List Char) := do
  let (v, count, rest) ← digitRun radix bound most cs 0 0
  if count = 0 then none
  else if !zeros && cs.head? == some '0' && count > 1 then none
  else some (v, rest)

/-- A number has at least one digit. -/
theorem readNumber_nil (radix bound : Nat) (most : Option Nat) (zeros : Bool) :
    readNumber radix bound most zeros [] = none := rfl

/-- Reads `c` itself. -/
def expect (c : Char) : List Char → Option (List Char)
  | d :: rest => if c = d then some rest else none
  | [] => none

/-- Reads `n` more parts of an IPv4 address, each after a dot. -/
def dottedParts : Nat → List Char → Option (List Nat × List Char)
  | 0, cs => some ([], cs)
  | n + 1, cs => do
    let (x, cs) ← readNumber 10 256 (some 3) false (← expect '.' cs)
    let (xs, cs) ← dottedParts n cs
    some (x :: xs, cs)

/-- Reads an IPv4 address: its four parts. -/
def readIpv4 (cs : List Char) : Option (List Nat × List Char) := do
  let (a, cs) ← readNumber 10 256 (some 3) false cs
  let (rest, cs) ← dottedParts 3 cs
  some (a :: rest, cs)

/-- The two 16-bit groups an IPv4 address stands for. -/
def ipv4Groups : List Nat → List Nat
  | [a, b, c, d] => [a * 256 + b, c * 256 + d]
  | _ => []

/-- Reads up to `k` more colon-separated IPv6 groups onto `acc` (of `limit`
in all), the last two of which may be an IPv4 address; says whether one
was, and gives what follows the last group read. -/
def ipv6Groups (limit : Nat) : Nat → List Nat → List Char → List Nat × Bool × List Char
  | 0, acc, cs => (acc, false, cs)
  | k + 1, acc, cs =>
    let afterSep := if acc.length > 0 then expect ':' cs else some cs
    let v4 := if acc.length + 1 < limit then afterSep.bind readIpv4 else none
    match v4 with
    | some (octets, rest) => (acc ++ ipv4Groups octets, true, rest)
    | none =>
      match afterSep.bind (readNumber 16 65536 (some 4) true) with
      | some (g, rest) => ipv6Groups limit k (acc ++ [g]) rest
      | none => (acc, false, cs)

/-- Reads an IPv6 address: its eight groups. -/
def readIpv6 (cs : List Char) : Option (List Nat × List Char) :=
  let (head, headV4, rest) := ipv6Groups 8 8 [] cs
  if head.length = 8 then some (head, rest)
  else if headV4 then none
  else do
    let rest ← expect ':' rest >>= expect ':'
    let limit := 8 - (head.length + 1)
    let (tail, _, rest) := ipv6Groups limit limit [] rest
    some (head ++ List.replicate (8 - head.length - tail.length) 0 ++ tail, rest)

/-- An address to listen on. -/
inductive SocketAddress where
  | v4 (parts : List Nat) (port : Nat)
  | v6 (groups : List Nat) (scope : Nat) (port : Nat)
deriving DecidableEq, Repr

/-- Reads a port after its colon. -/
def readPort (cs : List Char) : Option (Nat × List Char) :=
  expect ':' cs >>= readNumber 10 65536 none true

/-- Reads a socket address, which must be the whole text. -/
def readSocketAddress (s : String) : Option SocketAddress :=
  let cs := s.toList
  let v4 : Option (SocketAddress × List Char) := do
    let (parts, cs) ← readIpv4 cs
    let (port, cs) ← readPort cs
    some (.v4 parts port, cs)
  let v6 : Option (SocketAddress × List Char) := do
    let (groups, cs) ← readIpv6 (← expect '[' cs)
    let (scope, cs) := ((expect '%' cs).bind (readNumber 10 4294967296 none true)).getD (0, cs)
    let (port, cs) ← readPort (← expect ']' cs)
    some (.v6 groups scope port, cs)
  match v4 <|> v6 with
  | some (a, []) => some a
  | _ => none

end LotBridge.Cli
