/-!
# TOML values

The values a TOML document holds: strings, 64-bit integers, floats,
booleans, date-times, arrays and tables. A table keeps its keys in order; a
table read into a map is sorted by key, each key once.

A date-time has a date, a time or both, and with both it may carry an offset.
Its text is the date as `YYYY-MM-DD`, a `T`, the time as `HH:MM:SS` with the
fraction of a second without trailing zeros, and the offset as `Z` or
`+HH:MM`.

## Main definitions

* `Datetime`, `Datetime.render`.
* `Value`, `Value.sortKeys`, `Value.ofUnsigned`.
-/

namespace LotBridge.Toml

/-- A calendar date. -/
structure Date where
  year : Nat
  month : Nat
  day : Nat
deriving DecidableEq, Repr

/-- A time of day; `nanosecond` is the fraction of the second. -/
structure Time where
  hour : Nat
  minute : Nat
  second : Nat
  nanosecond : Nat
deriving DecidableEq, Repr

/-- The offset of a date-time from UTC: `Z`, or signed minutes. -/
inductive Offset where
  | utc
  | minutes (m : Int)
deriving DecidableEq, Repr

/-- A date-time with a date, a time or both. -/
structure Datetime where
  date : Option Date
  time : Option Time
  offset : Option Offset
deriving DecidableEq, Repr

/-- A number written with at least `width` digits. -/
def padded (width n : Nat) : String :=
  let s := toString n
  String.ofList (List.replicate (width - s.length) '0') ++ s

/-- The text of a date-time. -/
def Datetime.render (d : Datetime) : String :=
  let date := match d.date with
    | some x => padded 4 x.year ++ "-" ++ padded 2 x.month ++ "-" ++ padded 2 x.day
    | none => ""
  let time := match d.time with
    | some t =>
      let frac :=
        if t.nanosecond = 0 then ""
        else "." ++ String.ofList ((padded 9 t.nanosecond).toList.reverse.dropWhile (· = '0')).reverse
      (if d.date.isSome then "T" else "") ++ padded 2 t.hour ++ ":" ++ padded 2 t.minute ++ ":" ++
        padded 2 t.second ++ frac
    | none => ""
  let offset := match d.offset with
    | some .utc => "Z"
    | some (.minutes m) =>
      (if m < 0 then "-" else "+") ++ padded 2 (m.natAbs / 60) ++ ":" ++ padded 2 (m.natAbs % 60)
    | none => ""
  date ++ time ++ offset

/-- A TOML value. -/
inductive Value where
  | string (s : String)
  | integer (i : Int)
  | float (f : Float)
  | boolean (b : Bool)
  | datetime (d : Datetime)
  | array (items : List Value)
  | table (entries : List (String × Value))
deriving Inhabited

/-- Inserts an entry into a key-sorted list, replacing one with its key. -/
def insertSorted (key : String) (v : Value) : List (String × Value) → List (String × Value)
  | [] => [(key, v)]
  | (k, w) :: rest =>
    if key < k then (key, v) :: (k, w) :: rest
    else if key = k then (key, v) :: rest
    else (k, w) :: insertSorted key v rest

mutual

/-- The value with every table's keys sorted, as a map holds them. -/
def Value.sortKeys : Value → Value
  | .array items => .array (Value.sortItems items)
  | .table entries => .table (Value.sortEntries entries)
  | v => v

/-- Sorts the keys of the tables among array elements. -/
def Value.sortItems : List Value → List Value
  | [] => []
  | v :: rest => v.sortKeys :: Value.sortItems rest

/-- Sorts table entries by key, sorting within their values too. -/
def Value.sortEntries : List (String × Value) → List (String × Value)
  | [] => []
  | (k, v) :: rest => insertSorted k v.sortKeys (Value.sortEntries rest)

end

/-- A TOML integer from an unsigned 64-bit one. TOML integers are signed, so
one above the largest signed 64-bit integer is refused. -/
def Value.ofUnsigned (n : Nat) : Except String Value :=
  if n ≤ 9223372036854775807 then .ok (.integer n) else .error "u64 value was too large"

/-- The value of a key in a table's entries. -/
def lookup (key : String) (entries : List (String × Value)) : Option Value :=
  (entries.find? (·.1 == key)).map (·.2)

end LotBridge.Toml
