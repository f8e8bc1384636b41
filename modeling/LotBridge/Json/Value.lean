/-!
# JSON values

The data exchanged with lot repositories, the gateway wire format and the
configuration records is JSON. A number is classified the way a reader sees
it: a non-negative integer that fits 64 bits, a negative integer that fits 64
signed bits, or a binary64 float. Objects keep their members in the order they
are to be written; a map-shaped object keeps its keys sorted and unique, which
`Json.Fields.insert` maintains.

## Main definitions

* `Json.Number`, `Json`: numbers and values.
* `Json.Fields.insert`: the sorted, last-write-wins insertion of map objects.
* `Json.get?`: member lookup.
-/

namespace LotBridge

/-- A JSON number as it was read or built: the reader keeps integers exact
whenever they fit 64 bits and falls back to binary64 otherwise. -/
inductive Json.Number where
  /-- A non-negative integer below `2 ^ 64`. -/
  | natural (n : UInt64)
  /-- A negative integer no smaller than `-2 ^ 63`. -/
  | negative (n : Int64)
  /-- Any other number, as a binary64 value. -/
  | float (f : Float)

/-- JSON values. Object members are kept as an ordered list of pairs. -/
inductive Json where
  | null
  | bool (b : Bool)
  | number (n : Json.Number)
  | string (s : String)
  | array (items : List Json)
  | object (fields : List (String × Json))

namespace Json

/-- A non-negative integer value. -/
def nat (n : Nat) : Json := .number (.natural n.toUInt64)

/-- A signed integer value: non-negative ones are naturals, as a reader
classifies them. -/
def int (i : Int) : Json :=
  if i < 0 then .number (.negative (Int64.ofInt i)) else .number (.natural i.toNat.toUInt64)

/-- An optional value, absent as `null`. -/
def opt {α : Type} (f : α → Json) : Option α → Json
  | some a => f a
  | none => .null

/-- The integer value of a number, if it is one. -/
def Number.toInt? : Number → Option Int
  | .natural n => some n.toNat
  | .negative n => some n.toInt
  | .float _ => none

namespace Fields

/-- Inserts a member into a key-sorted member list; an existing key takes the
new value, as a map would. -/
def insert (key : String) (value : Json) : List (String × Json) → List (String × Json)
  | [] => [(key, value)]
  | (k, v) :: rest =>
    if key < k then (key, value) :: (k, v) :: rest
    else if key = k then (key, value) :: rest
    else (k, v) :: insert key value rest

/-- Builds a key-sorted member list from pairs in any order; of two pairs with
one key, the later one wins. -/
def ofPairs (pairs : List (String × Json)) : List (String × Json) :=
  pairs.foldl (fun acc kv => insert kv.1 kv.2 acc) []

end Fields

/-- The members of an object, sorted by key with later duplicates winning. -/
def sortedObject (pairs : List (String × Json)) : Json := .object (Fields.ofPairs pairs)

/-- Looks up the first member named `key` of an object. -/
def get? (j : Json) (key : String) : Option Json :=
  match j with
  | .object fields => (fields.find? (·.1 == key)).map (·.2)
  | _ => none

/-- The string of a string value. -/
def getStr? : Json → Option String
  | .string s => some s
  | _ => none

/-- The elements of an array value. -/
def getArr? : Json → Option (List Json)
  | .array xs => some xs
  | _ => none

/-- The integer of an integer-valued number. -/
def getInt? : Json → Option Int
  | .number n => n.toInt?
  | _ => none

/-- The boolean of a boolean value. -/
def getBool? : Json → Option Bool
  | .bool b => some b
  | _ => none

theorem Fields.insert_ne_nil (key : String) (value : Json) (fs : List (String × Json)) :
    Fields.insert key value fs ≠ [] := by
  cases fs with
  | nil => simp [Fields.insert]
  | cons kv rest =>
    simp only [Fields.insert]
    split
    · simp
    · split <;> simp

end Json

end LotBridge
