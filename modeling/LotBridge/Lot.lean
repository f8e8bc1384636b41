import LotBridge.Line
import LotBridge.Json.Decode
import LotBridge.Json.Writer

/-!
# Production lots

A lot record comes from the production database: a 32-bit id and any number
of named attributes, carried along for display. The record form writes the
id first and then the attributes, sorted by name, all in one object; reading
takes `id` and keeps every other member as an attribute.

A lot is active on a line from its activation on. The active lot keeps a
snapshot of its record as it was then, and the time of activation.

## Main definitions

* `LotRecord`, `LotRecord.withAttribute`, `LotRecord.attribute?`.
* `LotRecord.toJson`, `LotRecord.decoder`: the record form.
* `ActiveLot`, `Completion`: a lot on a line, and a lot finished on it.
* `ActiveLot.toJson`, `Completion.toJson`: their record forms.
-/

namespace LotBridge

open LotBridge.Json

/-- A lot record: its id and its attributes, sorted by name, one value per
name. -/
structure LotRecord where
  id : Nat
  attributes : List (String × Json) := []
deriving Inhabited

namespace LotRecord

/-- Sets an attribute, replacing a value of the same name. -/
def withAttribute (r : LotRecord) (name : String) (value : Json) : LotRecord :=
  { r with attributes := Fields.insert name value r.attributes }

/-- The value of an attribute. -/
def attribute? (r : LotRecord) (name : String) : Option Json :=
  (r.attributes.find? (·.1 == name)).map (·.2)

/-- The record form: the id first, then the attributes in name order. An
attribute named `id` is written as well, after the id. -/
def toJson (r : LotRecord) : Json := .object (("id", Json.nat r.id) :: r.attributes)

/-- The state of a record while it is read: the id, once seen. -/
abbrev Partial := Option Nat

/-- The members of the record form besides the attributes. -/
def fields : List (Json.Field Partial) :=
  [Json.Field.of "id" (Decoder.uint 32 "u32") fun v _ => some v]

/-- Reads a record: `id` is required, and every other member is an attribute;
of two members with one name, the later wins. -/
def decoder : Decoder LotRecord :=
  decodeStruct "LotRecord" fields none (fun s _ left => do
    let id ← required "id" s
    let pairs ← left.mapM fun (k, n) => (n.toJson).map (k, ·)
    pure ⟨id, Fields.ofPairs pairs⟩) true 1

end LotRecord

/-- The lot active on a line: its id, the snapshot of its record taken at
activation, and the clock reading then, in milliseconds. -/
structure ActiveLot where
  line : Line
  lotId : Nat
  snapshot : LotRecord
  activatedAt : Nat
deriving Inhabited

/-- The record form of an active lot, fields in declaration order: the line
as its number, the lot id, the snapshot's record form and the activation
time. -/
def ActiveLot.toJson (a : ActiveLot) : Json :=
  .object [("line", Json.nat a.line.number), ("lot_id", Json.nat a.lotId),
    ("lot_snapshot", a.snapshot.toJson), ("activated_at_ms", Json.nat a.activatedAt)]

/-- Activates a record on a line at time `now`; the lot takes the record's id. -/
def ActiveLot.ofRecord (line : Line) (r : LotRecord) (now : Nat) : ActiveLot :=
  ⟨line, r.id, r, now⟩

/-- A lot finished on its line: how many units it yielded, when it was
activated and when it was finished. -/
structure Completion where
  line : Line
  lotId : Nat
  actualCount : Nat
  activatedAt : Nat
  completedAt : Nat
deriving DecidableEq, Repr

/-- The completion of an active lot at time `now`. -/
def Completion.ofActive (lot : ActiveLot) (count now : Nat) : Completion :=
  ⟨lot.line, lot.lotId, count, lot.activatedAt, now⟩

/-- The record form of a completion, fields in declaration order. -/
def Completion.toJson (c : Completion) : Json :=
  .object [("line", Json.nat c.line.number), ("lot_id", Json.nat c.lotId),
    ("actual_count", Json.nat c.actualCount), ("activated_at_ms", Json.nat c.activatedAt),
    ("completed_at_ms", Json.nat c.completedAt)]

theorem ofRecord_lotId (line : Line) (r : LotRecord) (now : Nat) :
    (ActiveLot.ofRecord line r now).lotId = r.id := rfl

end LotBridge
