import LotBridge.Lot

/-!
# Lot repositories

Where lot records are looked up by id. A lookup fails when no record has the
id or when the repository cannot be reached. `Repository` keeps records in
memory, one per id: a record inserted later replaces the one with its id.

## Main definitions

* `RepositoryError`, `Lookup`: a lookup and how it fails.
* `Repository`: records in memory, with `insert`, `get?` and `size`.
-/

namespace LotBridge

/-- Why a lookup failed. -/
inductive RepositoryError where
  | notFound (lotId : Nat)
  | unavailable (reason : String)
deriving DecidableEq, Repr

/-- The wording of a failed lookup. -/
def RepositoryError.message : RepositoryError → String
  | .notFound id => "lot " ++ toString id ++ " not found"
  | .unavailable r => "lot repository unavailable: " ++ r

/-- Looks a lot record up by id. -/
abbrev Lookup := Nat → Except RepositoryError LotRecord

/-- Records kept in memory, at most one per id. -/
structure Repository where
  records : List LotRecord := []
deriving Inhabited

namespace Repository

/-- Stores a record, replacing the one with its id. -/
def insert (repo : Repository) (r : LotRecord) : Repository :=
  ⟨repo.records.filter (·.id != r.id) ++ [r]⟩

/-- A repository holding records inserted in order. -/
def ofRecords (rs : List LotRecord) : Repository := rs.foldl insert {}

/-- The number of ids with a record. -/
def size (repo : Repository) : Nat := repo.records.length

/-- The record with an id. -/
def get? (repo : Repository) : Lookup := fun id =>
  match repo.records.find? (·.id == id) with
  | some r => .ok r
  | none => .error (.notFound id)

end Repository

end LotBridge
