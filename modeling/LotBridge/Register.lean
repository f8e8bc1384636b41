import LotBridge.Line

/-!
# Registers of the line controller

A line controller exposes one register per line and component holding the
active lot, named `Lijn<n>_<component>_nr_actieve_partij`, and a register
`last_updated` with the time of the last write. A register is addressed
within a namespace of the gateway by its index: `ns=<index>;s=<name>`.

## Main definitions

* `RegisterKey`: a register name.
* `RegisterKey.activeLot`, `RegisterKey.lastUpdated`, `RegisterKey.parse`.
* `Address`, `Address.render`.
-/

namespace LotBridge

/-- The name of a register on a line controller. -/
structure RegisterKey where
  name : String
deriving DecidableEq, Repr, Inhabited

namespace RegisterKey

/-- The register holding the active lot of a component of a line. -/
def activeLot (line : Line) (component : Component) : RegisterKey :=
  ⟨"Lijn" ++ toString line.number ++ "_" ++ component.name ++ "_nr_actieve_partij"⟩

/-- The register holding the time of the last write. -/
def lastUpdated : RegisterKey := ⟨"last_updated"⟩

/-- The active-lot register named by a line number and a component name; the
line is checked first. -/
def parse (line : Nat) (component : String) : Except BadAddress RegisterKey := do
  let l ← Line.ofNumber line
  let c ← Component.parse component
  pure (activeLot l c)

/-- The four active-lot registers and `last_updated`. -/
def all : List RegisterKey :=
  [activeLot .one .pc, activeLot .one .os, activeLot .two .pc, activeLot .two .os, lastUpdated]

end RegisterKey

/-- A register resolved within a namespace of the gateway. -/
structure Address where
  namespaceIndex : Nat
  key : RegisterKey
deriving DecidableEq, Repr

/-- The text of an address: `ns=<index>;s=<name>`. -/
def Address.render (a : Address) : String :=
  "ns=" ++ toString a.namespaceIndex ++ ";s=" ++ a.key.name

theorem RegisterKey.activeLot_injective {l₁ l₂ : Line} {c₁ c₂ : Component}
    (h : activeLot l₁ c₁ = activeLot l₂ c₂) : l₁ = l₂ ∧ c₁ = c₂ := by
  cases l₁ <;> cases l₂ <;> cases c₁ <;> cases c₂ <;> simp_all [activeLot, Line.number, Component.name] <;>
    revert h <;> decide

end LotBridge
