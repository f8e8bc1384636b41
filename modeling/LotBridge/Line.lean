import LotBridge.Text.Blank
import LotBridge.Text.Unsigned

/-!
# Potting lines and their components

The plant has two potting lines, numbered 1 and 2. Each line has two
components whose active lot is kept in a register of the line's controller:
the potting machine (`PC`) and the second station (`OS`).

Operators name a line by its number and a component by its two letters in
any ASCII case; blanks around either are ignored. A refused name is reported
with the text the operator gave, trimmed.

## Main definitions

* `Line`, `Component`: the two lines and the two components.
* `BadAddress`: a line or component name that names nothing.
* `Line.ofNumber`, `Line.parse`, `Component.parse`: reading them.
-/

namespace LotBridge

/-- The two potting lines. -/
inductive Line where
  | one
  | two
deriving DecidableEq, Repr, Inhabited

/-- The two components of a line. -/
inductive Component where
  | pc
  | os
deriving DecidableEq, Repr, Inhabited

/-- A line or component name that names nothing, with the name as given. -/
inductive BadAddress where
  | line (text : String)
  | component (text : String)
deriving DecidableEq, Repr

/-- The wording of a bad address. -/
def BadAddress.message : BadAddress → String
  | .line t => "invalid line '" ++ t ++ "' (expected 1 or 2)"
  | .component t => "invalid component '" ++ t ++ "' (expected PC or OS)"

namespace Line

/-- Both lines, line 1 first. -/
def all : List Line := [.one, .two]

/-- The number of a line. -/
def number : Line → Nat
  | .one => 1
  | .two => 2

/-- The position of a line in `all`. -/
def index : Line → Nat
  | .one => 0
  | .two => 1

/-- The line with a number; other numbers are refused with their decimal text. -/
def ofNumber (n : Nat) : Except BadAddress Line :=
  if n = 1 then .ok .one else if n = 2 then .ok .two else .error (.line (toString n))

/-- Reads a line number: blanks trimmed, then an optional `+` and ASCII digits
of a byte. Text that is no byte is refused as it was given, trimmed; a byte
other than 1 and 2 by its decimal value. -/
def parse (s : String) : Except BadAddress Line :=
  let t := Text.trim s
  match Text.readUnsigned 256 t with
  | .ok n => ofNumber n
  | .error _ => .error (.line t)

theorem ofNumber_number (l : Line) : ofNumber l.number = .ok l := by
  cases l <;> rfl

theorem number_ofNumber {n : Nat} {l : Line} (h : ofNumber n = .ok l) : l.number = n := by
  unfold ofNumber at h
  split at h
  · cases h; simp_all [number]
  · split at h
    · cases h; simp_all [number]
    · cases h

end Line

namespace Component

/-- Both components, `PC` first. -/
def all : List Component := [.pc, .os]

/-- The two-letter name of a component. -/
def name : Component → String
  | .pc => "PC"
  | .os => "OS"

/-- Reads a component name: blanks trimmed, ASCII letters compared without
case. A refused name is reported trimmed, in its own case. -/
def parse (s : String) : Except BadAddress Component :=
  let t := Text.trim s
  let upper := String.ofList (t.toList.map Char.toUpper)
  if upper = "PC" then .ok .pc else if upper = "OS" then .ok .os else .error (.component t)

end Component

end LotBridge
