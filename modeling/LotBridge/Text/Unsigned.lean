/-!
# Reading unsigned decimal integers

Operator text such as line numbers, environment settings and command line
arguments is read as an unsigned decimal integer of a fixed width: an
optional `+`, then ASCII digits only. The refusals are an empty text, a
character that is not a digit (a lone `+` counts as one), and a value beyond
the width.

## Main definitions

* `IntegerError`, `IntegerError.message`: the refusals and their wording.
* `readUnsigned`: the value of a text below a bound.
-/

namespace LotBridge.Text

/-- Why a text is not an unsigned integer. -/
inductive IntegerError where
  | empty
  | invalidDigit
  | tooLarge
deriving DecidableEq, Repr

/-- The wording of an integer refusal. -/
def IntegerError.message : IntegerError → String
  | .empty => "cannot parse integer from empty string"
  | .invalidDigit => "invalid digit found in string"
  | .tooLarge => "number too large to fit in target type"

/-- Accumulates ASCII digits from the left; the first character that is not a
digit, or the first digit that takes the value to `bound` or beyond, decides
the refusal. -/
def digitsValue (bound : Nat) : List Char → Nat → Except IntegerError Nat
  | [], acc => .ok acc
  | c :: cs, acc =>
    if '0' ≤ c ∧ c ≤ '9' then
      let acc' := acc * 10 + (c.toNat - 48)
      if acc' < bound then digitsValue bound cs acc' else .error .tooLarge
    else .error .invalidDigit

/-- Reads an unsigned integer below `bound`: an optional `+` and ASCII digits. -/
def readUnsigned (bound : Nat) (s : String) : Except IntegerError Nat :=
  match s.toList with
  | [] => .error .empty
  | ['+'] => .error .invalidDigit
  | '+' :: ds => digitsValue bound ds 0
  | ds => digitsValue bound ds 0

theorem readUnsigned_empty (bound : Nat) : readUnsigned bound "" = .error .empty := rfl

end LotBridge.Text
