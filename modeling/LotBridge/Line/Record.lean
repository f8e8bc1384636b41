import LotBridge.Register
import LotBridge.Json.Decode

/-!
# Record forms of lines, components and registers

A line is written as its number, a component as its name and a register by
its name. Reading a line takes a byte and then checks it names a line; that
check is made once the byte is read, so its refusal carries no place.

## Main definitions

* `Line.decoder`, `Component.decoder`, `RegisterKey.decoder`.
-/

namespace LotBridge

open LotBridge.Json

/-- Reads a line from its number. -/
def Line.decoder : Decoder Line := fun src n => do
  let b ← Decoder.uint 8 "u8" src n
  match Line.ofNumber b with
  | .ok l => pure l
  | .error bad => refuse bad.message

/-- Reads a component from its name, in upper case only. -/
def Component.decoder : Decoder Component :=
  Decoder.unitEnum [("PC", .pc), ("OS", .os)]

/-- Reads a register name; any string is one. -/
def RegisterKey.decoder : Decoder RegisterKey := fun src n =>
  (Decoder.string src n).map (⟨·⟩)

end LotBridge
