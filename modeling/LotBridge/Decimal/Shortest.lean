/-!
# Shortest decimal text of a binary64 value

A finite binary64 value `m * 2 ^ e` stands for every real number that rounds
to it: the interval reaching half-way to each neighbour, with its ends
included exactly when `m` is even. The shortest decimal text is found on the
coarsest decimal grid `10 ^ t` that has a point inside that interval; of two
such points the nearer one wins, and of two equally near the even one.

The digits are then laid out by a `Layout`, the part that differs between
printers: where positional notation stops, whether an integral value keeps
`.0`, and whether a positive exponent carries a sign.

## Main definitions

* `Binary.ofBits`: sign, significand and exponent of a binary64 value.
* `Binary.shortest`: the shortest digits that read back to the value.
* `Layout.render`: the text of those digits under a layout.
-/

namespace LotBridge.Decimal

/-- A finite binary64 value: its sign and its magnitude
`significand * 2 ^ exponent`. -/
structure Binary where
  negative : Bool
  significand : Nat
  exponent : Int
deriving Repr, DecidableEq

/-- A decimal `digits * 10 ^ exponent`. -/
structure Scientific where
  digits : Nat
  exponent : Int
deriving Repr, DecidableEq

/-- Splits binary64 bits into sign, significand and exponent; infinities and
NaN have none. -/
def Binary.ofBits (bits : UInt64) : Option Binary :=
  let b := bits.toNat
  let negative := b / 9223372036854775808 % 2 == 1
  let biased : Nat := b / 4503599627370496 % 2048
  let fraction := b % 4503599627370496
  if biased = 2047 then none
  else if biased = 0 then some ⟨negative, fraction, -1074⟩
  else some ⟨negative, fraction + 4503599627370496, (biased : Int) - 1075⟩

/-- `base ^ e` for an integer exponent, as numerator and denominator. -/
def powFraction (base : Nat) (e : Int) : Nat × Nat :=
  if 0 ≤ e then (Nat.pow base e.toNat, 1) else (1, Nat.pow base (-e).toNat)

/-- The least number that rounds to infinity as a binary64 value: half-way
from the largest finite value, `(2 ^ 53 - 1) * 2 ^ 971`, to `2 ^ 1024`; a tie
goes to the even neighbour, which is infinity. -/
def overflowThreshold : Nat := 18014398509481983 * Nat.pow 2 970

/-- Whether a decimal rounds to infinity as a binary64 value. -/
def Scientific.overflows (s : Scientific) : Bool :=
  let (num, den) := powFraction 10 s.exponent
  decide (overflowThreshold * den ≤ s.digits * num)

/-- The rounding interval of a value, in quarter units `2 ^ (exponent - 2)`:
the value itself, its lower and upper ends, and whether the ends belong to it. -/
structure Interval where
  low : Nat
  value : Nat
  high : Nat
  closed : Bool

/-- The lower neighbour of a power of two lies closer, except at the smallest
normal exponent, where the spacing below stays the same. -/
def Binary.interval (b : Binary) : Interval :=
  let m := b.significand
  let lowerGap := if m = 4503599627370496 ∧ b.exponent > -1074 then 1 else 2
  ⟨4 * m - lowerGap, 4 * m, 4 * m + 2, m % 2 == 0⟩

/-- The point of the grid `10 ^ t` inside the interval, if there is one; of two
such points the nearer, and of two equally near the one with an even count. -/
def Interval.pointOnGrid (iv : Interval) (unitNum unitDen : Nat) (t : Int) : Option Nat :=
  let (gridNum, gridDen) := powFraction 10 t
  -- every quantity below is scaled by `unitDen * gridDen`
  let value := iv.value * unitNum * gridDen
  let step := gridNum * unitDen
  let lo := iv.low * unitNum * gridDen
  let hi := iv.high * unitNum * gridDen
  let inside (c : Nat) : Bool :=
    if iv.closed then lo ≤ c * step && c * step ≤ hi else lo < c * step && c * step < hi
  let c := value / step
  match inside c, inside (c + 1) with
  | true, true =>
    let below := value - c * step
    let above := (c + 1) * step - value
    if below < above then some c
    else if above < below then some (c + 1)
    else if c % 2 = 0 then some c else some (c + 1)
  | true, false => some c
  | false, true => some (c + 1)
  | false, false => none

/-- Tries the grids `10 ^ t`, `10 ^ (t - 1)`, … for at most `fuel` steps. -/
def Interval.search (iv : Interval) (unitNum unitDen : Nat) : Nat → Int → Option Scientific
  | 0, _ => none
  | fuel + 1, t =>
    match iv.pointOnGrid unitNum unitDen t with
    | some c => some ⟨c, t⟩
    | none => iv.search unitNum unitDen fuel (t - 1)

/-- The shortest decimal that lies in the value's rounding interval, for a
nonzero value. The search starts on a grid coarser than the value, from an
estimate of its decimal magnitude, and needs at most 17 digits. -/
def Binary.shortest (b : Binary) : Scientific :=
  let iv := b.interval
  let (unitNum, unitDen) := powFraction 2 (b.exponent - 2)
  let bits : Int := (Nat.log2 iv.high + 1 : Nat)
  let start := (bits + b.exponent - 2) * 30103 / 100000 + 2
  match iv.search unitNum unitDen 30 start with
  | some s => s
  | none => ⟨b.significand, 0⟩

/-- How a printer lays shortest digits out. `kk` below is the position of the
decimal point counted from the first digit. -/
structure Layout where
  /-- Positional notation while `kk` is at most this, if bounded. -/
  maxPoint : Option Int
  /-- Positional notation while `kk` is above this, if bounded. -/
  minPoint : Option Int
  /-- An integral value is written with a trailing `.0`. -/
  pointZero : Bool
  /-- A non-negative exponent is written with a `+`. -/
  plusSign : Bool

/-- `n` zero digits. -/
def zeros (n : Nat) : String := String.ofList (List.replicate n '0')

/-- The text of a decimal under a layout. -/
def Layout.render (layout : Layout) (negative : Bool) (s : Scientific) : String :=
  let ds := (toString s.digits).toList
  let n : Int := ds.length
  let k := s.exponent
  let kk := n + k
  let belowMax : Bool := match layout.maxPoint with | some m => decide (kk ≤ m) | none => true
  let aboveMin : Bool := match layout.minPoint with | some m => decide (m < kk) | none => true
  let exponentText (x : Int) : String :=
    if x < 0 then "-" ++ toString x.natAbs
    else (if layout.plusSign then "+" else "") ++ toString x.toNat
  let body :=
    if 0 ≤ k ∧ belowMax then
      String.ofList ds ++ zeros k.toNat ++ (if layout.pointZero then ".0" else "")
    else if 0 < kk ∧ belowMax then
      String.ofList (ds.take kk.toNat) ++ "." ++ String.ofList (ds.drop kk.toNat)
    else if aboveMin ∧ kk ≤ 0 then
      "0." ++ zeros (-kk).toNat ++ String.ofList ds
    else if ds.length = 1 then
      String.ofList ds ++ "e" ++ exponentText (kk - 1)
    else
      String.ofList (ds.take 1) ++ "." ++ String.ofList (ds.drop 1) ++ "e" ++ exponentText (kk - 1)
  (if negative then "-" else "") ++ body

/-- The layout of JSON numbers: positional from `1e-5` up to below `1e16`,
integral values keep `.0`, and exponents are signed. -/
def Layout.json : Layout := ⟨some 16, some (-5), true, true⟩

/-- The layout of plain display text: always positional, integral values with
`.0`. -/
def Layout.plain : Layout := ⟨none, none, true, false⟩

/-- The text of a binary64 value under a layout; zero is `0.0`, and the
non-finite values are `inf`, `-inf` and `NaN`. -/
def Layout.format (layout : Layout) (f : Float) : String :=
  match Binary.ofBits f.toBits with
  | none => if f.isNaN then "NaN" else if f < 0 then "-inf" else "inf"
  | some b =>
    if b.significand = 0 then (if b.negative then "-0.0" else "0.0")
    else layout.render b.negative b.shortest

theorem powFraction_zero (base : Nat) : powFraction base 0 = (1, 1) := by
  simp [powFraction]

end LotBridge.Decimal
