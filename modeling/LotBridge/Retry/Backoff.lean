import LotBridge.Retry.Policy

/-!
# Built-in backoff schedules

Four shapes of pause between attempts: growing linearly with the attempt,
doubling with it, fixed, or no retry at all. Each has an attempt count, which
is at least one, a base pause and, for the growing shapes, a cap.

The arithmetic follows fixed-width words: the attempt is a 32-bit count, so
the factor `attempt + 1` or `2 ^ attempt` saturates at `2 ^ 32 - 1`, and the
check whether another attempt follows wraps `attempt + 1` around `2 ^ 32`.
Base and cap are whole milliseconds; the base times the factor is a duration,
held at the largest duration when it would outgrow it, and then cut to the cap.

Durations add up to below `2 ^ 64` whole seconds; `Backoff.totalPause` is
`none` past that, and `Backoff.totalPauseResult` fails with the text of a
failed duration sum.

## Main definitions

* `Shape`, `Backoff`: the schedules and their parameters.
* `Backoff.delay`, `Backoff.shouldRetry`, `Backoff.policy`.
* `Backoff.totalPause`, `Backoff.totalPauseResult`: the pauses of a loop in
  which every attempt fails.
-/

namespace LotBridge.Retry

/-- The shape of the pauses between attempts. -/
inductive Shape where
  | linear
  | exponential
  | fixed
  | none
deriving DecidableEq, Repr

/-- The names of the shapes, in declaration order. -/
def Shape.names : List (String × Shape) :=
  [("linear", .linear), ("exponential", .exponential), ("fixed", .fixed), ("none", .none)]

/-- The name of a shape. -/
def Shape.name : Shape → String
  | .linear => "linear"
  | .exponential => "exponential"
  | .fixed => "fixed"
  | .none => "none"

/-- The largest 32-bit count. -/
def wordMax : Nat := 4294967295

/-- `2 ^ n`, saturating at the largest 32-bit count. -/
def saturatingPowTwo (n : Nat) : Nat := if n < 32 then Nat.pow 2 n else wordMax

/-- A schedule: its shape, the attempts it allows, its base pause and its cap,
both in milliseconds. -/
structure Backoff where
  shape : Shape
  maxAttempts : Nat
  base : Nat
  cap : Nat
deriving DecidableEq, Repr

/-- A schedule whose attempt count is raised to one if it is zero; a schedule
of shape `none` allows exactly one attempt and never pauses. -/
def Backoff.make (shape : Shape) (attempts base cap : Nat) : Backoff :=
  match shape with
  | .none => ⟨.none, 1, 0, 0⟩
  | s => ⟨s, max attempts 1, base, cap⟩

/-- The default schedule: three attempts, pauses growing by a second, capped at
ten seconds. -/
def Backoff.standard : Backoff := .make .linear 3 1000 10000

/-- The largest duration in nanoseconds: `2 ^ 64 - 1` seconds and `999999999`
nanoseconds. -/
def durationMaxNs : Nat := 18446744073709551615999999999

/-- A pause of `base` milliseconds times `factor`, held at the largest
duration, then cut to `cap` milliseconds; in milliseconds. -/
def scaledPause (base factor cap : Nat) : Nat :=
  min (min (base * 1000000 * factor) durationMaxNs) (cap * 1000000) / 1000000

/-- The pause after the attempt with index `attempt`. -/
def Backoff.delay (b : Backoff) (attempt : Nat) : Nat :=
  match b.shape with
  | .linear => scaledPause b.base (min (attempt + 1) wordMax) b.cap
  | .exponential => scaledPause b.base (saturatingPowTwo attempt) b.cap
  | .fixed => b.base
  | .none => 0

/-- Whether a failure of the attempt with index `attempt` is tried again: the
failure must be transient and the next attempt, counted in 32 bits, within the
limit. -/
def Backoff.shouldRetry (b : Backoff) (attempt : Nat) (f : Failure) : Bool :=
  match b.shape with
  | .none => false
  | _ => decide ((attempt + 1) % 4294967296 < b.maxAttempts) && f.isTransient

/-- The schedule as a policy of the retry loop. -/
def Backoff.policy (b : Backoff) : Policy := ⟨b.maxAttempts, b.shouldRetry, b.delay⟩

/-- `∑ k ∈ [1, m], min (base * k, cap)`: the pauses growing by `base` up to the
cap. The terms below the cap are the first `t = min m (cap / base)`. -/
def linearSum (base cap m : Nat) : Nat :=
  if base = 0 then 0
  else
    let t := min m (cap / base)
    base * (t * (t + 1) / 2) + (m - t) * cap

/-- The sum of the pauses after the attempts with indices below `m`. -/
def Backoff.pauseSum (b : Backoff) (m : Nat) : Nat :=
  match b.shape with
  | .linear =>
    -- below the limit the factor `attempt + 1` never saturates
    if m ≤ wordMax then linearSum b.base b.cap m
    else linearSum b.base b.cap wordMax + (m - wordMax) * min (b.base * wordMax) b.cap
  | .exponential =>
    -- from attempt 32 on the factor stays saturated
    ((List.range (min m 32)).map b.delay).foldl (· + ·) 0 + (m - 32) * b.delay 32
  | .fixed => m * b.base
  | .none => 0

/-- Durations stay below `2 ^ 64` whole seconds. -/
def durationLimitMs : Nat := 18446744073709551616000

/-- The pauses of a loop in which every attempt fails transiently: one after
each attempt but the last. `none` when the sum is no duration. -/
def Backoff.totalPause (b : Backoff) : Option Nat :=
  let total := b.pauseSum (b.maxAttempts - 1)
  if total < durationLimitMs then some total else none

/-- The text of a failed duration sum. -/
def durationOverflowMessage : String := "overflow in iter::sum over durations"

/-- The pauses of a loop in which every attempt fails, as the program gives
them: the sum, or the failure of a sum past the largest duration, with its
text. -/
def Backoff.totalPauseResult (b : Backoff) : Except String Nat :=
  match b.totalPause with
  | some total => .ok total
  | none => .error durationOverflowMessage

theorem make_maxAttempts_pos (s : Shape) (attempts base cap : Nat) :
    0 < (Backoff.make s attempts base cap).maxAttempts := by
  cases s <;> simp only [Backoff.make] <;> omega

theorem delay_fixed (b : Backoff) (h : b.shape = .fixed) (attempt : Nat) :
    b.delay attempt = b.base := by
  simp [Backoff.delay, h]

end LotBridge.Retry
