import LotBridge.Failure

/-!
# Retry policies and the bounded retry loop

A retry policy answers three questions about an operation that keeps failing:
how many attempts it gets at most, whether a given failure of a given attempt
is worth another try, and how long to pause before the next one. Attempts are
counted from zero and pauses are whole milliseconds.

`Policy.run` repeats an operation under a policy. It stops at the first
success, at the last allowed attempt, or at a failure the policy will not
retry, and it reports the outcome of the attempt it stopped at together with
the pauses it took on the way.

## Main definitions

* `Policy`: what a retry loop needs to know of a policy.
* `Policy.run`: the retry loop over a scripted operation.
-/

namespace LotBridge.Retry

/-- What a retry loop needs to know of a policy. -/
structure Policy where
  /-- The number of attempts allowed, the first one included. -/
  maxAttempts : Nat
  /-- Whether a failure of the attempt with this index deserves another try. -/
  shouldRetry : Nat → Failure → Bool
  /-- The pause in milliseconds after the attempt with this index. -/
  delay : Nat → Nat

/-- The record of a retry loop: the outcome it returned, how many times it
called the operation, and the pauses it took between calls, in order. -/
structure Report (α : Type) where
  outcome : Except Failure α
  calls : Nat
  pauses : List Nat

/-- The total time a loop spent pausing. -/
def Report.elapsed {α : Type} (r : Report α) : Nat := r.pauses.foldl (· + ·) 0

/-- The attempts a loop makes at most: the policy's count, and at least one. -/
def Policy.limit (p : Policy) : Nat := max 1 p.maxAttempts

/-- The loop from attempt `attempt` on, with `fuel` attempts left before the
limit. A success ends it; so does a failure at the limit or one the policy
will not retry; otherwise it pauses and goes on. -/
def Policy.runFrom {α : Type} (p : Policy) (op : Nat → Except Failure α) :
    (fuel attempt : Nat) → Report α
  | 0, attempt => ⟨op attempt, attempt + 1, []⟩
  | fuel + 1, attempt =>
    match op attempt with
    | .ok a => ⟨.ok a, attempt + 1, []⟩
    | .error e =>
      if p.shouldRetry attempt e then
        let rest := p.runFrom op fuel (attempt + 1)
        { rest with pauses := p.delay attempt :: rest.pauses }
      else ⟨.error e, attempt + 1, []⟩

/-- Calls `op` with the attempt index until it succeeds, the policy refuses
another try, or the attempts run out. -/
def Policy.run {α : Type} (p : Policy) (op : Nat → Except Failure α) : Report α :=
  p.runFrom op (p.limit - 1) 0

/-- An operation that answers from a script, repeating the script's last
answer once it runs out; an empty script answers `fallback`. -/
def scripted {α : Type} (script : List (Except Failure α)) (fallback : Except Failure α)
    (attempt : Nat) : Except Failure α :=
  match script[attempt]? with
  | some r => r
  | none => script.getLast?.getD fallback

theorem runFrom_zero {α : Type} (p : Policy) (op : Nat → Except Failure α) (attempt : Nat) :
    p.runFrom op 0 attempt = ⟨op attempt, attempt + 1, []⟩ := rfl

theorem limit_pos (p : Policy) : 0 < p.limit := by
  simp only [Policy.limit]
  omega

end LotBridge.Retry
