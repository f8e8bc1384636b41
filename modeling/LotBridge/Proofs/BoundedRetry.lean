import LotBridge.Retry.Backoff
import Mathlib.Data.Nat.Find

/-!
# A retry loop makes exactly the attempts its policy allows

`Policy.run` calls an operation until one of its attempts ends the loop. An
attempt ends it when it succeeds, when its failure is one the policy will not
retry, or when it is the last attempt the limit allows (`Policy.Stops`); the
limit is the policy's attempt count, raised to one.

`Policy.run_eq_firstStop` says what a loop does for every policy and every
sequence of outcomes: it stops at the first attempt that ends it
(`Policy.firstStop`), returns that attempt's outcome, has called the operation
once per attempt up to it, and has paused after each earlier attempt for the
delay the policy gives that attempt, in order. That attempt lies below the
limit, so the attempt count never passes the limit.

For a built-in schedule whose attempt count is a 32-bit count, an attempt
below the limit is retried exactly when it failed transiently
(`Backoff.stops_iff`): a failure that is not transient ends the loop at once,
and transient failures are retried until the attempt count is used up.

## Main definitions

* `Policy.Final`, `Policy.Stops`: outcomes and attempts that end the loop.
* `Policy.firstStop`: the first attempt that ends it.
-/

namespace LotBridge.Retry

namespace Policy

variable {α : Type} (p : Policy) (op : Nat → Except Failure α)

/-- Whether an outcome of attempt `i` ends the loop whatever the limit: a
success, or a failure the policy will not retry. -/
def Final (i : Nat) : Except Failure α → Prop
  | .ok _ => True
  | .error e => p.shouldRetry i e = false

instance (i : Nat) : (r : Except Failure α) → Decidable (p.Final i r)
  | .ok _ => inferInstanceAs (Decidable True)
  | .error e => inferInstanceAs (Decidable (p.shouldRetry i e = false))

/-- Attempt `i` ends the loop: its outcome is final, or it is the last one the
limit allows. -/
def Stops (i : Nat) : Prop := p.Final i (op i) ∨ p.limit ≤ i + 1

instance : DecidablePred (p.Stops op) := fun i =>
  inferInstanceAs (Decidable (p.Final i (op i) ∨ p.limit ≤ i + 1))

theorem stops_last : p.Stops op (p.limit - 1) := by
  have := limit_pos p
  exact Or.inr (by omega)

/-- The first attempt that ends the loop. -/
def firstStop : Nat := Nat.find ⟨p.limit - 1, p.stops_last op⟩

theorem firstStop_stops : p.Stops op (p.firstStop op) := Nat.find_spec _

theorem not_stops_of_lt {j : Nat} (h : j < p.firstStop op) : ¬ p.Stops op j := Nat.find_min _ h

theorem firstStop_lt_limit : p.firstStop op < p.limit := by
  have hle : p.firstStop op ≤ p.limit - 1 := Nat.find_le (p.stops_last op)
  have := limit_pos p
  omega

/-- The loop from attempt `a`, with the fuel that leads up to the limit, when
`k` is the first attempt from `a` on that ends it. -/
theorem runFrom_first {k : Nat} (hk : p.Stops op k) :
    ∀ fuel a, a + fuel + 1 = p.limit → a ≤ k → (∀ j, a ≤ j → j < k → ¬ p.Stops op j) →
      p.runFrom op fuel a = ⟨op k, k + 1, (List.range' a (k - a)).map p.delay⟩ := by
  intro fuel
  induction fuel with
  | zero =>
    intro a hlim hak hmin
    -- attempt `a` is the last the limit allows, so nothing after it is tried
    have hka : k = a := by
      by_contra hne
      exact hmin a le_rfl (by omega) (Or.inr (by omega))
    subst hka
    simp [runFrom]
  | succ fuel ih =>
    intro a hlim hak hmin
    rcases Nat.eq_or_lt_of_le hak with rfl | hlt
    · -- attempt `a` ends the loop, and not by the limit: its outcome is final
      have hfin : p.Final a (op a) := hk.resolve_right (by omega)
      cases hop : op a with
      | ok x => simp [runFrom, hop]
      | error e =>
        have hno : p.shouldRetry a e = false := by simpa [Final, hop] using hfin
        simp [runFrom, hop, hno]
    · -- attempt `a` fails, is retried, and the loop goes on from `a + 1`
      have hnot : ¬ p.Stops op a := hmin a le_rfl hlt
      cases hop : op a with
      | ok x => exact absurd (Or.inl (by simp [Final, hop])) hnot
      | error e =>
        have hretry : p.shouldRetry a e = true := by
          simpa [Stops, Final, hop] using fun h => hnot (Or.inl h)
        have hrest := ih (a + 1) (by omega) hlt (fun j hj hjk => hmin j (by omega) hjk)
        have hlen : k - a = (k - (a + 1)) + 1 := by omega
        simp [runFrom, hop, hretry, hrest, hlen, List.range'_succ]

/-- What a loop does, for every policy and every sequence of outcomes. -/
theorem run_eq_firstStop :
    p.run op = ⟨op (p.firstStop op), p.firstStop op + 1,
      (List.range (p.firstStop op)).map p.delay⟩ := by
  have hfuel : 0 + (p.limit - 1) + 1 = p.limit := by
    have := limit_pos p
    omega
  have h := p.runFrom_first op (p.firstStop_stops op) (p.limit - 1) 0 hfuel (Nat.zero_le _)
    (fun _ _ hj => p.not_stops_of_lt op hj)
  simpa [run, List.range_eq_range'] using h

theorem run_calls_le_limit : (p.run op).calls ≤ p.limit := by
  rw [run_eq_firstStop]
  exact p.firstStop_lt_limit op

theorem firstStop_eq {k : Nat} (hk : p.Stops op k) (hmin : ∀ j < k, ¬ p.Stops op j) :
    p.firstStop op = k :=
  le_antisymm (Nat.find_le hk) (Nat.le_of_not_lt fun h => hmin _ h (p.firstStop_stops op))

end Policy

namespace Backoff

variable {α : Type}

theorem make_limit (s : Shape) (attempts base cap : Nat) :
    (make s attempts base cap).policy.limit = (make s attempts base cap).maxAttempts := by
  have := make_maxAttempts_pos s attempts base cap
  simp only [Policy.limit, policy]
  omega

theorem make_maxAttempts_le (s : Shape) {attempts : Nat} (h : attempts ≤ wordMax)
    (base cap : Nat) : (make s attempts base cap).maxAttempts ≤ wordMax := by
  cases s <;> simp only [make, wordMax] at h ⊢ <;> omega

/-- Below the limit a built-in schedule retries exactly the transient
failures, the attempt counted in 32 bits never wrapping there. -/
theorem shouldRetry_below (s : Shape) {attempts : Nat} (h : attempts ≤ wordMax) (base cap : Nat)
    {i : Nat} (hi : i + 1 < (make s attempts base cap).maxAttempts) (e : Failure) :
    (make s attempts base cap).shouldRetry i e = e.isTransient := by
  have hw := make_maxAttempts_le s h base cap
  have hmod : (i + 1) % 4294967296 = i + 1 := Nat.mod_eq_of_lt (by simp only [wordMax] at hw; omega)
  cases s with
  | none => simp [make] at hi
  | linear | exponential | fixed =>
    simp only [make] at hi ⊢
    simp [shouldRetry, hmod, hi]

/-- For a built-in schedule an attempt ends the loop when it succeeds, when it
fails for a reason that is not transient, or when it is the last allowed. -/
theorem stops_iff {s : Shape} {attempts : Nat} (h : attempts ≤ wordMax) (base cap : Nat)
    (op : Nat → Except Failure α) (i : Nat) :
    (make s attempts base cap).policy.Stops op i ↔
      (∃ a, op i = .ok a) ∨ (∃ e, op i = .error e ∧ e.isTransient = false) ∨
        (make s attempts base cap).maxAttempts ≤ i + 1 := by
  rw [Policy.Stops, make_limit]
  by_cases hlast : (make s attempts base cap).maxAttempts ≤ i + 1
  · simp [hlast]
  · have hretry := shouldRetry_below s h base cap (by omega : i + 1 < _)
    cases hop : op i with
    | ok x => simp [Policy.Final]
    | error e => simp [Policy.Final, policy, hretry, hlast]

/-- A failure that is not transient ends a built-in loop after one call. -/
theorem run_of_permanent {s : Shape} {attempts : Nat} (h : attempts ≤ wordMax) (base cap : Nat)
    {op : Nat → Except Failure α} {e : Failure} (hop : op 0 = .error e)
    (he : e.isTransient = false) :
    (make s attempts base cap).policy.run op = ⟨.error e, 1, []⟩ := by
  have hstop : (make s attempts base cap).policy.Stops op 0 :=
    (stops_iff h base cap op 0).2 (Or.inr (Or.inl ⟨e, hop, he⟩))
  have hfirst := Policy.firstStop_eq _ op hstop (fun j hj => absurd hj (Nat.not_lt_zero j))
  rw [Policy.run_eq_firstStop, hfirst, hop]
  rfl

/-- When the attempts before the last fail transiently, the loop stops only at
the last. -/
theorem firstStop_of_transient {s : Shape} {attempts : Nat} (h : attempts ≤ wordMax)
    (base cap : Nat) {op : Nat → Except Failure α}
    (hop : ∀ i, i + 1 < (make s attempts base cap).maxAttempts →
      ∃ e, op i = .error e ∧ e.isTransient = true) :
    (make s attempts base cap).policy.firstStop op = (make s attempts base cap).maxAttempts - 1 := by
  have hlast : (make s attempts base cap).policy.Stops op ((make s attempts base cap).maxAttempts - 1) :=
    (stops_iff h base cap op _).2 (Or.inr (Or.inr (by omega)))
  have hbefore : ∀ j < (make s attempts base cap).maxAttempts - 1,
      ¬ (make s attempts base cap).policy.Stops op j := by
    intro j hj hstop
    obtain ⟨e, hej, htr⟩ := hop j (by omega)
    rcases (stops_iff h base cap op j).1 hstop with ⟨a, ha⟩ | ⟨e', he', hnt⟩ | hmax
    · rw [hej] at ha
      cases ha
    · rw [hej] at he'
      cases he'
      simp [htr] at hnt
    · omega
  exact Policy.firstStop_eq _ op hlast hbefore

/-- Transient failures are retried until the attempt count is used up. -/
theorem run_calls_of_transient {s : Shape} {attempts : Nat} (h : attempts ≤ wordMax)
    (base cap : Nat) {op : Nat → Except Failure α}
    (hop : ∀ i, i + 1 < (make s attempts base cap).maxAttempts →
      ∃ e, op i = .error e ∧ e.isTransient = true) :
    ((make s attempts base cap).policy.run op).calls = (make s attempts base cap).maxAttempts := by
  have hpos := make_maxAttempts_pos s attempts base cap
  rw [Policy.run_eq_firstStop, firstStop_of_transient h base cap hop]
  dsimp only
  omega

end Backoff

/-- Bounded retry, exactly: for every policy and every sequence of outcomes the
loop stops at the first attempt that ends it, with that attempt's outcome, one
call per attempt and the policy's delays after the earlier attempts, never
counting past the limit; for the built-in schedules a failure that is not
transient ends the loop after one call, and transient failures are retried
until the attempt count is used up. -/
theorem run_retries_exactly {α : Type} :
    (∀ (p : Policy) (op : Nat → Except Failure α),
      p.run op = ⟨op (p.firstStop op), p.firstStop op + 1,
        (List.range (p.firstStop op)).map p.delay⟩ ∧ (p.run op).calls ≤ p.limit) ∧
    ∀ (s : Shape) (attempts base cap : Nat), attempts ≤ wordMax →
      ∀ op : Nat → Except Failure α,
        (∀ e, op 0 = .error e → e.isTransient = false →
          (Backoff.make s attempts base cap).policy.run op = ⟨.error e, 1, []⟩) ∧
        ((∀ i, i + 1 < (Backoff.make s attempts base cap).maxAttempts →
            ∃ e, op i = .error e ∧ e.isTransient = true) →
          ((Backoff.make s attempts base cap).policy.run op).calls =
            (Backoff.make s attempts base cap).maxAttempts) :=
  ⟨fun p op => ⟨p.run_eq_firstStop op, p.run_calls_le_limit op⟩,
    fun _ _ base cap h _ =>
      ⟨fun _ hop he => Backoff.run_of_permanent h base cap hop he,
        fun hop => Backoff.run_calls_of_transient h base cap hop⟩⟩

/-- A linear schedule of five attempts gives up on a bad line after one call. -/
theorem run_retries_exactly_onBadLine :
    (Backoff.make .linear 5 10 1000).policy.run
        (fun _ => (.error (.invalidAddress (.line "9")) : Except Failure Nat)) =
      ⟨.error (.invalidAddress (.line "9")), 1, []⟩ :=
  (run_retries_exactly.2 .linear 5 10 1000 (by decide) _).1 _ rfl rfl

end LotBridge.Retry
