import LotBridge.Proofs.BoundedRetry
import LotBridge.Retry.Config
import Mathlib

/-!
# The pauses of the built-in schedules

Each built-in schedule computes its pause in fixed-width words: the factor on
the base is a 32-bit count that saturates, the base times the factor is a
duration held at the largest duration, and the cap cuts it. For a cap that is a
duration itself the held product never shows (`scaledPause_eq`): where the
product is held, it was past the cap already.

So the pauses are the documented formulas over the naturals, except where the
32-bit factor saturates: a linear schedule's last attempt index pauses as long
as the one before it, and an exponential schedule stops doubling at attempt 32,
short of `2 ^ 32`, whatever its cap. A retry is decided on the next attempt
counted in 32 bits, which matches the formula below the top index.

## Main statements

* `scaledPause_eq`: the cap decides over the held product.
* `delay_linear`, `delay_exponential`, `delay_exponential_succ`: the pauses.
* `delay_mem_settings`: a valid retry section pauses between its base and its cap.
* `backoff_pauses_by_formula`: the schedules' arithmetic, as designed.
-/

namespace LotBridge.Retry

/-! ## Held products -/

/-- A cap of at most `2 ^ 64 - 1` milliseconds is a duration. -/
theorem cap_duration {cap : Nat} (h : cap < 18446744073709551616) : cap * 1000000 ≤ durationMaxNs := by
  simp only [durationMaxNs]
  omega

/-- The base times the factor, held at the largest duration and cut to a cap
that is a duration, is the exact product cut to the cap. -/
theorem scaledPause_eq {cap : Nat} (h : cap * 1000000 ≤ durationMaxNs) (base factor : Nat) :
    scaledPause base factor cap = min (base * factor) cap := by
  have hns : base * 1000000 * factor = base * factor * 1000000 := Nat.mul_right_comm _ _ _
  -- holding the product at the largest duration only matters past the cap
  rw [scaledPause, min_assoc, min_eq_right h, hns]
  rcases le_total (base * factor) cap with hle | hle
  · rw [min_eq_left (Nat.mul_le_mul_right _ hle), min_eq_left hle, Nat.mul_div_cancel _ (by norm_num)]
  · rw [min_eq_right (Nat.mul_le_mul_right _ hle), min_eq_right hle, Nat.mul_div_cancel _ (by norm_num)]

/-! ## Pauses by shape -/

section Shapes

variable {n base cap : Nat}

theorem saturatingPowTwo_of_lt {a : Nat} (h : a < 32) : saturatingPowTwo a = 2 ^ a := by
  simp [saturatingPowTwo, h]

theorem saturatingPowTwo_of_le {a : Nat} (h : 32 ≤ a) : saturatingPowTwo a = wordMax := by
  simp [saturatingPowTwo, Nat.not_lt.2 h]

theorem delay_linear (h : cap * 1000000 ≤ durationMaxNs) (a : Nat) :
    (Backoff.make .linear n base cap).delay a = min (base * min (a + 1) wordMax) cap := by
  simp [Backoff.make, Backoff.delay, scaledPause_eq h]

/-- Below the top index a linear schedule pauses `base * (a + 1)`, capped. -/
theorem delay_linear_of_lt (h : cap * 1000000 ≤ durationMaxNs) {a : Nat} (ha : a < wordMax) :
    (Backoff.make .linear n base cap).delay a = min (base * (a + 1)) cap := by
  rw [delay_linear h, Nat.min_eq_left (show a + 1 ≤ wordMax by omega)]

/-- At the top index the factor has saturated: the pause repeats the one
before. -/
theorem delay_linear_top (h : cap * 1000000 ≤ durationMaxNs) :
    (Backoff.make .linear n base cap).delay wordMax = (Backoff.make .linear n base cap).delay (wordMax - 1) := by
  have htop : wordMax - 1 + 1 = wordMax := by simp [wordMax]
  rw [delay_linear h, delay_linear h, htop, Nat.min_eq_right (show wordMax ≤ wordMax + 1 by omega),
    Nat.min_self]

theorem delay_exponential (h : cap * 1000000 ≤ durationMaxNs) (a : Nat) :
    (Backoff.make .exponential n base cap).delay a = min (base * saturatingPowTwo a) cap := by
  simp [Backoff.make, Backoff.delay, scaledPause_eq h]

/-- Below attempt 32 consecutive pauses double until they reach the cap. -/
theorem delay_exponential_succ (h : cap * 1000000 ≤ durationMaxNs) {a : Nat} (ha : a + 1 < 32) :
    (Backoff.make .exponential n base cap).delay (a + 1) =
      min (2 * (Backoff.make .exponential n base cap).delay a) cap := by
  rw [delay_exponential h, delay_exponential h, saturatingPowTwo_of_lt ha,
    saturatingPowTwo_of_lt (by omega)]
  have hdouble : base * 2 ^ (a + 1) = 2 * (base * 2 ^ a) := by ring
  rw [hdouble]
  rcases le_total (base * 2 ^ a) cap with hle | hle
  · rw [min_eq_left hle]
  · rw [min_eq_right hle, min_eq_right (show cap ≤ 2 * (base * 2 ^ a) by omega),
      min_eq_right (show cap ≤ 2 * cap by omega)]

theorem delay_fixed_make (a : Nat) : (Backoff.make .fixed n base cap).delay a = base := rfl

theorem delay_none (a : Nat) : (Backoff.make .none n base cap).delay a = 0 := rfl

theorem maxAttempts_make {s : Shape} (hs : s ≠ .none) : (Backoff.make s n base cap).maxAttempts = max n 1 := by
  cases s <;> simp_all [Backoff.make]

/-- Below the top index, a retry follows the next attempt and the failure. -/
theorem shouldRetry_of_lt {s : Shape} (hs : s ≠ .none) {a : Nat} (ha : a < wordMax) (f : Failure) :
    (Backoff.make s n base cap).shouldRetry a f = (decide (a + 1 < max n 1) && f.isTransient) := by
  have hmod : (a + 1) % 4294967296 = a + 1 := Nat.mod_eq_of_lt (by simp only [wordMax] at ha; omega)
  cases s with
  | none => exact absurd rfl hs
  | linear | exponential | fixed => simp only [Backoff.make, Backoff.shouldRetry, hmod]

end Shapes

/-! ## Valid retry sections -/

/-- A retry section that passes its check, and whose shape pauses at all,
pauses between its base and its cap after every attempt. -/
theorem delay_mem_settings {s : Settings} (hcheck : s.check = none) (hshape : s.shape ≠ .none)
    (hcap : s.maxDelayMs < 18446744073709551616) (a : Nat) :
    s.delayMs ≤ s.backoff.delay a ∧ s.backoff.delay a ≤ s.maxDelayMs := by
  have hle : s.delayMs ≤ s.maxDelayMs := by
    simp only [Settings.check] at hcheck
    split_ifs at hcheck with h1 h2 h3
    omega
  have hd := cap_duration hcap
  -- the factor on the base is at least one in both growing shapes
  have hgrow : ∀ k, 1 ≤ k → s.delayMs ≤ min (s.delayMs * k) s.maxDelayMs ∧
      min (s.delayMs * k) s.maxDelayMs ≤ s.maxDelayMs := fun k hk =>
    ⟨le_min (Nat.le_mul_of_pos_right _ hk) hle, min_le_right _ _⟩
  obtain ⟨attempts, delayMs, maxDelayMs, shape⟩ := s
  cases shape with
  | linear =>
    rw [Settings.backoff, delay_linear hd]
    exact hgrow _ (by simp [wordMax])
  | exponential =>
    rw [Settings.backoff, delay_exponential hd]
    refine hgrow _ ?_
    unfold saturatingPowTwo
    split
    · exact Nat.one_le_two_pow
    · simp [wordMax]
  | fixed => exact ⟨le_rfl, hle⟩
  | none => exact absurd rfl hshape

/-- The schedules' arithmetic as designed: the attempt counts are clamped to
one; below the top attempt index a retry is decided on the next attempt and
the failure; a linear schedule pauses `base * (a + 1)` capped, and at the top
index repeats the pause before; an exponential one pauses `base * 2 ^ a`
capped up to attempt 31, doubling until the cap, and `base * (2 ^ 32 - 1)`
capped from attempt 32 on; a fixed one pauses its base and `none` never; and a
valid retry section with a growing or fixed shape pauses between its base and
its cap. -/
theorem backoff_pauses_by_formula :
    (∀ s n base cap, s ≠ .none → (Backoff.make s n base cap).maxAttempts = max n 1) ∧
    (∀ n base cap, (Backoff.make .none n base cap).maxAttempts = 1) ∧
    (∀ s n base cap a f, s ≠ .none → a < wordMax →
      (Backoff.make s n base cap).shouldRetry a f = (decide (a + 1 < max n 1) && f.isTransient)) ∧
    (∀ n base cap a f, (Backoff.make .none n base cap).shouldRetry a f = false) ∧
    (∀ n base cap, cap < 18446744073709551616 →
      (∀ a, a < wordMax → (Backoff.make .linear n base cap).delay a = min (base * (a + 1)) cap) ∧
      (Backoff.make .linear n base cap).delay wordMax = (Backoff.make .linear n base cap).delay (wordMax - 1) ∧
      (∀ a, a < 32 → (Backoff.make .exponential n base cap).delay a = min (base * 2 ^ a) cap) ∧
      (∀ a, a + 1 < 32 → (Backoff.make .exponential n base cap).delay (a + 1) =
        min (2 * (Backoff.make .exponential n base cap).delay a) cap) ∧
      (∀ a, 32 ≤ a → (Backoff.make .exponential n base cap).delay a = min (base * wordMax) cap) ∧
      (∀ a, (Backoff.make .fixed n base cap).delay a = base) ∧
      (∀ a, (Backoff.make .none n base cap).delay a = 0)) ∧
    (∀ s : Settings, s.check = none → s.shape ≠ .none → s.maxDelayMs < 18446744073709551616 →
      ∀ a, s.delayMs ≤ s.backoff.delay a ∧ s.backoff.delay a ≤ s.maxDelayMs) := by
  refine ⟨fun _ _ _ _ hs => maxAttempts_make hs, fun _ _ _ => rfl,
    fun _ _ _ _ _ f hs ha => shouldRetry_of_lt hs ha f, fun _ _ _ _ _ => rfl,
    fun n base cap hcap => ?_, fun s hcheck hshape hcap a => delay_mem_settings hcheck hshape hcap a⟩
  have hd := cap_duration hcap
  refine ⟨fun a ha => delay_linear_of_lt hd ha, delay_linear_top hd, fun a ha => ?_,
    fun a ha => delay_exponential_succ hd ha, fun a ha => ?_, delay_fixed_make, delay_none⟩
  · rw [delay_exponential hd, saturatingPowTwo_of_lt ha]
  · rw [delay_exponential hd, saturatingPowTwo_of_le ha]

/-- The default linear schedule pauses two seconds after its second attempt,
and an exponential one with base 100 ms doubles from its fourth attempt to the
cap of a second. -/
theorem backoff_pauses_by_formula_onStandard :
    (Backoff.make .linear 3 1000 10000).delay 1 = min (1000 * (1 + 1)) 10000 ∧
      (Backoff.make .exponential 5 100 1000).delay (3 + 1) =
        min (2 * (Backoff.make .exponential 5 100 1000).delay 3) 1000 :=
  ⟨(backoff_pauses_by_formula.2.2.2.2.1 3 1000 10000 (by norm_num)).1 1 (by simp [wordMax]),
    (backoff_pauses_by_formula.2.2.2.2.1 5 100 1000 (by norm_num)).2.2.2.1 3 (by norm_num)⟩

/-- An exponential schedule does not double from attempt 31 to 32: the factor
saturates one short of `2 ^ 32`, under a cap that would allow it. -/
theorem exponential_delay_saturates :
    (Backoff.make .exponential 33 1 9223372036854775808).delay 32 = 4294967295 ∧
      min (1 * 2 ^ 32) 9223372036854775808 = 4294967296 := by
  refine ⟨?_, by norm_num⟩
  rw [delay_exponential (cap_duration (by norm_num)), saturatingPowTwo_of_le le_rfl]
  rfl

end LotBridge.Retry
