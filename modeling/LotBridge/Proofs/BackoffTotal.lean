import LotBridge.Proofs.BackoffDelays

/-!
# The worst-case pause of a linear schedule

When every attempt of a linear schedule fails transiently, the loop pauses
after each attempt but the last, `min (base * k) cap` after the `k`-th. The
schedule computes the total of these pauses in closed form (`linearSum`): the
terms below the cap form an arithmetic series, and the rest are the cap. The
total is a duration as long as it fits one, and otherwise the sum of durations
fails.

## Main statements

* `linearSum_eq_sum`: the closed form is the sum of the pauses.
* `elapsed_linear_of_transient`: the loop pauses exactly that long.
* `linear_totalPause_exact`: the total, its overflow, and the loop agree.
-/

namespace LotBridge.Retry

open Finset

/-! ## The closed form -/

/-- One more attempt adds its pause: below the cap the series grows by
`base * (m + 1)`, past it by the cap. -/
theorem linearSum_succ (base cap m : Nat) :
    linearSum base cap (m + 1) = linearSum base cap m + min (base * (m + 1)) cap := by
  unfold linearSum
  split
  · rename_i hb
    simp [hb]
  · rename_i hb
    dsimp only
    have hpos : 0 < base := Nat.pos_of_ne_zero hb
    rcases Nat.lt_or_ge m (cap / base) with hlt | hge
    · -- the new pause is below the cap
      have hterm : base * (m + 1) ≤ cap := by
        rw [Nat.mul_comm]
        exact (Nat.le_div_iff_mul_le hpos).1 hlt
      have hgauss : (m + 1) * (m + 1 + 1) / 2 = m * (m + 1) / 2 + (m + 1) := by
        rw [show (m + 1) * (m + 1 + 1) = m * (m + 1) + 2 * (m + 1) by ring,
          Nat.add_mul_div_left _ _ (by norm_num)]
      rw [min_eq_left (show m + 1 ≤ cap / base by omega), min_eq_left hlt.le, min_eq_left hterm,
        hgauss]
      simp only [Nat.sub_self, Nat.zero_mul, Nat.add_zero]
      ring
    · -- the new pause is the cap
      have hterm : cap ≤ base * (m + 1) := by
        rw [Nat.mul_comm]
        exact ((Nat.div_lt_iff_lt_mul hpos).1 (by omega)).le
      rw [min_eq_right (show cap / base ≤ m + 1 by omega), min_eq_right hge, min_eq_right hterm,
        show m + 1 - cap / base = (m - cap / base) + 1 by omega, Nat.succ_mul]
      ring

/-- The closed form is the sum of the pauses `min (base * k) cap` for
`k = 1, …, m`. -/
theorem linearSum_eq_sum (base cap m : Nat) : linearSum base cap m = ∑ k ∈ Icc 1 m, min (base * k) cap := by
  induction m with
  | zero => simp [linearSum]
  | succ m ih => rw [linearSum_succ, ih, sum_Icc_succ_top (by omega)]

/-! ## The pauses of a loop -/

section Linear

variable {n base cap : Nat}

theorem pauseSum_linear (m : Nat) (hm : m ≤ wordMax) :
    (Backoff.make .linear n base cap).pauseSum m = linearSum base cap m := by
  simp [Backoff.make, Backoff.pauseSum, hm]

/-- The pauses after the attempts below `m` add up to the closed form, as long
as the factor of the last does not saturate. -/
theorem foldl_delays_linear (hcap : cap * 1000000 ≤ durationMaxNs) (m : Nat) (hm : m ≤ wordMax) :
    ((List.range m).map (Backoff.make .linear n base cap).delay).foldl (· + ·) 0 = linearSum base cap m := by
  induction m with
  | zero => simp [linearSum]
  | succ m ih =>
    rw [List.range_succ, List.map_append, List.foldl_append, ih (by omega), List.map_singleton,
      List.foldl_cons, List.foldl_nil, delay_linear_of_lt hcap (by omega), linearSum_succ]

/-- A loop whose attempts all fail transiently pauses after each but the last:
`linearSum` in all. -/
theorem elapsed_linear_of_transient (hn : n ≤ wordMax) (hcap : cap * 1000000 ≤ durationMaxNs)
    {α : Type} {op : Nat → Except Failure α} (hop : ∀ i, ∃ e, op i = .error e ∧ e.isTransient = true) :
    ((Backoff.make .linear n base cap).policy.run op).elapsed = linearSum base cap (max n 1 - 1) := by
  have hfirst : (Backoff.make .linear n base cap).policy.firstStop op =
      (Backoff.make .linear n base cap).maxAttempts - 1 :=
    Backoff.firstStop_of_transient hn base cap fun i _ => hop i
  rw [Report.elapsed, Policy.run_eq_firstStop, hfirst]
  exact foldl_delays_linear hcap _ (by simp only [Backoff.make, wordMax] at hn ⊢; omega)

end Linear

/-- A linear schedule of `n` attempts, a 32-bit count, with a base and a cap of
whole milliseconds: its worst-case pause is exactly the sum of
`min (base * k) cap` for `k = 1, …, max 1 n - 1` when that sum is a duration,
and the run fails, with the text of a failed sum of durations, exactly when
the sum is past the largest duration; a loop whose attempts all fail transiently
pauses exactly that long. -/
theorem linear_totalPause_exact (n base cap : Nat) (hn : n ≤ wordMax) (hcap : cap * 1000000 ≤ durationMaxNs)
    {α : Type} (op : Nat → Except Failure α) (hop : ∀ i, ∃ e, op i = .error e ∧ e.isTransient = true) :
    ((∑ k ∈ Icc 1 (max 1 n - 1), min (base * k) cap) * 1000000 ≤ durationMaxNs →
      (Backoff.make .linear n base cap).totalPause = some (∑ k ∈ Icc 1 (max 1 n - 1), min (base * k) cap)) ∧
    ((Backoff.make .linear n base cap).totalPause = none ↔
      durationMaxNs < (∑ k ∈ Icc 1 (max 1 n - 1), min (base * k) cap) * 1000000) ∧
    ((Backoff.make .linear n base cap).totalPauseResult = .error "overflow in iter::sum over durations" ↔
      durationMaxNs < (∑ k ∈ Icc 1 (max 1 n - 1), min (base * k) cap) * 1000000) ∧
    ((Backoff.make .linear n base cap).policy.run op).elapsed =
      ∑ k ∈ Icc 1 (max 1 n - 1), min (base * k) cap := by
  have hm : max n 1 - 1 ≤ wordMax := by simp only [wordMax] at hn ⊢; omega
  have htotal : (Backoff.make .linear n base cap).pauseSum ((Backoff.make .linear n base cap).maxAttempts - 1) =
      ∑ k ∈ Icc 1 (max 1 n - 1), min (base * k) cap := by
    rw [show (Backoff.make .linear n base cap).maxAttempts = max n 1 from rfl, pauseSum_linear _ hm,
      linearSum_eq_sum, max_comm]
  -- a total of whole milliseconds is a duration exactly below `2 ^ 64` seconds
  have hlimit : ∀ x, x < durationLimitMs ↔ x * 1000000 ≤ durationMaxNs := by
    intro x
    simp only [durationLimitMs, durationMaxNs]
    omega
  have hnone : (Backoff.make .linear n base cap).totalPause = none ↔
      durationMaxNs < (∑ k ∈ Icc 1 (max 1 n - 1), min (base * k) cap) * 1000000 := by
    rw [Backoff.totalPause, htotal]
    split_ifs with h
    · simp only [false_iff, not_lt]
      exact (hlimit _).1 h
    · have := (hlimit _).not.1 h
      simp only [true_iff]
      omega
  refine ⟨fun h => ?_, hnone, ?_, ?_⟩
  · rw [Backoff.totalPause, htotal, if_pos ((hlimit _).2 h)]
  · -- the run fails, with the text of a failed sum, exactly when the total is `none`
    rw [← hnone, Backoff.totalPauseResult]
    split <;> simp_all [durationOverflowMessage]
  · rw [elapsed_linear_of_transient hn hcap hop, linearSum_eq_sum, max_comm]

/-- Three attempts with a base of 10 ms under a cap of a second pause 30 ms in
the worst case, and a loop that keeps failing to connect pauses that long. -/
theorem linear_totalPause_exact_onThreeAttempts :
    ((Backoff.make .linear 3 10 1000).policy.run
        (fun _ => (.error (.connection "opc.tcp://plc:4840" "refused") : Except Failure Nat))).elapsed =
      ∑ k ∈ Icc 1 (max 1 3 - 1), min (10 * k) 1000 ∧
    ∑ k ∈ Icc 1 (max 1 3 - 1), min (10 * k) 1000 = 30 :=
  ⟨(linear_totalPause_exact 3 10 1000 (by simp [wordMax]) (by simp [durationMaxNs]) _
    fun _ => ⟨_, rfl, rfl⟩).2.2.2, by decide⟩

end LotBridge.Retry
