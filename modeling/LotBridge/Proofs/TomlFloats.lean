import LotBridge.Proofs.TomlScalars

/-!
# Written floats read back

A float is written as `nan`, `-nan`, `inf`, `-inf`, or positionally from its
shortest decimal: `0.0`, digits with a point among them, digits with zeros and
`.0`, or `0.` with zeros and digits. The reader reads each of these texts as a
float, whatever follows among the characters that end a value.

The reader refuses a decimal at or above the least number that rounds to
infinity. The shortest decimal of a finite value lies in the value's rounding
interval, whose upper end is below that threshold, or at it and left out of
the interval; so the written text of every finite value is read.

Which float is read is not stated: the conversion of a decimal to a binary64
value is not part of the logic.

## Main statements

* `Decimal.Binary.shortest_below`: the shortest decimal of a nonzero finite
  value is below the overflow threshold.
* `plain_render_point`: its positional text is a point text the reader accepts.
* `Reader.value_floatText`: the value reader reads the text of every float.
-/

namespace LotBridge.Decimal

/-! ## The threshold and the rounding interval

The threshold is `(2 ^ 55 - 2) * 2 ^ 969`. Its exponent stays a variable in
every proof, so that no step evaluates the power. -/

theorem overflowThreshold_eq (n : Nat) (hn : n = 969) :
    overflowThreshold = 36028797018963966 * Nat.pow 2 n := by
  subst hn
  decide +kernel

theorem overflowThreshold_lt (n : Nat) (hn : n = 309) : overflowThreshold < Nat.pow 10 n := by
  subst hn
  decide +kernel

theorem overflows_eq (s : Scientific) :
    s.overflows = decide (overflowThreshold * (powFraction 10 s.exponent).2 ≤
      s.digits * (powFraction 10 s.exponent).1) := by
  unfold Scientific.overflows
  generalize powFraction 10 s.exponent = p
  obtain ⟨num, den⟩ := p
  rfl

theorem overflows_eq_false {s : Scientific}
    (h : s.digits * (powFraction 10 s.exponent).1 < overflowThreshold * (powFraction 10 s.exponent).2) :
    s.overflows = false := by
  rw [overflows_eq, decide_eq_false_iff_not]
  omega

theorem powFraction_den_pos (base : Nat) (hb : 0 < base) (e : Int) : 0 < (powFraction base e).2 := by
  unfold powFraction
  split_ifs
  · exact Nat.one_pos
  · exact Nat.pow_pos hb

theorem powFraction_num_pos (base : Nat) (hb : 0 < base) (e : Int) : 0 < (powFraction base e).1 := by
  unfold powFraction
  split_ifs
  · exact Nat.pow_pos hb
  · exact Nat.one_pos

/-- A finite binary64 value has a significand of 53 bits and an exponent of at
most `971`. -/
theorem Binary.ofBits_bounds {bits : UInt64} {b : Binary} (h : Binary.ofBits bits = some b) :
    b.significand < 9007199254740992 ∧ b.exponent ≤ 971 := by
  unfold Binary.ofBits at h
  dsimp only at h
  split_ifs at h
  · cases h
    constructor <;> simp only <;> omega
  · cases h
    constructor <;> simp only <;> omega

/-- The upper end of a finite value's rounding interval is at most the
threshold, and below it when the interval keeps its ends. -/
theorem Binary.high_le {b : Binary} (hm : b.significand < 9007199254740992) (he : b.exponent ≤ 971) :
    b.interval.high * (powFraction 2 (b.exponent - 2)).1 ≤ overflowThreshold * (powFraction 2 (b.exponent - 2)).2 ∧
      (b.interval.closed = true →
        b.interval.high * (powFraction 2 (b.exponent - 2)).1 <
          overflowThreshold * (powFraction 2 (b.exponent - 2)).2) := by
  obtain ⟨n, hn⟩ : ∃ n, n = 969 := ⟨_, rfl⟩
  -- the threshold is `(2 ^ 55 - 2) * P` with `P = 2 ^ 969`, at least every `2 ^ j` below it
  have hk : ∀ j ≤ n, Nat.pow 2 j ≤ Nat.pow 2 n := fun j h => Nat.pow_le_pow_right (by decide) h
  have hP : 0 < Nat.pow 2 n := Nat.pow_pos (by decide)
  rw [overflowThreshold_eq n hn]
  generalize Nat.pow 2 n = P at hk hP ⊢
  simp only [Binary.interval, powFraction]
  split_ifs with hnn
  · -- the unit `2 ^ (exponent - 2)` is at most `P`
    have hmul := Nat.mul_le_mul (show 4 * b.significand + 2 ≤ 36028797018963966 by omega)
      (hk (b.exponent - 2).toNat (by omega))
    refine ⟨by simpa using hmul, fun hodd => ?_⟩
    have heven : b.significand % 2 = 0 := by simpa using hodd
    have hmul' := Nat.mul_le_mul (show 4 * b.significand + 2 ≤ 36028797018963962 by omega)
      (hk (b.exponent - 2).toNat (by omega))
    simp only [Nat.mul_one]
    omega
  · -- a unit below one: the threshold is at least twice the largest significand
    have hQ : Nat.pow 2 1 ≤ Nat.pow 2 (-(b.exponent - 2)).toNat := Nat.pow_le_pow_right (by decide) (by omega)
    rw [show Nat.pow 2 1 = 2 from rfl] at hQ
    have hT : (4 * b.significand + 2) * 1 < 36028797018963966 * 1 * 2 := by omega
    have hlt : (4 * b.significand + 2) * 1 < 36028797018963966 * P * Nat.pow 2 (-(b.exponent - 2)).toNat :=
      lt_of_lt_of_le hT (Nat.mul_le_mul (Nat.mul_le_mul_left _ hP) hQ)
    exact ⟨hlt.le, fun _ => hlt⟩

theorem significand_lt_threshold {m : Nat} (hm : m < 9007199254740992) : m < overflowThreshold := by
  obtain ⟨n, hn⟩ : ∃ n, n = 969 := ⟨_, rfl⟩
  have hP : 0 < Nat.pow 2 n := Nat.pow_pos (by decide)
  rw [overflowThreshold_eq n hn]
  generalize Nat.pow 2 n = P at hP ⊢
  have : 36028797018963966 ≤ 36028797018963966 * P := Nat.le_mul_of_pos_right _ hP
  omega

/-! ## The shortest decimal -/

theorem Interval.search_some {iv : Interval} {uN uD : Nat} (fuel : Nat) :
    ∀ {t : Int} {s : Scientific}, iv.search uN uD fuel t = some s →
      iv.pointOnGrid uN uD s.exponent = some s.digits := by
  induction fuel with
  | zero =>
    intro t s h
    simp [Interval.search] at h
  | succ fuel ih =>
    intro t s h
    unfold Interval.search at h
    split at h
    · rename_i c hc
      cases h
      exact hc
    · exact ih h

/-- What a grid point inside the interval satisfies, read off the test. -/
theorem inside_facts {closed : Bool} {lo x hi : Nat}
    (h : (if closed = true then decide (lo ≤ x) && decide (x ≤ hi) else decide (lo < x) && decide (x < hi)) = true) :
    lo ≤ x ∧ x ≤ hi ∧ (closed = false → x < hi) := by
  cases closed <;> simp at h ⊢ <;> omega

/-- A grid point found lies in the interval, scaled to common units. -/
theorem Interval.pointOnGrid_inside {iv : Interval} {uN uD : Nat} {t : Int} {c : Nat}
    (h : iv.pointOnGrid uN uD t = some c) :
    iv.low * uN * (powFraction 10 t).2 ≤ c * ((powFraction 10 t).1 * uD) ∧
      c * ((powFraction 10 t).1 * uD) ≤ iv.high * uN * (powFraction 10 t).2 ∧
      (iv.closed = false → c * ((powFraction 10 t).1 * uD) < iv.high * uN * (powFraction 10 t).2) := by
  unfold Interval.pointOnGrid at h
  generalize powFraction 10 t = g at h ⊢
  obtain ⟨gN, gD⟩ := g
  dsimp only at h ⊢
  -- the point given is `c` or `c + 1`, and it passed the test
  split at h
  next _ _ hc hc₁ =>
    split_ifs at h <;> cases h
    · exact inside_facts hc
    · exact inside_facts hc₁
    · exact inside_facts hc
    · exact inside_facts hc₁
  next _ _ hc _ =>
    cases h
    exact inside_facts hc
  next _ _ _ hc₁ =>
    cases h
    exact inside_facts hc₁
  next => cases h

/-- The shortest decimal of a nonzero finite value has a nonzero count of its
unit and lies below the overflow threshold: the grid point the search finds
lies in the rounding interval, which ends below the threshold, or at it when
it leaves its ends out. Without a grid point the significand stands. -/
theorem Binary.shortest_below {b : Binary} (hm : b.significand < 9007199254740992) (he : b.exponent ≤ 971)
    (hpos : 0 < b.significand) :
    0 < b.shortest.digits ∧
      b.shortest.digits * (powFraction 10 b.shortest.exponent).1 <
        overflowThreshold * (powFraction 10 b.shortest.exponent).2 := by
  have hhigh := Binary.high_le hm he
  have huD := powFraction_den_pos 2 (by decide) (b.exponent - 2)
  have huN := powFraction_num_pos 2 (by decide) (b.exponent - 2)
  have hlow : 0 < b.interval.low := by
    simp only [Binary.interval]
    split_ifs <;> omega
  unfold Binary.shortest
  dsimp only
  generalize powFraction 2 (b.exponent - 2) = u at hhigh huD huN ⊢
  obtain ⟨uN, uD⟩ := u
  dsimp only at hhigh huD huN ⊢
  split
  next s hs =>
    obtain ⟨hlo, hhi, hopen⟩ := Interval.pointOnGrid_inside (Interval.search_some _ hs)
    have hgD := powFraction_den_pos 10 (by decide) s.exponent
    generalize powFraction 10 s.exponent = g at hlo hhi hopen hgD ⊢
    obtain ⟨gN, gD⟩ := g
    dsimp only at hlo hhi hopen hgD ⊢
    refine ⟨Nat.pos_of_ne_zero fun h0 => ?_, ?_⟩
    · -- the low end of the interval is above zero
      rw [h0, Nat.zero_mul] at hlo
      have : 0 < b.interval.low * uN * gD := Nat.mul_pos (Nat.mul_pos hlow huN) hgD
      omega
    · have h1 : b.interval.high * uN * gD ≤ overflowThreshold * uD * gD := Nat.mul_le_mul_right gD hhigh.1
      have hbelow : s.digits * (gN * uD) < overflowThreshold * uD * gD := by
        cases hc : b.interval.closed
        · exact lt_of_lt_of_le (hopen hc) h1
        · exact lt_of_le_of_lt hhi (Nat.mul_lt_mul_of_pos_right (hhigh.2 hc) hgD)
      have hswap : s.digits * gN * uD < overflowThreshold * gD * uD := by
        calc s.digits * gN * uD = s.digits * (gN * uD) := Nat.mul_assoc _ _ _
          _ < overflowThreshold * uD * gD := hbelow
          _ = overflowThreshold * gD * uD := by rw [Nat.mul_right_comm]
      exact Nat.lt_of_mul_lt_mul_right hswap
  next =>
    refine ⟨hpos, ?_⟩
    rw [powFraction_zero, Nat.mul_one, Nat.mul_one]
    exact significand_lt_threshold hm

/-! ## Where the first digit stands -/

theorem pow_length_toDigits_le {d : Nat} (hd : 0 < d) : Nat.pow 10 ((Nat.toDigits 10 d).length - 1) ≤ d := by
  have hlen : 0 < (Nat.toDigits 10 d).length := Nat.length_toDigits_pos
  by_cases h1 : (Nat.toDigits 10 d).length = 1
  · rw [h1]
    exact hd
  · have hnot : ¬ (Nat.toDigits 10 d).length ≤ (Nat.toDigits 10 d).length - 1 := by omega
    rw [Nat.length_toDigits_le_iff (by decide) (by omega)] at hnot
    exact Nat.le_of_not_lt hnot

/-- A decimal below the overflow threshold has its first digit at most 309
places before the point. -/
theorem exponent_add_length_le {d : Nat} {e : Int} (hd : 0 < d)
    (h : d * (powFraction 10 e).1 < overflowThreshold * (powFraction 10 e).2) :
    e + (Nat.toDigits 10 d).length ≤ 309 := by
  obtain ⟨n, hn⟩ : ∃ n, n = 309 := ⟨_, rfl⟩
  have hT := overflowThreshold_lt n hn
  have hlow := pow_length_toDigits_le hd
  have hL : 0 < (Nat.toDigits 10 d).length := Nat.length_toDigits_pos
  generalize (Nat.toDigits 10 d).length = L at hlow hL ⊢
  generalize overflowThreshold = T at h hT
  unfold powFraction at h
  split_ifs at h with he
  · -- the first digit times `10 ^ e` stays below `10 ^ 309`
    have hlt : Nat.pow 10 (L - 1 + e.toNat) < Nat.pow 10 n := by
      calc Nat.pow 10 (L - 1 + e.toNat) = Nat.pow 10 (L - 1) * Nat.pow 10 e.toNat := Nat.pow_add 10 _ _
        _ ≤ d * Nat.pow 10 e.toNat := Nat.mul_le_mul_right _ hlow
        _ < T * 1 := h
        _ < Nat.pow 10 n := by rw [Nat.mul_one]; exact hT
    have := (Nat.pow_lt_pow_iff_right (by decide : 1 < 10)).1 hlt
    omega
  · -- the first digit stays below `10 ^ 309` over `10 ^ (-e)`
    have hlt : Nat.pow 10 (L - 1) < Nat.pow 10 (n + (-e).toNat) := by
      calc Nat.pow 10 (L - 1) ≤ d * 1 := by rw [Nat.mul_one]; exact hlow
        _ < T * Nat.pow 10 (-e).toNat := h
        _ ≤ Nat.pow 10 n * Nat.pow 10 (-e).toNat := Nat.mul_le_mul_right _ hT.le
        _ = Nat.pow 10 (n + (-e).toNat) := (Nat.pow_add 10 _ _).symm
    have := (Nat.pow_lt_pow_iff_right (by decide : 1 < 10)).1 hlt
    omega

end LotBridge.Decimal

namespace LotBridge.Toml

open Reader Decimal

/-! ## Decimal texts -/

theorem foldl_digitsValue (a : Nat) (ys : List Char) :
    ys.foldl (fun acc c => acc * 10 + (c.toNat - '0'.toNat)) a = a * Nat.pow 10 ys.length + digitsValue ys := by
  induction ys generalizing a with
  | nil => simp [digitsValue]
  | cons y ys ih =>
    simp only [List.foldl_cons, digitsValue]
    rw [ih, ih (0 * 10 + _), List.length_cons,
      show Nat.pow 10 (ys.length + 1) = Nat.pow 10 ys.length * 10 from rfl]
    ring

theorem digitsValue_append (xs ys : List Char) :
    digitsValue (xs ++ ys) = digitsValue xs * Nat.pow 10 ys.length + digitsValue ys := by
  rw [digitsValue, List.foldl_append, foldl_digitsValue]
  rfl

theorem digitsValue_replicate_zero (j : Nat) : digitsValue (List.replicate j '0') = 0 := by
  induction j with
  | zero => rfl
  | succ j ih =>
    rw [List.replicate_succ', digitsValue_append, ih]
    rfl

theorem dropWhile_zero_replicate (j : Nat) (r : List Char) :
    (List.replicate j '0' ++ r).dropWhile (· = '0') = r.dropWhile (· = '0') := by
  induction j with
  | zero => rfl
  | succ j ih => simp [List.replicate_succ, ih]

/-- What the float reader takes apart in a text with a point and no exponent:
its sign, its digits without leading zeros, and the power of ten of the last. -/
theorem decimalParts_point (negative : Bool) {whole frac : List Char} (hw : LeadingDigits whole)
    (hf : ∀ x ∈ frac, x.isDigit = true) :
    decimalParts (signText negative ++ whole ++ '.' :: frac) =
      (negative, (whole ++ frac).dropWhile (· = '0'), -(frac.length : Int)) := by
  have hdig : ∀ x ∈ whole, x.isDigit = true := hw.isDigit
  have hnu : ∀ x ∈ signText negative ++ whole ++ '.' :: frac, decide (x ≠ '_') = true := by
    intro x hx
    simp only [List.mem_append, List.mem_cons] at hx
    simp only [decide_eq_true_eq]
    rintro rfl
    rcases hx with (hx | hx) | hx | hx
    · cases negative <;> simp [signText] at hx
    · exact absurd (hdig _ hx) (by decide)
    · exact absurd hx (by decide)
    · exact absurd (hf _ hx) (by decide)
  have hwhole : (whole ++ '.' :: frac).takeWhile Char.isDigit = whole := by
    rw [List.takeWhile_append_of_pos hdig]
    simp
  have hfrac : frac.takeWhile Char.isDigit = frac := List.takeWhile_eq_self_iff.2 hf
  have hrest : frac.dropWhile Char.isDigit = [] := List.dropWhile_eq_nil_iff.2 hf
  have hdrop : (whole ++ '.' :: frac).drop whole.length = '.' :: frac := List.drop_left
  unfold decimalParts
  rw [List.filter_eq_self.2 hnu]
  cases negative
  · -- the first digit is no sign
    obtain ⟨d, ds, hdd, hd⟩ := hw.head
    have hsign : d ≠ '-' ∧ d ≠ '+' := by
      constructor <;> rintro rfl <;> exact absurd hd (by decide)
    simp only [signText, Bool.false_eq_true, if_false, List.nil_append]
    rw [hdd] at hwhole ⊢
    simp only [List.cons_append] at hwhole ⊢
    simp [hsign.1, hsign.2, hwhole, hfrac, hrest]
  · simp [signText, hwhole, hdrop, hfrac, hrest]

theorem decimalOverflows_eq_false {text : List Char} {neg : Bool} {digits : List Char} {e : Int}
    (h : decimalParts text = (neg, digits, e)) (hne : digits ≠ []) (hlen : e + digits.length ≤ 310)
    (hs : (Scientific.mk (digitsValue digits) e).overflows = false) : decimalOverflows text = false := by
  unfold decimalOverflows
  rw [h]
  simp only [List.isEmpty_iff, hne, if_false]
  split_ifs with hbig hsmall
  · omega
  · rfl
  · exact hs

/-- Zero is no overflow: it has no digits once its zeros drop. -/
theorem decimalOverflows_zero (negative : Bool) :
    decimalOverflows (signText negative ++ ['0'] ++ '.' :: ['0']) = false := by
  unfold decimalOverflows
  rw [decimalParts_point negative (Or.inl rfl) (by simp)]
  rfl

theorem toList_toString_nat (d : Nat) : (toString d).toList = Nat.toDigits 10 d := by
  simp

/-- The plain layout writes a decimal positionally: its digits followed by
zeros and `.0`, its digits with the point among them, or `0.`, zeros and its
digits. -/
theorem plain_render_toList (negative : Bool) (s : Scientific) :
    (Layout.plain.render negative s).toList = signText negative ++
      if 0 ≤ s.exponent then
        Nat.toDigits 10 s.digits ++ List.replicate s.exponent.toNat '0' ++ ['.', '0']
      else if 0 < (Nat.toDigits 10 s.digits).length + s.exponent then
        (Nat.toDigits 10 s.digits).take ((Nat.toDigits 10 s.digits).length + s.exponent).toNat ++
          '.' :: (Nat.toDigits 10 s.digits).drop ((Nat.toDigits 10 s.digits).length + s.exponent).toNat
      else
        '0' :: '.' :: (List.replicate (-((Nat.toDigits 10 s.digits).length + s.exponent)).toNat '0' ++
          Nat.toDigits 10 s.digits) := by
  cases negative <;>
    simp only [Layout.render, Layout.plain, toList_toString_nat, and_true, true_and, if_true,
      Bool.false_eq_true, if_false, signText] <;>
    split_ifs <;> first | omega | simp [zeros]

/-- The positional text of a nonzero decimal below the overflow threshold is a
point text that the float reader does not refuse as too large. -/
theorem plain_render_point (negative : Bool) {s : Scientific} (hs : 0 < s.digits)
    (hbelow : s.digits * (powFraction 10 s.exponent).1 < overflowThreshold * (powFraction 10 s.exponent).2) :
    ∃ whole frac, (Layout.plain.render negative s).toList = signText negative ++ whole ++ '.' :: frac ∧
      LeadingDigits whole ∧ (∀ x ∈ frac, x.isDigit = true) ∧ frac ≠ [] ∧
      decimalOverflows (signText negative ++ whole ++ '.' :: frac) = false := by
  have hds := leadingDigits_toDigits s.digits
  have hval := digitsValue_toDigits s.digits
  have hne : Nat.toDigits 10 s.digits ≠ ['0'] := by
    intro h
    rw [h] at hval
    simp [digitsValue] at hval
    omega
  have hlen := exponent_add_length_le hs hbelow
  have hover := overflows_eq_false hbelow
  rw [plain_render_toList]
  generalize Nat.toDigits 10 s.digits = ds at hds hval hne hlen
  -- the digits open with a digit other than zero
  obtain ⟨d, ds', rfl, hd1, hd9, hds'⟩ : ∃ d ds', ds = d :: ds' ∧ '1' ≤ d ∧ d ≤ '9' ∧
      ∀ x ∈ ds', x.isDigit = true := by
    rcases hds with rfl | h
    · exact absurd rfl hne
    · exact h
  have hd0 : d ≠ '0' := by rintro rfl; exact absurd hd1 (by decide)
  have hdig : ∀ x ∈ d :: ds', x.isDigit = true := hds.isDigit
  have hkeep : ∀ r, (d :: r).dropWhile (· = '0') = d :: r := fun r => by simp [hd0]
  have hzero : ∀ x ∈ List.replicate s.exponent.toNat '0', x.isDigit = true := by
    intro x hx
    rw [List.eq_of_mem_replicate hx]
    rfl
  split_ifs with hk hkk
  · -- digits, zeros and `.0`: the value gains a zero and loses it to the point
    have hw : LeadingDigits (d :: ds' ++ List.replicate s.exponent.toNat '0') :=
      Or.inr ⟨d, ds' ++ List.replicate s.exponent.toNat '0', rfl, hd1, hd9, fun x hx =>
        (List.mem_append.1 hx).elim (hds' x) (hzero x)⟩
    refine ⟨_, ['0'], by simp, hw, by simp, by simp, ?_⟩
    have hparts := @decimalParts_point negative _ ['0'] hw (by simp)
    have hall : d :: ds' ++ List.replicate s.exponent.toNat '0' ++ ['0'] =
        (d :: ds') ++ List.replicate (s.exponent.toNat + 1) '0' := by
      simp [List.replicate_succ']
    have hdrop : ((d :: ds') ++ List.replicate (s.exponent.toNat + 1) '0').dropWhile (· = '0') =
        (d :: ds') ++ List.replicate (s.exponent.toNat + 1) '0' := by
      rw [List.cons_append]
      exact hkeep _
    rw [hall, hdrop] at hparts
    have hlen' : s.exponent + (ds'.length + 1) ≤ 309 := by simpa using hlen
    refine decimalOverflows_eq_false hparts (by simp) (by simp; omega) (overflows_eq_false ?_)
    -- ten times the decimal is below ten times the threshold
    rw [digitsValue_append, hval, digitsValue_replicate_zero, Nat.add_zero, List.length_replicate,
      show Nat.pow 10 (s.exponent.toNat + 1) = Nat.pow 10 s.exponent.toNat * 10 from rfl]
    simp only [powFraction, if_pos hk] at hbelow
    simp only [powFraction, List.length_singleton]
    rw [if_neg (by omega), show (-(-((1 : Nat) : Int))).toNat = 1 by rfl, show Nat.pow 10 1 = 10 from rfl]
    generalize overflowThreshold = T at hbelow ⊢
    generalize Nat.pow 10 s.exponent.toNat = P at hbelow ⊢
    have := Nat.mul_lt_mul_of_pos_right hbelow (show 0 < 10 by decide)
    simp only [Nat.mul_one] at this ⊢
    rw [← Nat.mul_assoc]
    exact this
  · -- the point among the digits: they read back as they are
    obtain ⟨m, hm⟩ : ∃ m, ((d :: ds').length + s.exponent).toNat = m + 1 :=
      ⟨((d :: ds').length + s.exponent).toNat - 1, by omega⟩
    have hw : LeadingDigits ((d :: ds').take (m + 1)) :=
      Or.inr ⟨d, ds'.take m, rfl, hd1, hd9, fun x hx => hds' x (List.mem_of_mem_take hx)⟩
    have hf : ∀ x ∈ (d :: ds').drop (m + 1), x.isDigit = true := fun x hx => hdig x (List.mem_of_mem_drop hx)
    have hfne : (d :: ds').drop (m + 1) ≠ [] := by
      rw [ne_eq, List.drop_eq_nil_iff]
      simp only [List.length_cons] at hm ⊢
      omega
    refine ⟨_, _, by rw [hm]; simp, hw, hf, hfne, ?_⟩
    have hparts := decimalParts_point negative hw hf
    rw [List.take_append_drop, hkeep,
      show -(((d :: ds').drop (m + 1)).length : Int) = s.exponent by simp only [List.length_drop]; omega] at hparts
    exact decimalOverflows_eq_false hparts (by simp) (by omega) (by rw [hval]; exact hover)
  · -- `0.`, zeros and the digits: the zeros before the digits drop
    have hf : ∀ x ∈ List.replicate (-((d :: ds').length + s.exponent)).toNat '0' ++ d :: ds',
        x.isDigit = true := by
      intro x hx
      rcases List.mem_append.1 hx with hx | hx
      · rw [List.eq_of_mem_replicate hx]
        rfl
      · exact hdig x hx
    refine ⟨['0'], _, by simp, Or.inl rfl, hf, by simp, ?_⟩
    have hparts := decimalParts_point negative (Or.inl rfl) hf
    have hdrop : (['0'] ++ (List.replicate (-((d :: ds').length + s.exponent)).toNat '0' ++ d :: ds')).dropWhile
        (· = '0') = d :: ds' := by
      rw [← List.append_assoc, show ['0'] ++ List.replicate (-((d :: ds').length + s.exponent)).toNat '0' =
        List.replicate ((-((d :: ds').length + s.exponent)).toNat + 1) '0' by simp [List.replicate_succ],
        dropWhile_zero_replicate, hkeep]
    rw [hdrop,
      show -((List.replicate (-((d :: ds').length + s.exponent)).toNat '0' ++ d :: ds').length : Int) =
        s.exponent by simp only [List.length_append, List.length_replicate]; omega] at hparts
    exact decimalOverflows_eq_false hparts (by simp) (by omega) (by rw [hval]; exact hover)

/-! ## The reader -/

namespace Reader

theorem digitsFrom_digits {ds : List Char} (hds : ∀ x ∈ ds, x.isDigit = true) (hne : ds ≠ [])
    (expected : List String) {y : Char} (hy : y.isDigit = false ∧ y ≠ '_') (t : List Char) (off : Nat) :
    ∃ off', digitsFrom expected ⟨ds ++ y :: t, off⟩ = .ok ((), ⟨y :: t, off'⟩) := by
  obtain ⟨d, ds', rfl⟩ := List.exists_cons_of_ne_nil hne
  have hd : d.isDigit = true := hds d (by simp)
  have hrun := digitRun_digits (fun x hx => hds x (List.mem_cons_of_mem d hx)) hy t
    ((ds' ++ y :: t).length + 1) (off + d.utf8Size) (by simp)
  refine ⟨off + d.utf8Size + ds'.length, ?_⟩
  simp only [digitsFrom, List.cons_append, bind_apply, peek, get_apply, ok_bind, pure_apply, List.head?_cons,
    hd, if_true, bump_cons, ahead, hrun]

/-- The text of a float with a fraction and no exponent reads as a whole. -/
theorem floatText_point (negative : Bool) {whole frac : List Char} (hw : LeadingDigits whole)
    (hf : ∀ x ∈ frac, x.isDigit = true) (hfne : frac ≠ []) {y : Char} (hy : EndChar y) (t : List Char)
    (off : Nat) : ∃ off', floatText ⟨(signText negative ++ whole ++ '.' :: frac) ++ y :: t, off⟩ =
      .ok (signText negative ++ whole ++ '.' :: frac, ⟨y :: t, off'⟩) := by
  have hint := decimalText_digits negative hw (y := '.') ⟨rfl, by decide⟩ (frac ++ y :: t) off
  obtain ⟨off₂, hfrac⟩ := digitsFrom_digits hf hfne ["digit"] ⟨hy.ne.1, hy.ne.2.1⟩ t
    (off + (signText negative ++ whole).length + '.'.utf8Size)
  refine ⟨off₂, ?_⟩
  unfold floatText
  rw [bind_apply, @recognize_ok _ _ (signText negative ++ whole ++ '.' :: frac) (y :: t) _ off off₂ () ?body rfl]
  · rfl
  case body =>
    rw [show signText negative ++ whole ++ '.' :: frac ++ y :: t =
      (signText negative ++ whole) ++ '.' :: (frac ++ y :: t) by simp]
    simp only [bind_apply, hint, ok_bind, peek, get_apply, pure_apply, List.head?_cons, bump_cons, hfrac]
    -- no exponent follows the fraction
    rcases hy with rfl | rfl | rfl | rfl <;> rfl

theorem float_point (negative : Bool) {whole frac : List Char} (hw : LeadingDigits whole)
    (hf : ∀ x ∈ frac, x.isDigit = true) (hfne : frac ≠ [])
    (hover : decimalOverflows (signText negative ++ whole ++ '.' :: frac) = false) {y : Char} (hy : EndChar y)
    (t : List Char) (off : Nat) : ∃ off', float ⟨(signText negative ++ whole ++ '.' :: frac) ++ y :: t, off⟩ =
      .ok (decimalFloat (signText negative ++ whole ++ '.' :: frac), ⟨y :: t, off'⟩) := by
  obtain ⟨off', htext⟩ := floatText_point negative hw hf hfne hy t off
  refine ⟨off', within_ok ?_⟩
  simp only [bind_apply, offset, get_apply, ok_bind, attempt_ok htext, hover, Bool.false_eq_true, if_false,
    pure_apply]

/-- A point text is no date-time: its leading digits, if any, end at the point. -/
theorem digitsEnd_point (negative : Bool) {whole frac : List Char} (hw : LeadingDigits whole) (r : List Char) :
    DigitsEnd ((signText negative ++ whole ++ '.' :: frac) ++ r) := by
  cases negative with
  | true => exact digitsEnd_sign _
  | false =>
    simpa [signText] using digitsEnd_digits hw.isDigit (y := '.') ⟨rfl, by decide, by decide⟩ (frac ++ r)

theorem number_point (negative : Bool) {whole frac : List Char} (hw : LeadingDigits whole)
    (hf : ∀ x ∈ frac, x.isDigit = true) (hfne : frac ≠ [])
    (hover : decimalOverflows (signText negative ++ whole ++ '.' :: frac) = false) {y : Char} (hy : EndChar y)
    (t : List Char) (off : Nat) : ∃ off', number ⟨(signText negative ++ whole ++ '.' :: frac) ++ y :: t, off⟩ =
      .ok (.float (decimalFloat (signText negative ++ whole ++ '.' :: frac)), ⟨y :: t, off'⟩) := by
  obtain ⟨off', hfl⟩ := float_point negative hw hf hfne hover hy t off
  have hdate := dateTime_declines (c := ⟨(signText negative ++ whole ++ '.' :: frac) ++ y :: t, off⟩)
    (digitsEnd_point negative hw (y :: t))
  refine ⟨off', ?_⟩
  unfold number
  rw [bind_apply, hdate.attempt, ok_bind]
  dsimp only
  rw [bind_apply, attempt_ok hfl, ok_bind]
  rfl

/-- The value reader reads a float written with a point, when it is not too
large. -/
theorem value_point (negative : Bool) {whole frac : List Char} (hw : LeadingDigits whole)
    (hf : ∀ x ∈ frac, x.isDigit = true) (hfne : frac ≠ [])
    (hover : decimalOverflows (signText negative ++ whole ++ '.' :: frac) = false) (fuel : Nat) {y : Char}
    (hy : EndChar y) (t : List Char) (off : Nat) :
    ∃ g off', value (fuel + 1) ⟨(signText negative ++ whole ++ '.' :: frac) ++ y :: t, off⟩ =
      .ok (.scalar (.float g) ⟨off, off'⟩, ⟨y :: t, off'⟩) := by
  obtain ⟨off', hnum⟩ := number_point negative hw hf hfne hover hy t off
  refine ⟨decimalFloat (signText negative ++ whole ++ '.' :: frac), off', ?_⟩
  -- the text opens with a sign or a digit
  obtain ⟨d, ds, hdd, hd⟩ := hw.head
  have hopen : ∃ x r, signText negative ++ whole ++ '.' :: frac = x :: r ∧ (x = '-' ∨ x.isDigit = true) := by
    rw [hdd]
    cases negative
    · exact ⟨d, ds ++ '.' :: frac, rfl, Or.inr hd⟩
    · exact ⟨'-', d :: ds ++ '.' :: frac, rfl, Or.inl rfl⟩
  obtain ⟨x, r, hxr, hx⟩ := hopen
  rw [hxr, List.cons_append] at hnum ⊢
  exact value_of_number hx hnum fuel

/-- The words of the floats that are no numbers. -/
theorem value_specialFloat {w : String} (hw : w = "nan" ∨ w = "-nan" ∨ w = "inf" ∨ w = "-inf") (fuel : Nat)
    (t : List Char) (off : Nat) :
    ∃ g off', value (fuel + 1) ⟨w.toList ++ t, off⟩ = .ok (.scalar (.float g) ⟨off, off'⟩, ⟨t, off'⟩) := by
  rcases hw with rfl | rfl | rfl | rfl <;> exact ⟨_, _, rfl⟩

/-- The value reader reads the written text of every float. -/
theorem value_floatText (f : Float) (fuel : Nat) {y : Char} (hy : EndChar y) (t : List Char) (off : Nat) :
    ∃ g off', value (fuel + 1) ⟨(Toml.floatText f).toList ++ y :: t, off⟩ =
      .ok (.scalar (.float g) ⟨off, off'⟩, ⟨y :: t, off'⟩) := by
  unfold Toml.floatText
  cases hnan : f.isNaN
  · simp only [Bool.false_eq_true, if_false, Layout.format, hnan]
    cases hb : Binary.ofBits f.toBits with
    | none =>
      -- an infinity
      split_ifs
      · exact value_specialFloat (by simp) fuel (y :: t) off
      · exact value_specialFloat (by simp) fuel (y :: t) off
    | some b =>
      obtain ⟨hm, he⟩ := Binary.ofBits_bounds hb
      dsimp only
      split_ifs with h0 hneg
      · -- a zero: `-0.0` or `0.0`
        exact value_point true (Or.inl rfl) (by simp) (by simp) (decimalOverflows_zero true) fuel hy t off
      · exact value_point false (Or.inl rfl) (by simp) (by simp) (decimalOverflows_zero false) fuel hy t off
      · obtain ⟨hpos, hbelow⟩ := Binary.shortest_below hm he (Nat.pos_of_ne_zero h0)
        obtain ⟨whole, frac, htext, hw, hf, hfne, hover⟩ := plain_render_point b.negative hpos hbelow
        rw [htext]
        exact value_point b.negative hw hf hfne hover fuel hy t off
  · -- not a number, with or without its sign
    simp only [if_true]
    split_ifs
    · exact value_specialFloat (by simp) fuel (y :: t) off
    · exact value_specialFloat (by simp) fuel (y :: t) off

end Reader

end LotBridge.Toml
