import LotBridge.Text.Unsigned

/-!
# Unsigned numerals

What `readUnsigned` accepts: at most one `+` and a nonempty numeral whose
value, read digit by digit, stays below the bound
(`Text.readUnsigned_eq_ok_iff`). The value only grows as digits are read, so
every prefix stays below the bound once the whole does; leading zeros change
nothing. Hence the decimal text of a number below the bound reads back as the
number (`Text.readUnsigned_toString`), and the numerals of a nonzero digit are
that digit after zeros (`Text.digitsValue_eq_digit_iff`).

## Main statements

* `Text.readUnsigned_eq_ok_iff`, `Text.readUnsigned_lt`.
* `Text.readUnsigned_toString`: decimal text reads back.
* `Text.readUnsigned_eq_digit_iff`: the texts of a one-digit value.
-/

namespace LotBridge.Text

/-! ## Reading digit by digit -/

/-- A numeral that reads starts with a digit that keeps the value below the
bound, and its rest reads from there. -/
theorem digitsValue_cons_ok {bound acc n : Nat} {c : Char} {cs : List Char}
    (h : digitsValue bound (c :: cs) acc = .ok n) :
    ('0' ≤ c ∧ c ≤ '9') ∧ acc * 10 + (c.toNat - 48) < bound ∧
      digitsValue bound cs (acc * 10 + (c.toNat - 48)) = .ok n := by
  simp only [digitsValue] at h
  split at h
  · rename_i hc
    split at h
    · rename_i hlt
      exact ⟨hc, hlt, h⟩
    · cases h
  · cases h

/-- A value read below the bound stays below it. -/
theorem digitsValue_lt {bound : Nat} :
    ∀ {ds : List Char} {acc n : Nat}, acc < bound → digitsValue bound ds acc = .ok n → n < bound
  | [], acc, n, hacc, h => by
    simp only [digitsValue, Except.ok.injEq] at h
    exact h ▸ hacc
  | c :: cs, acc, n, hacc, h => digitsValue_lt (digitsValue_cons_ok h).2.1 (digitsValue_cons_ok h).2.2

/-- Reading digits only makes the value grow, tenfold for every digit read. -/
theorem digitsValue_ge {bound : Nat} :
    ∀ {ds : List Char} {acc n : Nat}, digitsValue bound ds acc = .ok n →
      acc ≤ n ∧ (ds ≠ [] → 10 * acc ≤ n)
  | [], acc, n, h => by
    simp only [digitsValue, Except.ok.injEq] at h
    exact ⟨h ▸ Nat.le_refl acc, fun hne => absurd rfl hne⟩
  | c :: cs, acc, n, h => by
    have hrest := (digitsValue_ge (digitsValue_cons_ok h).2.2).1
    exact ⟨by omega, fun _ => by omega⟩

/-- Leading zeros do not change a numeral's value. -/
theorem digitsValue_zeros {bound : Nat} (hb : 0 < bound) (zeros : Nat) (ds : List Char) :
    digitsValue bound (List.replicate zeros '0' ++ ds) 0 = digitsValue bound ds 0 := by
  induction zeros with
  | zero => rfl
  | succ z ih =>
    rw [List.replicate_succ, List.cons_append, ← ih]
    simp [digitsValue, hb]

/-- **The numerals of a nonzero digit's value** are that digit after any
number of zeros. -/
theorem digitsValue_eq_digit_iff {bound : Nat} {d : Char} (hd : '1' ≤ d ∧ d ≤ '9')
    (hb : d.toNat - 48 < bound) (ds : List Char) :
    digitsValue bound ds 0 = .ok (d.toNat - 48) ↔ ∃ zeros, ds = List.replicate zeros '0' ++ [d] := by
  have hd' : 49 ≤ d.toNat ∧ d.toNat ≤ 57 := hd
  constructor
  · intro h
    induction ds with
    | nil =>
      simp only [digitsValue, Except.ok.injEq] at h
      omega
    | cons c cs ih =>
      obtain ⟨hc, -, hrest⟩ := digitsValue_cons_ok h
      have hc' : 48 ≤ c.toNat ∧ c.toNat ≤ 57 := hc
      by_cases hzero : c.toNat = 48
      · -- a leading zero: the rest is a numeral of the digit
        rw [hzero] at hrest
        obtain ⟨zeros, rfl⟩ := ih hrest
        refine ⟨zeros + 1, ?_⟩
        rw [Char.toNat_inj.1 (show c.toNat = '0'.toNat from hzero)]
        rfl
      · -- a nonzero digit: nothing may follow it, and it is the digit
        obtain ⟨-, hten⟩ := digitsValue_ge hrest
        have hnil : cs = [] := by
          cases cs with
          | nil => rfl
          | cons x xs => exact absurd (hten (List.cons_ne_nil x xs)) (by omega)
        subst hnil
        simp only [digitsValue, Except.ok.injEq] at hrest
        exact ⟨0, by simp [Char.toNat_inj.1 (show c.toNat = d.toNat by omega)]⟩
  · rintro ⟨zeros, rfl⟩
    have hdigit : '0' ≤ d ∧ d ≤ '9' := ⟨show 48 ≤ d.toNat by omega, hd.2⟩
    rw [digitsValue_zeros (by omega)]
    simp [digitsValue, hdigit, hb]

/-- A text reads as an unsigned number exactly when it is at most one `+`
and a nonempty numeral of that number. -/
theorem readUnsigned_eq_ok_iff (bound n : Nat) (s : String) :
    readUnsigned bound s = .ok n ↔
      ∃ sign ∈ [[], ['+']], ∃ ds, s.toList = sign ++ ds ∧ ds ≠ [] ∧ digitsValue bound ds 0 = .ok n := by
  unfold readUnsigned
  generalize s.toList = cs
  cases cs with
  | nil => simp
  | cons c rest =>
    by_cases hc : c = '+'
    · subst hc
      cases rest with
      | nil => simp [digitsValue]
      | cons d ds =>
        -- unsigned, the numeral would start with the `+`
        have hplus : digitsValue bound ('+' :: d :: ds) 0 ≠ .ok n := by
          simp [digitsValue]
        simp [hplus]
    · simp [hc]

/-- A text reads as a nonzero digit's value exactly when it is at most one
`+` and the digit after any number of zeros. -/
theorem readUnsigned_eq_digit_iff {bound : Nat} {d : Char} (hd : '1' ≤ d ∧ d ≤ '9')
    (hb : d.toNat - 48 < bound) (s : String) :
    readUnsigned bound s = .ok (d.toNat - 48) ↔
      ∃ sign ∈ [[], ['+']], ∃ zeros, s.toList = sign ++ List.replicate zeros '0' ++ [d] := by
  rw [readUnsigned_eq_ok_iff]
  constructor
  · rintro ⟨sign, hsign, ds, hs, -, hds⟩
    obtain ⟨zeros, rfl⟩ := (digitsValue_eq_digit_iff hd hb ds).1 hds
    exact ⟨sign, hsign, zeros, by rw [hs, List.append_assoc]⟩
  · rintro ⟨sign, hsign, zeros, hs⟩
    refine ⟨sign, hsign, List.replicate zeros '0' ++ [d], by rw [hs, List.append_assoc], by simp, ?_⟩
    exact (digitsValue_eq_digit_iff hd hb _).2 ⟨zeros, rfl⟩

/-- A value read is below the bound. -/
theorem readUnsigned_lt {bound n : Nat} {s : String} (hb : 0 < bound) (h : readUnsigned bound s = .ok n) :
    n < bound := by
  obtain ⟨-, -, ds, -, -, hds⟩ := (readUnsigned_eq_ok_iff bound n s).1 h
  exact digitsValue_lt hb hds

/-! ## Decimal text -/

/-- The value of a numeral is at least the value read before it. -/
theorem le_ofDigitChars (ds : List Char) (acc : Nat) : acc ≤ Nat.ofDigitChars 10 ds acc := by
  induction ds generalizing acc with
  | nil => simp [Nat.ofDigitChars_nil]
  | cons c cs ih =>
    rw [Nat.ofDigitChars_cons]
    have := ih (10 * acc + (c.toNat - '0'.toNat))
    omega

/-- A numeral of ASCII digits whose value is below the bound reads as that
value. -/
theorem digitsValue_of_digits {bound : Nat} :
    ∀ {ds : List Char} {acc : Nat}, (∀ c ∈ ds, c.isDigit = true) → Nat.ofDigitChars 10 ds acc < bound →
      digitsValue bound ds acc = .ok (Nat.ofDigitChars 10 ds acc)
  | [], acc, _, _ => by simp [digitsValue, Nat.ofDigitChars_nil]
  | c :: cs, acc, hds, hlt => by
    have hc : '0' ≤ c ∧ c ≤ '9' := by
      have hdigit : 48 ≤ c.val ∧ c.val ≤ 57 := by simpa [Char.isDigit] using hds c List.mem_cons_self
      exact hdigit
    have hzero : '0'.toNat = 48 := rfl
    rw [Nat.ofDigitChars_cons, hzero] at hlt ⊢
    -- the value after the first digit is no more than the whole
    have hmono := le_ofDigitChars cs (10 * acc + (c.toNat - 48))
    have hnext : acc * 10 + (c.toNat - 48) = 10 * acc + (c.toNat - 48) := by omega
    have hrest := digitsValue_of_digits (fun x hx => hds x (List.mem_cons_of_mem c hx)) hlt
    simp only [digitsValue, hc, and_self, if_true, hnext]
    rw [if_pos (by omega), hrest]

/-- **The decimal text of a number below the bound reads back as the number.** -/
theorem readUnsigned_toString {bound n : Nat} (h : n < bound) : readUnsigned bound (toString n) = .ok n := by
  have hdigits : ∀ c ∈ Nat.toDigits 10 n, c.isDigit = true :=
    fun c hc => Nat.isDigit_of_mem_toDigits (by decide) (by decide) hc
  have hval : Nat.ofDigitChars 10 (Nat.toDigits 10 n) 0 = n := Nat.ofDigitChars_toDigits (by decide) (by decide)
  refine (readUnsigned_eq_ok_iff bound n _).2 ⟨[], by simp, Nat.toDigits 10 n, ?_, Nat.toDigits_ne_nil, ?_⟩
  · rw [Nat.toString_eq_repr, Nat.toList_repr]
    rfl
  · have hread : digitsValue bound (Nat.toDigits 10 n) 0 = .ok (Nat.ofDigitChars 10 (Nat.toDigits 10 n) 0) :=
      digitsValue_of_digits hdigits (by rw [hval]; exact h)
    rwa [hval] at hread

end LotBridge.Text
