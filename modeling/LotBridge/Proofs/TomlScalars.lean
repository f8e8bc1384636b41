import LotBridge.Proofs.TomlStrings

/-!
# Written TOML scalars read back

Every integer that fits 64 bits and every boolean, written inline, is read
back by the value reader as itself, and so is every string; a key made of
bare characters is read back as itself, alone or in a dotted path.

An integer is written with its sign and its digits, and a value written
inline is followed by a character that ends it (`EndChar`): a line break, a
comma, a closing bracket or a blank. The value reader tries a date-time and a
float first: both give way softly at that character, a date-time because no
separator follows the leading digits and a float because neither a fraction
nor an exponent does. The integer reader then takes the sign and the digits,
the first of them not a zero unless it stands alone.

## Main definitions

* `Reader.Declines`: a reader refusing softly, leaving room for another.
* `EndChar`: the characters that end a value written inline.
* `Value.IsScalar`: the values written on one line that read back.
* `BareKey`: keys written without quotes.

## Main statements

* `number_toDigits`: the number reader reads a written integer back.
* `value_inlineText`: the value reader reads a written scalar back.
* `dottedKey_bare`, `dottedKey_path`: keys and paths read back.
-/

namespace LotBridge.Toml

open LotBridge.Json (char_le_iff)

namespace Reader

/-! ## Soft refusals -/

/-- A reader declines at a cursor: it refuses softly, so that another reading
may be tried. -/
def Declines {α : Type} (r : Reader α) (c : Cursor) : Prop := ∃ f, r c = .error f ∧ f.soft = true

theorem Declines.bind {α β : Type} {x : Reader α} {c : Cursor} (h : Declines x c) (f : α → Reader β) :
    Declines (x >>= f) c := by
  obtain ⟨e, he, hs⟩ := h
  exact ⟨e, by rw [bind_apply, he]; rfl, hs⟩

theorem Declines.bind_ok {α β : Type} {x : Reader α} {f : α → Reader β} {c c' : Cursor} {a : α}
    (hx : x c = .ok (a, c')) (h : Declines (f a) c') : Declines (x >>= f) c := by
  rw [Declines, bind_apply, hx]
  exact h

theorem Declines.within {α : Type} {r : Reader α} {c : Cursor} (h : Declines r c) (label : Option String)
    (expected : List String) : Declines (within label expected r) c := by
  obtain ⟨e, he, hs⟩ := h
  exact within_soft he hs

theorem Declines.attempt {α : Type} {r : Reader α} {c : Cursor} (h : Declines r c) :
    attempt r c = .ok (none, c) := by
  obtain ⟨e, he, hs⟩ := h
  exact attempt_soft he hs

theorem declines_decline {α : Type} (label : Option String) (expected : List String) (c : Cursor) :
    Declines (decline label expected : Reader α) c := ⟨_, rfl, rfl⟩

theorem declines_failAt {α : Type} (o : Nat) (l : Option String) (e : List String) (cause : Option String)
    (c : Cursor) : Declines (failAt o l e cause true : Reader α) c := ⟨_, rfl, rfl⟩

/-! ## Characters -/

theorem char_isDigit_iff (c : Char) : c.isDigit = true ↔ 48 ≤ c.toNat ∧ c.toNat ≤ 57 := by
  simp only [Char.isDigit, Char.reduceVal, Bool.and_eq_true, decide_eq_true_eq,
    UInt32.le_iff_toNat_le, UInt32.reduceToNat, Char.toNat_val]

theorem utf8Size_of_isDigit {c : Char} (h : c.isDigit = true) : c.utf8Size = 1 := by
  rw [char_isDigit_iff] at h
  simp only [Char.utf8Size_eq_one_iff, UInt32.le_iff_toNat_le, Char.toNat_val, UInt32.reduceToNat]
  omega


/-- A character that may end a value written inline: the line break after a
key-value pair, a comma or a closing bracket in an array, a comma or a blank
in an inline table. -/
def EndChar (y : Char) : Prop := y = '\n' ∨ y = ',' ∨ y = ']' ∨ y = ' '

instance : DecidablePred EndChar := fun _ => inferInstanceAs (Decidable (_ ∨ _))

/-- No character that ends a value goes on a number, a date-time or a
string. -/
theorem EndChar.ne {y : Char} (hy : EndChar y) :
    y.isDigit = false ∧ y ≠ '_' ∧ y ≠ '.' ∧ y ≠ 'e' ∧ y ≠ 'E' ∧ y ≠ '-' ∧ y ≠ ':' ∧ y ≠ '"' ∧ y ≠ '\'' := by
  rcases hy with rfl | rfl | rfl | rfl <;> decide

/-- The sign of a written integer: a minus for a negative one. -/
def signText (negative : Bool) : List Char := if negative then ['-'] else []

/-! ## No date-time in a written integer

A date starts with four digits and a dash, a time with two digits and a
colon; after the leading digits of a written integer comes another digit or
the line break. -/

/-- Fixed digits either decline or read the first `n` characters, all of them
digits. -/
theorem fixedDigits_cases (n : Nat) (c : Cursor) :
    Declines (fixedDigits n) c ∨
      ∃ v off', fixedDigits n c = .ok (v, ⟨c.rest.drop n, off'⟩) ∧ (c.rest.take n).length = n ∧
        ∀ x ∈ c.rest.take n, x.isDigit = true := by
  by_cases h : ((c.rest.take n).length = n && (c.rest.take n).all Char.isDigit) = true
  · right
    refine ⟨digitsValue (c.rest.take n), c.offset + byteLength (c.rest.take n), ?_, ?_⟩
    · simp only [fixedDigits, bind_apply, ahead, get_apply, ok_bind, pure_apply]
      rw [if_pos h]
      rfl
    · simpa only [Bool.and_eq_true, decide_eq_true_eq, List.all_eq_true] using h
  · left
    simp only [fixedDigits, Declines, bind_apply, ahead, get_apply, ok_bind, pure_apply]
    rw [if_neg h]
    exact declines_decline _ _ _

theorem expectChar_declines {x : Char} {c : Cursor} (h : c.rest.head? ≠ some x) :
    Declines (expectChar x) c := by
  simp only [expectChar, Declines, bind_apply, peek, get_apply, ok_bind, pure_apply]
  rw [if_neg h]
  exact declines_decline _ _ _

theorem inRange_apply (lo hi : Nat) (r : Reader Nat) (c : Cursor) :
    inRange lo hi r c = (r >>= fun v => if lo ≤ v && v ≤ hi then pure v
      else failAt c.offset none [] (some "value is out of range") true) c := rfl

theorem inRange_declines {r : Reader Nat} {c : Cursor} (h : Declines r c) (lo hi : Nat) :
    Declines (inRange lo hi r) c := by
  unfold Declines
  rw [inRange_apply]
  exact h.bind _

/-- A number read in range is kept; one out of range declines. -/
theorem inRange_ok {r : Reader Nat} {c c' : Cursor} {v : Nat} (h : r c = .ok (v, c')) (lo hi : Nat) :
    inRange lo hi r c = .ok (v, c') ∨ Declines (inRange lo hi r) c := by
  unfold Declines
  rw [inRange_apply, bind_apply, h, ok_bind]
  by_cases hv : (lo ≤ v && v ≤ hi) = true
  · left
    rw [if_pos hv]
    rfl
  · right
    rw [if_neg hv]
    exact declines_failAt _ _ _ _ _

/-- After some leading digits of the text comes no date or time separator. -/
def DigitsEnd (cs : List Char) : Prop :=
  ∀ n, 0 < n → (∀ x ∈ cs.take n, x.isDigit = true) → (cs.drop n).head? ≠ some '-' ∧ (cs.drop n).head? ≠ some ':'

/-- Digits followed by a character that is neither a digit nor a separator. -/
theorem digitsEnd_digits {ds : List Char} (hds : ∀ x ∈ ds, x.isDigit = true) {y : Char}
    (hy : y.isDigit = false ∧ y ≠ '-' ∧ y ≠ ':') (t : List Char) : DigitsEnd (ds ++ y :: t) := by
  intro n hn hdig
  induction ds generalizing n with
  | nil =>
    cases n with
    | zero => simp [hy.2.1, hy.2.2]
    | succ m => exact absurd (hdig y (by simp)) (by simp [hy.1])
  | cons d ds ih =>
    cases n with
    | zero =>
      have hd := hds d (by simp)
      refine ⟨?_, ?_⟩ <;> rintro h <;> cases h <;> revert hd <;> decide
    | succ m =>
      simp only [List.cons_append, List.take_succ_cons, List.drop_succ_cons, List.mem_cons,
        forall_eq_or_imp] at hdig ⊢
      rcases Nat.eq_zero_or_pos m with rfl | hm
      · cases ds with
        | nil => simp [hy.2.1, hy.2.2]
        | cons d' ds' =>
          have hd' := hds d' (by simp)
          refine ⟨?_, ?_⟩ <;> rintro h <;> cases h <;> revert hd' <;> decide
      · exact ih (fun x hx => hds x (List.mem_cons_of_mem d hx)) m hm hdig.2

/-- A text that starts with a sign has no leading digits. -/
theorem digitsEnd_sign (r : List Char) : DigitsEnd ('-' :: r) := by
  intro n hn hdig
  obtain ⟨m, rfl⟩ : ∃ m, n = m + 1 := ⟨n - 1, by omega⟩
  exact absurd (hdig '-' (by simp)) (by decide)

theorem digitsEnd_number (negative : Bool) {ds : List Char} (hds : ∀ x ∈ ds, x.isDigit = true)
    {y : Char} (hy : EndChar y) (t : List Char) : DigitsEnd ((signText negative ++ ds) ++ y :: t) := by
  cases negative with
  | false => simpa [signText] using digitsEnd_digits hds ⟨hy.ne.1, hy.ne.2.2.2.2.2.1, hy.ne.2.2.2.2.2.2.1⟩ t
  | true => exact digitsEnd_sign _

theorem fullDate_declines {c : Cursor} (hc : DigitsEnd c.rest) : Declines fullDate c := by
  unfold fullDate
  rcases fixedDigits_cases 4 c with hd | ⟨v, off', hv, -, hdig⟩
  · exact hd.bind _
  · exact Declines.bind_ok hv ((expectChar_declines (hc 4 (by omega) hdig).1).bind _)

theorem partialTime_declines {c : Cursor} (hc : DigitsEnd c.rest) : Declines partialTime c := by
  unfold partialTime
  rcases fixedDigits_cases 2 c with hd | ⟨v, off', hv, -, hdig⟩
  · exact (inRange_declines hd 0 23).bind _
  · rcases inRange_ok hv 0 23 with hr | hr
    · exact Declines.bind_ok hr ((expectChar_declines (hc 2 (by omega) hdig).2).bind _)
    · exact hr.bind _

/-- Text that is no date and no time is no date-time. -/
theorem dateTime_declines {c : Cursor} (hc : DigitsEnd c.rest) : Declines dateTime c := by
  unfold dateTime
  exact (Declines.bind_ok (fullDate_declines hc).attempt ((partialTime_declines hc).bind _)).within _ _

/-! ## Decimal digits -/

/-- The digits of a decimal integer: a lone zero, or no leading zero. -/
def LeadingDigits (ds : List Char) : Prop :=
  ds = ['0'] ∨ ∃ d ds', ds = d :: ds' ∧ '1' ≤ d ∧ d ≤ '9' ∧ ∀ x ∈ ds', x.isDigit = true

theorem leadingDigits_toDigits (n : Nat) : LeadingDigits (Nat.toDigits 10 n) := by
  rcases Nat.eq_zero_or_pos n with rfl | hn
  · left
    rfl
  · right
    obtain ⟨d, ds, hds, hd0⟩ := LotBridge.Json.toDigits_head n hn
    have hdig : ∀ x ∈ Nat.toDigits 10 n, x.isDigit = true :=
      fun x hx => Nat.isDigit_of_mem_toDigits (by decide) (by decide) hx
    rw [hds] at hdig
    have hd := (char_isDigit_iff d).1 (hdig d (by simp))
    refine ⟨d, ds, hds, ?_, ?_, fun x hx => hdig x (by simp [hx])⟩
    · rw [char_le_iff]
      simp only [Char.toNat_inj.symm.not, Char.reduceToNat] at hd0
      simp only [Char.reduceToNat]
      omega
    · rw [char_le_iff]
      simp only [Char.reduceToNat]
      omega

theorem LeadingDigits.isDigit {ds : List Char} (h : LeadingDigits ds) : ∀ x ∈ ds, x.isDigit = true := by
  rcases h with rfl | ⟨d, ds', rfl, h1, h2, hds'⟩
  · simp
  · rw [char_le_iff] at h1 h2
    simp only [Char.reduceToNat] at h1 h2
    intro x hx
    rcases List.mem_cons.1 hx with rfl | hx
    · exact (char_isDigit_iff x).2 ⟨by omega, by omega⟩
    · exact hds' x hx

theorem LeadingDigits.head {ds : List Char} (h : LeadingDigits ds) :
    ∃ d ds', ds = d :: ds' ∧ d.isDigit = true := by
  have hdig := h.isDigit
  rcases h with rfl | ⟨d, ds', rfl, -⟩
  · exact ⟨'0', [], rfl, rfl⟩
  · exact ⟨d, ds', rfl, hdig d (by simp)⟩

theorem recognize_ok {α : Type} {r : Reader α} {pre rest rest' : List Char} {off off' : Nat} {a : α}
    (h : r ⟨pre ++ rest, off⟩ = .ok (a, ⟨rest', off'⟩)) (hrest : rest' = rest) :
    recognize r ⟨pre ++ rest, off⟩ = .ok ((pre, a), ⟨rest, off'⟩) := by
  subst hrest
  simp only [recognize, bind_apply, ahead, get_apply, ok_bind, h, pure_apply, List.length_append,
    Nat.add_sub_cancel, List.take_left']

theorem recognize_declines {α : Type} {r : Reader α} {c : Cursor} (h : Declines r c) :
    Declines (recognize r) c :=
  Declines.bind_ok (rfl : ahead c = .ok (c.rest, c)) (h.bind _)

/-- A run of digits reads up to the first character that is neither a digit
nor an underscore. -/
theorem digitRun_digits {ds : List Char} (hds : ∀ x ∈ ds, x.isDigit = true) {y : Char}
    (hy : y.isDigit = false ∧ y ≠ '_') (t : List Char) : ∀ fuel off, ds.length < fuel →
      digitRun Char.isDigit fuel ⟨ds ++ y :: t, off⟩ = .ok ((), ⟨y :: t, off + ds.length⟩) := by
  induction ds with
  | nil =>
    intro fuel off hfuel
    obtain ⟨f, rfl⟩ : ∃ f, fuel = f + 1 := ⟨fuel - 1, by simp at hfuel; omega⟩
    simp only [digitRun, List.nil_append, peek, bind_apply, get_apply, ok_bind, pure_apply, List.head?_cons,
      hy.1, Bool.false_eq_true, if_false, if_neg hy.2, List.length_nil, Nat.add_zero]
  | cons d ds ih =>
    intro fuel off hfuel
    obtain ⟨f, rfl⟩ : ∃ f, fuel = f + 1 := ⟨fuel - 1, by simp at hfuel; omega⟩
    have hd : d.isDigit = true := hds d (by simp)
    have h := ih (fun x hx => hds x (List.mem_cons_of_mem d hx)) f (off + 1) (by simp at hfuel; omega)
    simp only [digitRun, List.cons_append, peek, bind_apply, get_apply, ok_bind, pure_apply,
      List.head?_cons, hd, if_true, bump_cons, utf8Size_of_isDigit hd, h, List.length_cons]
    rw [Nat.add_assoc, Nat.add_comm 1]

theorem decimalText_digits (negative : Bool) {ds : List Char} (hds : LeadingDigits ds) {y : Char}
    (hy : y.isDigit = false ∧ y ≠ '_') (t : List Char) (off : Nat) :
    decimalText ⟨(signText negative ++ ds) ++ y :: t, off⟩ =
      .ok (signText negative ++ ds, ⟨y :: t, off + (signText negative ++ ds).length⟩) := by
  unfold decimalText
  rw [within, tryCatch_apply, bind_apply, recognize_ok (a := ()) ?body rfl]
  · rfl
  case body =>
    simp only [bind_apply, peek, get_apply, ok_bind, pure_apply]
    rcases hds with rfl | ⟨d, ds', rfl, h1, h2, hds'⟩
    · cases negative <;> rfl
    · have hrun := digitRun_digits hds' hy t ((ds' ++ y :: t).length + 1)
      have hd : d.isDigit = true := by
        rw [char_isDigit_iff]
        rw [char_le_iff] at h1 h2
        simp only [Char.reduceToNat] at h1 h2
        omega
      have hplus : d ≠ '+' := by rintro rfl; exact absurd h1 (by decide)
      have hminus : d ≠ '-' := by rintro rfl; exact absurd h1 (by decide)
      cases negative
      · simp only [signText, Bool.false_eq_true, if_false, List.nil_append, List.cons_append,
          List.head?_cons]
        generalize hx : some d = x
        split
        · simp_all
        · simp_all
        · subst hx
          simp only [bind_apply, get_apply, ok_bind, pure_apply, List.head?_cons, h1, h2, decide_true,
            Bool.and_self, if_true, bump_cons, ahead, utf8Size_of_isDigit hd, hrun _ (by simp),
            List.length_cons]
          congr 3
          omega
      · simp only [signText, if_true, List.cons_append, List.nil_append, List.head?_cons]
        simp only [bind_apply, get_apply, ok_bind, pure_apply, List.head?_cons, h1, h2, decide_true,
          Bool.and_self, if_true, bump_cons, ahead, utf8Size_of_isDigit hd, hrun _ (by simp),
          List.length_cons, show '-'.utf8Size = 1 from rfl]
        congr 3
        omega


/-! ## No float in a written integer -/

theorem floatText_declines (negative : Bool) {ds : List Char} (hds : LeadingDigits ds) {y : Char}
    (hy : EndChar y) (t : List Char) (off : Nat) :
    Declines floatText ⟨(signText negative ++ ds) ++ y :: t, off⟩ := by
  unfold floatText
  refine Declines.bind (recognize_declines (Declines.bind_ok
    (decimalText_digits negative hds ⟨hy.ne.1, hy.ne.2.1⟩ t off) ?_)) _
  rcases hy with rfl | rfl | rfl | rfl <;> exact ⟨_, rfl, rfl⟩

theorem isPrefixOf_cons_ne {x d : Char} (h : x ≠ d) (w r : List Char) :
    (x :: w).isPrefixOf (d :: r) = false := by
  simp [List.isPrefixOf, h]

theorem specialFloat_declines (negative : Bool) {ds : List Char} (hds : LeadingDigits ds) (t : List Char)
    (off : Nat) : Declines specialFloat ⟨(signText negative ++ ds) ++ t, off⟩ := by
  obtain ⟨d, ds', rfl, hd⟩ := hds.head
  -- the digit that follows the sign starts neither word
  have hword : ∀ x : Char, x.isDigit = false → ∀ w : List Char, (x :: w).isPrefixOf (d :: (ds' ++ t)) = false :=
    fun x hx w => isPrefixOf_cons_ne (fun h => absurd (h ▸ hd) (by simp [hx])) w _
  have hi : "inf".toList.isPrefixOf (d :: (ds' ++ t)) = false := hword 'i' rfl _
  have hn : "nan".toList.isPrefixOf (d :: (ds' ++ t)) = false := hword 'n' rfl _
  have hplus : d ≠ '+' := fun h => absurd (h ▸ hd) (by decide)
  have hminus : d ≠ '-' := fun h => absurd (h ▸ hd) (by decide)
  unfold specialFloat Declines
  cases negative
  · simp only [signText, Bool.false_eq_true, if_false, List.nil_append, List.cons_append, bind_apply,
      peek, get_apply, ok_bind, pure_apply, List.head?_cons]
    generalize hx : some d = x
    split
    · simp_all
    · simp_all
    · simp only [bind_apply, startsWith_apply, pure_apply, ok_bind, hi, hn, Bool.false_eq_true,
        if_false]
      exact ⟨_, rfl, rfl⟩
  · simp only [signText, if_true, List.cons_append, List.nil_append, bind_apply, peek, get_apply, ok_bind,
      pure_apply, List.head?_cons, bump_cons, startsWith_apply, hi, hn, Bool.false_eq_true, if_false]
    exact ⟨_, rfl, rfl⟩

theorem float_declines (negative : Bool) {ds : List Char} (hds : LeadingDigits ds) {y : Char} (hy : EndChar y)
    (t : List Char) (off : Nat) : Declines float ⟨(signText negative ++ ds) ++ y :: t, off⟩ := by
  unfold float
  apply Declines.within
  refine Declines.bind_ok rfl (Declines.bind_ok (floatText_declines negative hds hy t off).attempt ?_)
  exact specialFloat_declines negative hds (y :: t) off



/-! ## Integers -/

/-- A written integer starting with zero is the zero alone: no radix prefix. -/
theorem second_of_zero (negative : Bool) {ds : List Char} (hds : LeadingDigits ds) {t r : List Char} {y z : Char}
    (h : (signText negative ++ ds) ++ y :: t = '0' :: z :: r) : z = y := by
  cases negative with
  | true => exact absurd (List.cons.inj h).1 (by decide)
  | false =>
    rcases hds with rfl | ⟨d, ds', rfl, h1, -, -⟩
    · exact ((List.cons.inj (List.cons.inj h).2).1).symm
    · obtain rfl := (List.cons.inj h).1
      exact absurd h1 (by decide)

theorem digitsValue_toDigits (n : Nat) : digitsValue (Nat.toDigits 10 n) = n := by
  have h : digitsValue (Nat.toDigits 10 n) = Nat.ofDigitChars 10 (Nat.toDigits 10 n) 0 := by
    unfold digitsValue Nat.ofDigitChars
    congr 1
    funext acc c
    ring
  rw [h, Nat.ofDigitChars_ten_toDigits]

theorem integer_toDigits (negative : Bool) (n : Nat) {y : Char} (hy : EndChar y) (t : List Char) (off : Nat)
    (hlo : int64Min ≤ (if negative then -(n : Int) else n)) (hhi : (if negative then -(n : Int) else n) ≤ int64Max) :
    integer ⟨(signText negative ++ Nat.toDigits 10 n) ++ y :: t, off⟩ =
      .ok (if negative then -(n : Int) else n, ⟨y :: t, off + (signText negative ++ Nat.toDigits 10 n).length⟩) := by
  have hds := leadingDigits_toDigits n
  unfold integer
  simp only [bind_apply, offset, ahead, get_apply, ok_bind, pure_apply]
  generalize hT : (signText negative ++ Nat.toDigits 10 n) ++ y :: t = T
  -- a radix prefix would put a letter where the end of the value stands
  split
  · exact absurd (second_of_zero negative hds hT) (by rcases hy with rfl | rfl | rfl | rfl <;> decide)
  · exact absurd (second_of_zero negative hds hT) (by rcases hy with rfl | rfl | rfl | rfl <;> decide)
  · exact absurd (second_of_zero negative hds hT) (by rcases hy with rfl | rfl | rfl | rfl <;> decide)
  · subst hT
    have hnu : ∀ c ∈ signText negative ++ Nat.toDigits 10 n, decide (c ≠ '_') = true := by
      intro c hc
      rcases List.mem_append.1 hc with hc | hc
      · cases negative <;> simp_all [signText]
      · have := Nat.isDigit_of_mem_toDigits (by decide) (by decide) hc
        simp only [decide_eq_true_eq]
        rintro rfl
        exact absurd this (by decide)
    rw [bind_apply, decimalText_digits negative hds ⟨hy.ne.1, hy.ne.2.1⟩ t off, ok_bind,
      List.filter_eq_self.2 hnu]
    cases negative
    · obtain ⟨d, ds', hdd, hd⟩ := hds.head
      simp only [signText, Bool.false_eq_true, if_false, List.nil_append] at hlo hhi ⊢
      rw [hdd]
      split
      · rename_i heq
        exact absurd ((List.cons.inj heq).1 ▸ hd) (by decide)
      · rename_i heq
        exact absurd ((List.cons.inj heq).1 ▸ hd) (by decide)
      · rw [← hdd, digitsValue_toDigits, if_neg (not_lt.2 hhi), if_neg (not_lt.2 hlo)]
        rfl
    · -- the sign decides the match
      simp only [signText, if_true, List.singleton_append] at hlo hhi ⊢
      rw [digitsValue_toDigits, if_neg (not_lt.2 hhi), if_neg (not_lt.2 hlo)]
      rfl

/-- A written integer is no date-time and no float: the number reader reads
it as an integer. -/
theorem number_toDigits (negative : Bool) (n : Nat) {y : Char} (hy : EndChar y) (t : List Char) (off : Nat)
    (hlo : int64Min ≤ (if negative then -(n : Int) else n)) (hhi : (if negative then -(n : Int) else n) ≤ int64Max) :
    number ⟨(signText negative ++ Nat.toDigits 10 n) ++ y :: t, off⟩ =
      .ok (.integer (if negative then -(n : Int) else n),
        ⟨y :: t, off + (signText negative ++ Nat.toDigits 10 n).length⟩) := by
  have hds := leadingDigits_toDigits n
  have hdate := dateTime_declines (c := ⟨(signText negative ++ Nat.toDigits 10 n) ++ y :: t, off⟩)
    (digitsEnd_number negative hds.isDigit hy t)
  unfold number
  rw [bind_apply, hdate.attempt, ok_bind]
  dsimp only
  rw [bind_apply, (float_declines negative hds hy t off).attempt, ok_bind]
  dsimp only
  rw [bind_apply, integer_toDigits negative n hy t off hlo hhi]
  rfl

/-! ## Written scalars -/

theorem toList_toString_int (i : Int) :
    (toString i).toList = signText (decide (i < 0)) ++ Nat.toDigits 10 i.natAbs := by
  cases i with
  | ofNat n => simp [toString, Int.repr, Nat.repr, signText]
  | negSucc n => simp [toString, Int.repr, Nat.repr, signText]

theorem signed_natAbs (i : Int) : (if decide (i < 0) = true then -(i.natAbs : Int) else i.natAbs) = i := by
  split
  · rename_i h
    rw [decide_eq_true_eq] at h
    omega
  · rename_i h
    rw [decide_eq_true_eq] at h
    omega

theorem quoteString_head (s : String) :
    ∃ q r, (quoteString s).toList = q :: r ∧ (q = '"' ∨ q = '\'') := by
  unfold quoteString
  dsimp only
  split_ifs <;> simp

theorem value_boolean (b : Bool) (fuel : Nat) (t : List Char) (off : Nat) :
    ∃ off', value (fuel + 1) ⟨(if b then "true" else "false").toList ++ t, off⟩ =
      .ok (.scalar (.boolean b) ⟨off, off'⟩, ⟨t, off'⟩) := by
  cases b
  · exact ⟨_, rfl⟩
  · exact ⟨_, rfl⟩

theorem value_string (s : String) (fuel : Nat) {y : Char} (hy : EndChar y) (t : List Char) (off : Nat) :
    ∃ off', value (fuel + 1) ⟨(quoteString s).toList ++ y :: t, off⟩ =
      .ok (.scalar (.string s) ⟨off, off'⟩, ⟨y :: t, off'⟩) := by
  obtain ⟨off', hs⟩ := string_quoteString s ⟨hy.ne.2.2.2.2.2.2.2.1, hy.ne.2.2.2.2.2.2.2.2⟩ t off
  obtain ⟨q, r, hqr, hq⟩ := quoteString_head s
  refine ⟨off', ?_⟩
  rw [hqr, List.cons_append] at hs ⊢
  have hopen : (decide (q = '"') || decide (q = '\'')) = true := by
    rcases hq with rfl | rfl <;> rfl
  simp only [value, bind_apply, offset, peek, get_apply, ok_bind, pure_apply, List.head?_cons,
    if_pos hopen, map_apply, hs, ok_map]

/-- A text that opens with a sign or a digit goes to the number reader. -/
theorem value_of_number {x : Char} (hx : x = '-' ∨ x.isDigit = true) {r rest : List Char} {off off' : Nat}
    {v : Value} (h : number ⟨x :: r, off⟩ = .ok (v, ⟨rest, off'⟩)) (fuel : Nat) :
    value (fuel + 1) ⟨x :: r, off⟩ = .ok (.scalar v ⟨off, off'⟩, ⟨rest, off'⟩) := by
  have hne : x ≠ '"' ∧ x ≠ '\'' ∧ x ≠ '[' ∧ x ≠ '{' := by
    simp only [ne_eq, char_eq_iff, Char.reduceToNat]
    rcases hx with rfl | hx
    · simp
    · rw [char_isDigit_iff] at hx
      omega
  have hsign : (decide (x = '+') || decide (x = '-') || x.isDigit) = true := by
    rcases hx with rfl | hx
    · rfl
    · simp [hx]
  simp only [value, bind_apply, offset, peek, get_apply, ok_bind, pure_apply, List.head?_cons,
    hne.1, hne.2.1, hne.2.2.1, hne.2.2.2, decide_false, Bool.or_false, Bool.false_eq_true, if_false,
    if_pos hsign, h]

theorem value_integer {i : Int} (hlo : int64Min ≤ i) (hhi : i ≤ int64Max) (fuel : Nat) {y : Char}
    (hy : EndChar y) (t : List Char) (off : Nat) :
    ∃ off', value (fuel + 1) ⟨(toString i).toList ++ y :: t, off⟩ =
      .ok (.scalar (.integer i) ⟨off, off'⟩, ⟨y :: t, off'⟩) := by
  have hsigned := signed_natAbs i
  have hnum := number_toDigits (decide (i < 0)) i.natAbs hy t off (by rw [hsigned]; exact hlo)
    (by rw [hsigned]; exact hhi)
  rw [hsigned, ← toList_toString_int] at hnum
  refine ⟨off + (toString i).toList.length, ?_⟩
  obtain ⟨d, ds, hdd, hd⟩ := (leadingDigits_toDigits i.natAbs).head
  -- the text opens with a sign or a digit
  have hopen : ∃ x r, (toString i).toList = x :: r ∧ (x = '-' ∨ x.isDigit = true) := by
    rw [toList_toString_int, hdd]
    cases decide (i < 0)
    · exact ⟨d, ds, rfl, Or.inr hd⟩
    · exact ⟨'-', d :: ds, rfl, Or.inl rfl⟩
  obtain ⟨x, r, hxr, hx⟩ := hopen
  rw [hxr, List.cons_append] at hnum ⊢
  exact value_of_number hx hnum fuel

end Reader

/-- The values written on one line that read back as themselves: strings,
integers of 64 bits and booleans. -/
def Value.IsScalar : Value → Prop
  | .string _ => True
  | .integer i => int64Min ≤ i ∧ i ≤ int64Max
  | .boolean _ => True
  | _ => False

instance (v : Value) : Decidable v.IsScalar := by
  cases v <;> unfold Value.IsScalar <;> infer_instance

namespace Reader

/-- The value reader reads a written scalar back, up to the line break after
it. -/
theorem value_inlineText {v : Value} (hv : v.IsScalar) (spread : Bool) (fuel : Nat) {y : Char}
    (hy : EndChar y) (t : List Char) (off : Nat) :
    ∃ off', value (fuel + 1) ⟨(v.inlineText spread).toList ++ y :: t, off⟩ =
      .ok (.scalar v ⟨off, off'⟩, ⟨y :: t, off'⟩) := by
  cases v with
  | string s => exact value_string s fuel hy t off
  | integer i => exact value_integer hv.1 hv.2 fuel hy t off
  | boolean b => exact value_boolean b fuel (y :: t) off
  | float | datetime | array | table => exact hv.elim

end Reader

/-! ## Keys -/

/-- A key written as it stands: not empty, of letters, digits, `_` and `-`. -/
def BareKey (k : String) : Prop := k.toList ≠ [] ∧ ∀ c ∈ k.toList, isBareChar c = true

instance (k : String) : Decidable (BareKey k) := inferInstanceAs (Decidable (_ ∧ _))

theorem keyText_bare {k : String} (h : BareKey k) : keyText k = k := by
  have hne : k.isEmpty = false := by
    simpa [String.isEmpty_iff] using h.1
  simp only [keyText, hne, Bool.not_false, Bool.true_and]
  rw [if_pos]
  exact List.all_eq_true.2 h.2

namespace Reader

theorem blanks_of_head {c : Cursor} (h : ∀ x ∈ c.rest.head?, isBlankChar x = false) :
    blanks c = .ok ((), c) := by
  obtain ⟨rest, off⟩ := c
  cases rest with
  | nil => rfl
  | cons x r =>
    have hx : isBlankChar x = false := h x rfl
    simp only [blanks, takeWhile, bind_apply, List.takeWhile_cons, hx, Bool.false_eq_true, if_false,
      ok_bind, pure_apply]
    rfl

theorem blanks_space {r : List Char} (hr : ∀ x ∈ r.head?, isBlankChar x = false) (off : Nat) :
    blanks ⟨' ' :: r, off⟩ = .ok ((), ⟨r, off + 1⟩) := by
  cases r with
  | nil => rfl
  | cons x r =>
    have hx : isBlankChar x = false := hr x rfl
    simp only [blanks, takeWhile, bind_apply, List.takeWhile_cons, hx, Bool.false_eq_true, if_false,
      show isBlankChar ' ' = true from rfl, if_true, ok_bind, pure_apply]
    rfl

theorem simpleKey_bare {k : String} (hk : BareKey k) {x : Char} (hx : isBareChar x = false) (r : List Char)
    (off : Nat) :
    simpleKey ⟨k.toList ++ x :: r, off⟩ =
      .ok ((k, ⟨off, off + byteLength k.toList⟩), ⟨x :: r, off + byteLength k.toList⟩) := by
  obtain ⟨c, cs, hc⟩ := List.exists_cons_of_ne_nil hk.1
  have hbare : ∀ y ∈ k.toList, isBareChar y = true := hk.2
  have htake : (k.toList ++ x :: r).takeWhile isBareChar = k.toList := by
    rw [List.takeWhile_append_of_pos hbare]
    simp [hx]
  have hq : c ≠ '"' ∧ c ≠ '\'' := by
    have := hbare c (by simp [hc])
    simp only [isBareChar, Bool.or_eq_true, decide_eq_true_eq] at this
    constructor <;> rintro rfl <;> simp at this
  simp only [simpleKey, bind_apply, offset, peek, get_apply, ok_bind, pure_apply, hc, List.cons_append,
    List.head?_cons]
  generalize hy : some c = y
  split
  · simp_all
  · simp_all
  · subst hy
    rw [← List.cons_append, ← hc]
    have hempty : k.toList.isEmpty = false := List.isEmpty_eq_false_iff.2 hk.1
    simp only [takeWhile, htake, bind_apply, ok_bind, hempty, Bool.false_eq_true, if_false,
      List.drop_left, get_apply, pure_apply, String.ofList_toList]

theorem blank_of_bare {c : Char} (h : isBareChar c = true) : isBlankChar c = false := by
  simp only [isBlankChar, Bool.or_eq_false_iff, decide_eq_false_iff_not]
  constructor <;> rintro rfl <;> revert h <;> decide

/-- What ends a path of keys: no key character, no blank and no dot. -/
def KeyEnd (x : Char) : Prop := isBareChar x = false ∧ isBlankChar x = false ∧ x ≠ '.'

/-- The keys after the first, each after a dot, are read up to what ends the
path. -/
theorem moreKeys_bare {x : Char} (hx : KeyEnd x) (r : List Char) :
    ∀ (ks : List String), (∀ k ∈ ks, BareKey k) → ∀ fuel off, ks.length < fuel →
      ∃ keys off', moreKeys fuel ⟨ks.flatMap (fun k => '.' :: k.toList) ++ x :: r, off⟩ =
        .ok (keys, ⟨x :: r, off'⟩) ∧ names keys = ks
  | [], _, fuel, off, hfuel => by
    obtain ⟨f, rfl⟩ : ∃ f, fuel = f + 1 := ⟨fuel - 1, by simp at hfuel; omega⟩
    refine ⟨[], off, ?_, rfl⟩
    have hdot : (x :: r).head? ≠ some '.' := by simpa using hx.2.2
    rw [moreKeys, bind_apply, Declines.attempt ?hd]
    · rfl
    case hd =>
      refine Declines.bind_ok rfl ?_
      simp only [List.flatMap_nil, List.nil_append, if_neg hdot]
      exact (declines_decline _ _ _).bind _
  | k :: ks, hks, fuel, off, hfuel => by
    obtain ⟨f, rfl⟩ : ∃ f, fuel = f + 1 := ⟨fuel - 1, by simp at hfuel; omega⟩
    have hk := hks k List.mem_cons_self
    -- after the key comes a dot or the end of the path
    obtain ⟨y, r', hyr, hy⟩ : ∃ y r', ks.flatMap (fun k => '.' :: k.toList) ++ x :: r = y :: r' ∧
        isBareChar y = false ∧ isBlankChar y = false := by
      cases ks with
      | nil => exact ⟨x, r, rfl, hx.1, hx.2.1⟩
      | cons k' ks' =>
        exact ⟨'.', k'.toList ++ (ks'.flatMap (fun k => '.' :: k.toList) ++ x :: r), by simp, rfl, rfl⟩
    obtain ⟨c, cs, hc⟩ := List.exists_cons_of_ne_nil hk.1
    have hcb : isBlankChar c = false := blank_of_bare (hk.2 c (by simp [hc]))
    obtain ⟨keys, off', hmore, hnames⟩ := moreKeys_bare hx r ks (fun k' hk' => hks k' (List.mem_cons_of_mem k hk'))
      f (off + 1 + byteLength k.toList) (by simp at hfuel; omega)
    refine ⟨(k, ⟨off + 1, off + 1 + byteLength k.toList⟩) :: keys, off', ?_, by simp [names, ← hnames]⟩
    have hblock := simpleKey_bare hk hy.1 r' (off + 1)
    rw [moreKeys, bind_apply]
    simp only [List.flatMap_cons, List.cons_append, List.append_assoc]
    rw [hyr, @attempt_ok _ _ _ ⟨y :: r', off + 1 + byteLength k.toList⟩ (k, ⟨off + 1, off + 1 + byteLength k.toList⟩)
      ?hb]
    · simp only [bind_apply, ← hyr, hmore, ok_bind, pure_apply]
    case hb =>
      have hk0 : ∀ z ∈ (k.toList ++ y :: r').head?, isBlankChar z = false := by
        rw [hc]
        simpa using hcb
      simp only [bind_apply, peek, get_apply, ok_bind, pure_apply, List.head?_cons, if_true, bump_cons,
        show '.'.utf8Size = 1 from rfl]
      rw [blanks_of_head (c := ⟨k.toList ++ y :: r', off + 1⟩) hk0, ok_bind, hblock, ok_bind,
        blanks_of_head (c := ⟨y :: r', off + 1 + byteLength k.toList⟩) (by simpa using hy.2)]
      rfl

theorem toList_intercalate_dot (k : String) (ks : List String) :
    (".".intercalate (k :: ks)).toList = k.toList ++ ks.flatMap (fun k => '.' :: k.toList) := by
  induction ks generalizing k with
  | nil => simp
  | cons k' ks ih => simp [String.intercalate_cons_cons, ih]

/-- Every key after the first adds a dot at least. -/
theorem length_le_flatMap_dot (ks : List String) :
    ks.length ≤ (ks.flatMap fun k => '.' :: k.toList).length := by
  induction ks with
  | nil => simp
  | cons k ks ih =>
    simp only [List.flatMap_cons, List.length_cons, List.length_append]
    omega

/-- A dotted path of bare keys is read up to what ends it. -/
theorem dottedKey_path {path : List String} (hp : ∀ k ∈ path, BareKey k) (hne : path ≠ [])
    {x : Char} (hx : KeyEnd x) (r : List Char) (off : Nat) :
    ∃ keys off', dottedKey ⟨(".".intercalate path).toList ++ x :: r, off⟩ = .ok (keys, ⟨x :: r, off'⟩) ∧
      names keys = path := by
  obtain ⟨k, ks, rfl⟩ := List.exists_cons_of_ne_nil hne
  have hk := hp k List.mem_cons_self
  obtain ⟨y, r', hyr, hy⟩ : ∃ y r', ks.flatMap (fun k => '.' :: k.toList) ++ x :: r = y :: r' ∧
      isBareChar y = false ∧ isBlankChar y = false := by
    cases ks with
    | nil => exact ⟨x, r, rfl, hx.1, hx.2.1⟩
    | cons k' ks' =>
      exact ⟨'.', k'.toList ++ (ks'.flatMap (fun k => '.' :: k.toList) ++ x :: r), by simp, rfl, rfl⟩
  have hlen := length_le_flatMap_dot ks
  obtain ⟨keys, off', hmore, hnames⟩ := moreKeys_bare hx r ks (fun k' hk' => hp k' (List.mem_cons_of_mem k hk'))
    (((ks.flatMap fun k => '.' :: k.toList) ++ x :: r).length + 1) (off + byteLength k.toList)
    (by simp only [List.length_append, List.length_cons]; omega)
  refine ⟨(k, ⟨off, off + byteLength k.toList⟩) :: keys, off', ?_, by simp [names, ← hnames]⟩
  obtain ⟨c, cs, hc⟩ := List.exists_cons_of_ne_nil hk.1
  have hk0 : ∀ z ∈ (k.toList ++ y :: r').head?, isBlankChar z = false := by
    rw [hc]
    simpa using blank_of_bare (hk.2 c (by simp [hc]))
  rw [toList_intercalate_dot, List.append_assoc, hyr]
  refine within_ok ?_
  simp only [bind_apply]
  rw [blanks_of_head (c := ⟨k.toList ++ y :: r', off⟩) hk0, ok_bind, simpleKey_bare hk hy.1, ok_bind,
    blanks_of_head (c := ⟨y :: r', off + byteLength k.toList⟩) (by simpa using hy.2), ok_bind]
  simp only [ahead, bind_apply, get_apply, ok_bind, ← hyr, hmore, pure_apply]

/-- A bare key before ` = ` is read alone, with the blank after it. -/
theorem dottedKey_pair {k : String} (hk : BareKey k) (r : List Char) (off : Nat) :
    ∃ sp off', dottedKey ⟨k.toList ++ ' ' :: '=' :: r, off⟩ = .ok ([(k, sp)], ⟨'=' :: r, off'⟩) := by
  obtain ⟨keys, off', hmore, hnames⟩ := moreKeys_bare (x := '=') ⟨rfl, rfl, by decide⟩ r [] (by simp)
    (('=' :: r).length + 1) (off + byteLength k.toList + 1) (by simp)
  have hkeys : keys = [] := by simpa [names] using hnames
  subst hkeys
  rw [List.flatMap_nil, List.nil_append] at hmore
  refine ⟨⟨off, off + byteLength k.toList⟩, off', ?_⟩
  obtain ⟨c, cs, hc⟩ := List.exists_cons_of_ne_nil hk.1
  have hk0 : ∀ z ∈ (k.toList ++ ' ' :: '=' :: r).head?, isBlankChar z = false := by
    rw [hc]
    simpa using blank_of_bare (hk.2 c (by simp [hc]))
  refine within_ok ?_
  simp only [bind_apply]
  rw [blanks_of_head (c := ⟨k.toList ++ ' ' :: '=' :: r, off⟩) hk0, ok_bind, simpleKey_bare hk (x := ' ') rfl,
    ok_bind, blanks_space (r := '=' :: r) (by simp [isBlankChar]), ok_bind]
  simp only [ahead, bind_apply, get_apply, ok_bind, hmore, pure_apply]

end Reader

end LotBridge.Toml
