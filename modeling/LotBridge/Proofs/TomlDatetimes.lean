import LotBridge.Proofs.TomlFloats

/-!
# Date-times read in range and read back

The date-time reader checks ranges as it reads: a year of four digits, a month,
a day of that month, an hour, a minute, a second up to a leap second, nine
digits of a fraction, and an offset of less than a day. `Datetime.Valid` says
so of a date-time, with the shapes the reader gives: a date, a time, or both
with an offset or without.

Every date-time the reader gives is valid (`Reader.dateTime_yields`), and every
valid date-time, written as the writer writes it, is read back
(`Reader.value_datetime`). A date alone may be followed by a blank, which the
reader tries as the start of a time: what comes after the blank must then be
no digit.

`Reader.Yields r P` says that every result of `r` satisfies `P`; it follows
the steps of a reader with one lemma per combinator.

## Main definitions

* `Date.Valid`, `Time.Valid`, `Offset.Valid`, `Datetime.Valid`.
* `Reader.Yields`: what every result of a reader satisfies.

## Main statements

* `Reader.dateTime_yields`: the reader gives valid date-times only.
* `Reader.dateTime_render`, `Reader.value_datetime`: a written date-time is
  read back.
-/

namespace LotBridge.Toml

open Reader

/-- A date as the reader accepts it: a year of four digits, a month, and a
day of that month. -/
structure Date.Valid (x : Date) : Prop where
  year_lt : x.year < 10000
  month_pos : 1 ≤ x.month
  month_le : x.month ≤ 12
  day_pos : 1 ≤ x.day
  day_le : x.day ≤ daysInMonth x.year x.month

/-- A time of day as the reader accepts it, a leap second included. -/
structure Time.Valid (t : Time) : Prop where
  hour_le : t.hour ≤ 23
  minute_le : t.minute ≤ 59
  second_le : t.second ≤ 60
  nanosecond_lt : t.nanosecond < 1000000000

/-- An offset as the reader accepts it: less than a day either way. -/
def Offset.Valid : Offset → Prop
  | .utc => True
  | .minutes m => m.natAbs < 1440

/-- A date-time as the reader gives it: a date, a time or both, each valid,
and an offset, valid too, only beside both. -/
structure Datetime.Valid (d : Datetime) : Prop where
  date : ∀ x ∈ d.date, x.Valid
  time : ∀ t ∈ d.time, t.Valid
  offset : ∀ o ∈ d.offset, o.Valid
  present : d.date.isSome ∨ d.time.isSome
  offset_full : d.offset.isSome → d.date.isSome ∧ d.time.isSome

/-! ## Written numbers -/

theorem daysInMonth_le (year month : Nat) : daysInMonth year month ≤ 31 := by
  unfold daysInMonth
  split_ifs <;> omega

theorem padded_toList (w n : Nat) :
    (padded w n).toList = List.replicate (w - (Nat.toDigits 10 n).length) '0' ++ Nat.toDigits 10 n := by
  unfold padded
  rw [String.toList_append, String.toList_ofList, ← String.length_toList, toList_toString_nat]

theorem length_padded {w n : Nat} (hw : 0 < w) (h : n < Nat.pow 10 w) : (padded w n).toList.length = w := by
  have hlen : (Nat.toDigits 10 n).length ≤ w := (Nat.length_toDigits_le_iff (by decide) hw).2 h
  rw [padded_toList, List.length_append, List.length_replicate]
  omega

theorem isDigit_padded (w n : Nat) : ∀ x ∈ (padded w n).toList, x.isDigit = true := by
  intro x hx
  rw [padded_toList] at hx
  rcases List.mem_append.1 hx with hx | hx
  · rw [List.eq_of_mem_replicate hx]
    rfl
  · exact Nat.isDigit_of_mem_toDigits (by decide) (by decide) hx

theorem digitsValue_padded (w n : Nat) : digitsValue (padded w n).toList = n := by
  rw [padded_toList, digitsValue_append, digitsValue_replicate_zero, Nat.zero_mul, Nat.zero_add,
    digitsValue_toDigits]

theorem padded_head {w n : Nat} (hw : 0 < w) (h : n < Nat.pow 10 w) :
    ∃ d ds, (padded w n).toList = d :: ds ∧ d.isDigit = true := by
  obtain ⟨d, ds, hds⟩ := List.exists_cons_of_ne_nil
    (List.ne_nil_of_length_pos (show 0 < (padded w n).toList.length by rw [length_padded hw h]; exact hw))
  exact ⟨d, ds, hds, isDigit_padded w n d (by simp [hds])⟩

/-- Nine digits of a fraction are its digits without the trailing zeros,
followed by them. -/
theorem padded_nine_split (n : Nat) :
    (padded 9 n).toList = ((padded 9 n).toList.reverse.dropWhile (· = '0')).reverse ++
      List.replicate ((padded 9 n).toList.reverse.takeWhile (· = '0')).length '0' := by
  generalize (padded 9 n).toList = D
  have hzeros : D.reverse.takeWhile (· = '0') =
      List.replicate (D.reverse.takeWhile (· = '0')).length '0' := by
    refine List.eq_replicate_iff.2 ⟨rfl, fun x hx => ?_⟩
    simpa using List.mem_takeWhile_imp hx
  generalize (D.reverse.takeWhile (· = '0')).length = m at hzeros ⊢
  calc D = (D.reverse.takeWhile (· = '0') ++ D.reverse.dropWhile (· = '0')).reverse := by
        rw [List.takeWhile_append_dropWhile, List.reverse_reverse]
    _ = _ := by
        rw [List.reverse_append, hzeros, List.reverse_replicate]

namespace Reader

/-! ## Written date-times read back -/

theorem expectChar_self (x : Char) (r : List Char) (off : Nat) :
    expectChar x ⟨x :: r, off⟩ = .ok ((), ⟨r, off + x.utf8Size⟩) := by
  simp only [expectChar, bind_apply, peek, get_apply, ok_bind, pure_apply]
  rw [if_pos (show (x :: r).head? = some x from rfl)]
  exact bump_cons x r off

theorem fixedDigits_padded {w n : Nat} (hw : 0 < w) (h : n < Nat.pow 10 w) (r : List Char) (off : Nat) :
    ∃ off', fixedDigits w ⟨(padded w n).toList ++ r, off⟩ = .ok (n, ⟨r, off'⟩) := by
  have hlen := length_padded hw h
  have htake : ((padded w n).toList ++ r).take w = (padded w n).toList := List.take_left' hlen
  have hdrop : ((padded w n).toList ++ r).drop w = r := List.drop_left' hlen
  have hall : (padded w n).toList.all Char.isDigit = true := List.all_eq_true.2 (isDigit_padded w n)
  refine ⟨off + byteLength (padded w n).toList, ?_⟩
  simp only [fixedDigits, bind_apply, ahead, get_apply, ok_bind, pure_apply]
  rw [if_pos (by simp only [htake, hlen, hall, decide_true, Bool.and_self]),
    bind_apply, skip, modify_apply, ok_bind, pure_apply]
  simp only [htake, hdrop, digitsValue_padded]

theorem inRange_padded {w n : Nat} (lo hi : Nat) (hw : 0 < w) (h : n < Nat.pow 10 w) (hlo : lo ≤ n)
    (hhi : n ≤ hi) (r : List Char) (off : Nat) :
    ∃ off', inRange lo hi (fixedDigits w) ⟨(padded w n).toList ++ r, off⟩ = .ok (n, ⟨r, off'⟩) := by
  obtain ⟨off', hf⟩ := fixedDigits_padded hw h r off
  refine ⟨off', ?_⟩
  rw [inRange_apply, bind_apply, hf, ok_bind, if_pos (by simp [hlo, hhi])]
  rfl

/-- A written date is read back. -/
theorem fullDate_padded {x : Date} (hx : x.Valid) (r : List Char) (off : Nat) :
    ∃ off', fullDate ⟨(padded 4 x.year).toList ++ '-' :: ((padded 2 x.month).toList ++
      '-' :: ((padded 2 x.day).toList ++ r)), off⟩ = .ok (x, ⟨r, off'⟩) := by
  obtain ⟨o₁, hyear⟩ := fixedDigits_padded (show 0 < 4 by decide) hx.year_lt
    ('-' :: ((padded 2 x.month).toList ++ '-' :: ((padded 2 x.day).toList ++ r))) off
  obtain ⟨o₂, hmonth⟩ := inRange_padded 1 12 (show 0 < 2 by decide) (by have := hx.month_le; exact Nat.lt_of_le_of_lt this (by decide))
    hx.month_pos hx.month_le ('-' :: ((padded 2 x.day).toList ++ r)) (o₁ + 1)
  have hday31 := le_trans hx.day_le (daysInMonth_le x.year x.month)
  obtain ⟨o₃, hday⟩ := inRange_padded 1 31 (show 0 < 2 by decide) (Nat.lt_of_le_of_lt hday31 (by decide)) hx.day_pos
    hday31 r (o₂ + 1)
  refine ⟨o₃, ?_⟩
  simp only [fullDate, bind_apply, hyear, ok_bind, expectChar_self, show '-'.utf8Size = 1 from rfl]
  refine commit_ok ?_
  simp only [bind_apply, hmonth, ok_bind, expectChar_self, show '-'.utf8Size = 1 from rfl, offset, get_apply,
    pure_apply, hday]
  rw [if_neg (Nat.not_lt.2 hx.day_le)]
  rfl

/-- The written fraction of a second, its trailing zeros left out, is read
back as the nanoseconds it was written from. -/
theorem secondFraction_trimmed {n : Nat} (hn : 0 < n) (h : n < 1000000000) {rest : List Char}
    (hrest : ∀ z ∈ rest.head?, z.isDigit = false) (off : Nat) :
    ∃ off', secondFraction ⟨'.' :: (((padded 9 n).toList.reverse.dropWhile (· = '0')).reverse ++ rest), off⟩ =
      .ok (n, ⟨rest, off'⟩) := by
  have hsplit := padded_nine_split n
  generalize ((padded 9 n).toList.reverse.dropWhile (· = '0')).reverse = F at hsplit ⊢
  generalize ((padded 9 n).toList.reverse.takeWhile (· = '0')).length = k at hsplit
  have hlen : F.length + k = 9 := by
    have := congrArg List.length hsplit
    rw [length_padded (show 0 < 9 by decide) h, List.length_append, List.length_replicate] at this
    omega
  have hdigits : ∀ x ∈ F, x.isDigit = true := fun x hx =>
    isDigit_padded 9 n x (by rw [hsplit]; exact List.mem_append_left _ hx)
  have hvalue : digitsValue F * Nat.pow 10 k = n := by
    have := digitsValue_padded 9 n
    rw [hsplit, digitsValue_append, digitsValue_replicate_zero, List.length_replicate, Nat.add_zero] at this
    exact this
  -- some digit is left, as the fraction is not zero
  have hne : F ≠ [] := by
    rintro rfl
    rw [digitsValue, List.foldl_nil, Nat.zero_mul] at hvalue
    omega
  have htake : (F ++ rest).takeWhile Char.isDigit = F := by
    rw [List.takeWhile_append_of_pos hdigits]
    cases rest with
    | nil => simp
    | cons z r => simp [hrest z rfl]
  refine ⟨off + 1 + byteLength F, ?_⟩
  simp only [secondFraction, bind_apply, expectChar_self, show '.'.utf8Size = 1 from rfl, ok_bind, takeWhile,
    htake, List.drop_left, List.isEmpty_eq_false_iff.2 hne, Bool.false_eq_true, if_false, pure_apply]
  rw [List.take_of_length_le (by omega), show 9 - F.length = k by omega, hvalue]

/-- What may follow a written time: no digit, and no point. -/
def TimeEnd (rest : List Char) : Prop := ∀ z ∈ rest.head?, z.isDigit = false ∧ z ≠ '.'

/-- The fraction of a second a time writes, when it writes one, is read
back; a time without one reads as a whole second. -/
theorem attempt_secondFraction {n : Nat} (h : n < 1000000000) {rest : List Char} (hrest : TimeEnd rest)
    (off : Nat) :
    ∃ o off', attempt secondFraction ⟨(if n = 0 then "" else "." ++
        String.ofList ((padded 9 n).toList.reverse.dropWhile (· = '0')).reverse).toList ++ rest, off⟩ =
      .ok (o, ⟨rest, off'⟩) ∧ o.getD 0 = n := by
  by_cases hn : n = 0
  · refine ⟨none, off, ?_, hn.symm⟩
    simp only [hn, if_true, String.toList_empty, List.nil_append]
    refine Declines.attempt ((expectChar_declines ?_).bind _)
    intro hdot
    exact (hrest '.' hdot).2 rfl
  · obtain ⟨off', hread⟩ := secondFraction_trimmed (Nat.pos_of_ne_zero hn) h (fun z hz => (hrest z hz).1) off
    refine ⟨some n, off', ?_, rfl⟩
    have htext : (if n = 0 then "" else "." ++
        String.ofList ((padded 9 n).toList.reverse.dropWhile (· = '0')).reverse).toList ++ rest =
        '.' :: (((padded 9 n).toList.reverse.dropWhile (· = '0')).reverse ++ rest) := by
      simp [hn]
    rw [htext]
    exact attempt_ok hread

/-- A written time of day is read back, up to a character that goes on no
time. -/
theorem partialTime_render {t : Time} (ht : t.Valid) {rest : List Char} (hrest : TimeEnd rest) (off : Nat) :
    ∃ off', partialTime ⟨(Datetime.render ⟨none, some t, none⟩).toList ++ rest, off⟩ = .ok (t, ⟨rest, off'⟩) := by
  have two : 0 < 2 := by decide
  generalize hfrac : (if t.nanosecond = 0 then "" else "." ++
    String.ofList ((padded 9 t.nanosecond).toList.reverse.dropWhile (· = '0')).reverse).toList = frac
  obtain ⟨o₁, hhour⟩ := inRange_padded 0 23 two (Nat.lt_of_le_of_lt ht.hour_le (by decide)) (Nat.zero_le _)
    ht.hour_le (':' :: ((padded 2 t.minute).toList ++ ':' :: ((padded 2 t.second).toList ++ (frac ++ rest)))) off
  obtain ⟨o₂, hminute⟩ := inRange_padded 0 59 two (Nat.lt_of_le_of_lt ht.minute_le (by decide)) (Nat.zero_le _)
    ht.minute_le (':' :: ((padded 2 t.second).toList ++ (frac ++ rest))) (o₁ + 1)
  obtain ⟨o₃, hsecond⟩ := inRange_padded 0 60 two (Nat.lt_of_le_of_lt ht.second_le (by decide)) (Nat.zero_le _)
    ht.second_le (frac ++ rest) (o₂ + 1)
  obtain ⟨nanos, o₄, hread, hnanos⟩ := attempt_secondFraction ht.nanosecond_lt hrest o₃
  rw [hfrac] at hread
  refine ⟨o₄, ?_⟩
  have htext : (Datetime.render ⟨none, some t, none⟩).toList ++ rest =
      (padded 2 t.hour).toList ++ ':' :: ((padded 2 t.minute).toList ++ ':' :: ((padded 2 t.second).toList ++
        (frac ++ rest))) := by
    rw [← hfrac]
    simp [Datetime.render]
  rw [htext]
  simp only [partialTime, bind_apply, hhour, ok_bind, expectChar_self, show ':'.utf8Size = 1 from rfl]
  refine commit_ok ?_
  simp only [bind_apply, hminute, ok_bind, expectChar_self, show ':'.utf8Size = 1 from rfl, hsecond, hread,
    pure_apply, hnanos]

/-- A written offset is read back. -/
theorem timeOffset_render {o : Offset} (ho : o.Valid) (r : List Char) (off : Nat) :
    ∃ off', timeOffset ⟨(Datetime.render ⟨none, none, some o⟩).toList ++ r, off⟩ = .ok (o, ⟨r, off'⟩) := by
  cases o with
  | utc =>
    refine ⟨off + 1, ?_⟩
    simp [Datetime.render, timeOffset, bind_apply, peek]
    rfl
  | minutes m =>
    have ho' : m.natAbs < 1440 := ho
    have two : 0 < 2 := by decide
    obtain ⟨o₁, hhour⟩ := inRange_padded 0 23 two (show m.natAbs / 60 < Nat.pow 10 2 by
      rw [show Nat.pow 10 2 = 100 from rfl]; omega) (Nat.zero_le _) (by omega)
      (':' :: ((padded 2 (m.natAbs % 60)).toList ++ r)) (off + 1)
    obtain ⟨o₂, hminute⟩ := inRange_padded 0 59 two (show m.natAbs % 60 < Nat.pow 10 2 by
      rw [show Nat.pow 10 2 = 100 from rfl]; omega) (Nat.zero_le _) (by omega) r (o₁ + 1)
    refine ⟨o₂, ?_⟩
    -- the sign read back, with the hours and minutes, gives the minutes written
    have hsigned : (if m < 0 then -((m.natAbs / 60 : Nat) * 60 + (m.natAbs % 60 : Nat) : Int)
        else ((m.natAbs / 60 : Nat) * 60 + (m.natAbs % 60 : Nat) : Int)) = m := by
      split_ifs <;> omega
    have hread : ∀ negative : Bool, (if negative then -((m.natAbs / 60 : Nat) * 60 + (m.natAbs % 60 : Nat) : Int)
        else ((m.natAbs / 60 : Nat) * 60 + (m.natAbs % 60 : Nat) : Int)) = m → ∀ x : Char, x = '-' ∨ x = '+' →
        (x = '-') = (negative = true) →
        timeOffset ⟨x :: ((padded 2 (m.natAbs / 60)).toList ++ ':' :: ((padded 2 (m.natAbs % 60)).toList ++ r)), off⟩ =
          .ok (.minutes m, ⟨r, o₂⟩) := by
      intro negative hm x hx hsign
      have hx1 : x.utf8Size = 1 := by rcases hx with rfl | rfl <;> rfl
      simp only [timeOffset, bind_apply, peek, get_apply, ok_bind, pure_apply, List.head?_cons]
      generalize hp : (some x : Option Char) = p
      split
      · rcases hx with rfl | rfl <;> simp at hp
      · rcases hx with rfl | rfl <;> simp at hp
      case h_5 hZ hz hplus hminus =>
        rcases hx with rfl | rfl
        · exact (hminus hp.symm).elim
        · exact (hplus hp.symm).elim
      all_goals
        simp only [bind_apply, get_apply, ok_bind, pure_apply, List.head?_cons, bump_cons, hx1]
        refine commit_ok ?_
        simp only [bind_apply, hhour, ok_bind, expectChar_self, show ':'.utf8Size = 1 from rfl, hminute,
          pure_apply]
        simp only [Option.some.injEq, hsign, hm]
    by_cases hneg : m < 0
    · have htext : (Datetime.render ⟨none, none, some (.minutes m)⟩).toList ++ r =
          '-' :: ((padded 2 (m.natAbs / 60)).toList ++ ':' :: ((padded 2 (m.natAbs % 60)).toList ++ r)) := by
        simp [Datetime.render, hneg]
      rw [htext]
      exact hread true (by simpa [hneg] using hsigned) '-' (Or.inl rfl) (by simp)
    · have htext : (Datetime.render ⟨none, none, some (.minutes m)⟩).toList ++ r =
          '+' :: ((padded 2 (m.natAbs / 60)).toList ++ ':' :: ((padded 2 (m.natAbs % 60)).toList ++ r)) := by
        simp [Datetime.render, hneg]
      rw [htext]
      exact hread false (by simpa [hneg] using hsigned) '+' (Or.inr rfl) (by decide)

/-- Fixed digits decline where no digit comes first. -/
theorem fixedDigits_declines_head {n : Nat} (hn : 0 < n) {c : Cursor} (h : ∀ z ∈ c.rest.head?, z.isDigit = false) :
    Declines (fixedDigits n) c := by
  rcases fixedDigits_cases n c with hd | ⟨v, off', -, hlen, hdig⟩
  · exact hd
  · obtain ⟨m, rfl⟩ : ∃ m, n = m + 1 := ⟨n - 1, by omega⟩
    cases hr : c.rest with
    | nil => simp [hr] at hlen
    | cons z zs =>
      rw [hr] at hdig h
      exact absurd (hdig z (by simp)) (by simp [h z rfl])

theorem partialTime_declines_head {c : Cursor} (h : ∀ z ∈ c.rest.head?, z.isDigit = false) :
    Declines partialTime c := by
  unfold partialTime
  exact (inRange_declines (fixedDigits_declines_head (show 0 < 2 by decide) h) 0 23).bind _

/-- A written time is no date: its third character is a colon. -/
theorem fullDate_declines_time {t : Time} (ht : t.Valid) (rest : List Char) (off : Nat) :
    Declines fullDate ⟨(Datetime.render ⟨none, some t, none⟩).toList ++ rest, off⟩ := by
  obtain ⟨a, b, hab⟩ : ∃ a b, (padded 2 t.hour).toList = [a, b] := by
    have hlen := length_padded (show 0 < 2 by decide) (Nat.lt_of_le_of_lt ht.hour_le (by decide))
    match h : (padded 2 t.hour).toList, hlen with
    | [a, b], _ => exact ⟨a, b, rfl⟩
  generalize hfrac : (if t.nanosecond = 0 then "" else "." ++
    String.ofList ((padded 9 t.nanosecond).toList.reverse.dropWhile (· = '0')).reverse).toList = frac
  have hr : (Datetime.render ⟨none, some t, none⟩).toList ++ rest =
      a :: b :: ':' :: ((padded 2 t.minute).toList ++ ':' :: ((padded 2 t.second).toList ++ (frac ++ rest))) := by
    rw [← hfrac]
    simp [Datetime.render, hab]
  unfold fullDate
  rcases fixedDigits_cases 4 ⟨(Datetime.render ⟨none, some t, none⟩).toList ++ rest, off⟩ with hd | ⟨v, off', -, -, hdig⟩
  · exact hd.bind _
  · simp only [hr] at hdig
    exact absurd (hdig ':' (by simp)) (by decide)

/-- No offset starts with a character that may end a value. -/
theorem timeOffset_declines {y : Char} (hy : EndChar y) (t : List Char) (off : Nat) :
    Declines timeOffset ⟨y :: t, off⟩ := by
  simp only [Declines, timeOffset, bind_apply, peek, get_apply, ok_bind, pure_apply, List.head?_cons]
  generalize hp : (some y : Option Char) = p
  split
  all_goals first
    | exact declines_decline _ _ _
    | (rcases hy with rfl | rfl | rfl | rfl <;> simp at hp)

/-- What follows a written time: its offset if it has one, then a character
that may end a value. -/
theorem timeEnd_offset {o : Option Offset} {y : Char} (hy : EndChar y) (t : List Char) :
    TimeEnd ((Datetime.render ⟨none, none, o⟩).toList ++ y :: t) := by
  cases o with
  | none =>
    intro z hz
    simp only [Datetime.render, String.toList_append, String.toList_empty, List.nil_append, List.head?_cons,
      Option.mem_def, Option.some.injEq] at hz
    subst hz
    exact ⟨hy.ne.1, hy.ne.2.2.1⟩
  | some w =>
    cases w with
    | utc => simp [TimeEnd, Datetime.render]
    | minutes m =>
      by_cases hm : m < 0 <;> simp [TimeEnd, Datetime.render, hm]

/-- A written date-time is read back, up to a character that may end a
value; after a date alone, a blank is not followed by a digit. -/
theorem dateTime_render {d : Datetime} (hd : d.Valid) {y : Char} (hy : EndChar y) (t : List Char)
    (hsp : y = ' ' → ∀ z ∈ t.head?, z.isDigit = false) (off : Nat) :
    ∃ off', dateTime ⟨d.render.toList ++ y :: t, off⟩ = .ok (d, ⟨y :: t, off'⟩) := by
  obtain ⟨date, time, offset⟩ := d
  cases date with
  | none =>
    cases time with
    | none => exact absurd hd.present (by simp)
    | some tm =>
      -- a time alone: no date is read, then the time
      cases offset with
      | some w => exact absurd (hd.offset_full rfl).1 (by simp)
      | none =>
        obtain ⟨off', htime⟩ := partialTime_render (hd.time tm rfl) (timeEnd_offset (o := none) hy t) off
        refine ⟨off', within_ok ?_⟩
        rw [show (Datetime.render ⟨none, none, none⟩).toList = [] by simp [Datetime.render], List.nil_append]
          at htime
        simp only [bind_apply, (fullDate_declines_time (hd.time tm rfl) (y :: t) off).attempt, ok_bind, htime,
          pure_apply]
  | some x =>
    cases time with
    | none =>
      -- a date alone: no time follows it
      cases offset with
      | some w => exact absurd (hd.offset_full rfl).2 (by simp)
      | none =>
        have htext : (Datetime.render ⟨some x, none, none⟩).toList ++ y :: t = (padded 4 x.year).toList ++
            '-' :: ((padded 2 x.month).toList ++ '-' :: ((padded 2 x.day).toList ++ y :: t)) := by
          simp [Datetime.render]
        obtain ⟨o₁, hdate⟩ := fullDate_padded (hd.date x rfl) (y :: t) off
        refine ⟨o₁, within_ok ?_⟩
        rw [htext]
        simp only [bind_apply, attempt_ok hdate, ok_bind]
        rw [Declines.attempt ?time]
        · rfl
        case time =>
          -- after the date, a blank would be followed by a digit
          simp only [Declines, bind_apply, peek, get_apply, ok_bind, pure_apply, List.head?_cons]
          generalize hp : (some y : Option Char) = p
          split
          · rcases hy with rfl | rfl | rfl | rfl <;> simp at hp
          · rcases hy with rfl | rfl | rfl | rfl <;> simp at hp
          · obtain rfl : y = ' ' := by simpa using hp
            obtain ⟨f, hf, hsoft⟩ := (partialTime_declines_head (c := ⟨t, o₁ + ' '.utf8Size⟩) (hsp rfl)).bind
              (fun tm => do
                let o ← attempt timeOffset
                pure (tm, o))
            exact ⟨f, hf, hsoft⟩
          · exact (declines_decline _ _ _).bind _
    | some tm =>
      have htext : (Datetime.render ⟨some x, some tm, offset⟩).toList ++ y :: t = (padded 4 x.year).toList ++
          '-' :: ((padded 2 x.month).toList ++ '-' :: ((padded 2 x.day).toList ++
            'T' :: ((Datetime.render ⟨none, some tm, none⟩).toList ++
              ((Datetime.render ⟨none, none, offset⟩).toList ++ y :: t)))) := by
        simp [Datetime.render]
      obtain ⟨o₁, hdate⟩ := fullDate_padded (hd.date x rfl) ('T' :: ((Datetime.render ⟨none, some tm, none⟩).toList ++
        ((Datetime.render ⟨none, none, offset⟩).toList ++ y :: t))) off
      -- after the date, a `T`, the time and its offset
      obtain ⟨o₂, htime⟩ := partialTime_render (hd.time tm rfl) (timeEnd_offset (o := offset) hy t) (o₁ + 1)
      obtain ⟨o₃, hoff⟩ : ∃ o₃, attempt timeOffset ⟨(Datetime.render ⟨none, none, offset⟩).toList ++ y :: t, o₂⟩ =
          .ok (offset, ⟨y :: t, o₃⟩) := by
        cases offset with
        | none => exact ⟨o₂, (timeOffset_declines hy t o₂).attempt⟩
        | some w =>
          obtain ⟨o₃, hw⟩ := timeOffset_render (hd.offset w rfl) (y :: t) o₂
          exact ⟨o₃, attempt_ok hw⟩
      refine ⟨o₃, within_ok ?_⟩
      rw [htext]
      simp only [bind_apply, attempt_ok hdate, ok_bind]
      rw [@attempt_ok _ _ _ ⟨y :: t, o₃⟩ (tm, offset) ?time]
      · rfl
      case time =>
        simp only [bind_apply, peek, get_apply, ok_bind, pure_apply, List.head?_cons, bump_cons,
          show 'T'.utf8Size = 1 from rfl, htime, hoff]

/-- A written date-time starts with a digit, of its year or of its hour. -/
theorem render_head {d : Datetime} (hd : d.Valid) :
    ∃ x r, d.render.toList = x :: r ∧ x.isDigit = true := by
  suffices h : ∃ x, d.render.toList.head? = some x ∧ x.isDigit = true by
    obtain ⟨x, hx, hdig⟩ := h
    exact ⟨x, d.render.toList.tail, List.eq_cons_of_mem_head? hx, hdig⟩
  obtain ⟨date, time, offset⟩ := d
  cases date with
  | some x =>
    obtain ⟨c, cs, hcs, hc⟩ := padded_head (show 0 < 4 by decide) (hd.date x rfl).year_lt
    exact ⟨c, by simp [Datetime.render, hcs], hc⟩
  | none =>
    cases time with
    | none => exact absurd hd.present (by simp)
    | some tm =>
      obtain ⟨c, cs, hcs, hc⟩ := padded_head (show 0 < 2 by decide)
        (Nat.lt_of_le_of_lt (hd.time tm rfl).hour_le (by decide))
      exact ⟨c, by simp [Datetime.render, hcs], hc⟩

/-- The value reader reads a written date-time back. -/
theorem value_datetime {d : Datetime} (hd : d.Valid) (fuel : Nat) {y : Char} (hy : EndChar y) (t : List Char)
    (hsp : y = ' ' → ∀ z ∈ t.head?, z.isDigit = false) (off : Nat) :
    ∃ off', value (fuel + 1) ⟨d.render.toList ++ y :: t, off⟩ =
      .ok (.scalar (.datetime d) ⟨off, off'⟩, ⟨y :: t, off'⟩) := by
  obtain ⟨off', hread⟩ := dateTime_render hd hy t hsp off
  obtain ⟨x, r, hxr, hx⟩ := render_head hd
  refine ⟨off', ?_⟩
  have hnum : number ⟨x :: (r ++ y :: t), off⟩ = .ok (.datetime d, ⟨y :: t, off'⟩) := by
    rw [← List.cons_append, ← hxr]
    simp only [number, bind_apply, attempt_ok hread, ok_bind]
    rfl
  rw [hxr, List.cons_append]
  exact value_of_number (Or.inr hx) hnum fuel

/-! ## What the reader gives -/

/-- Every result a reader gives satisfies `P`. -/
def Yields {α : Type} (r : Reader α) (P : α → Prop) : Prop := ∀ c a c', r c = .ok (a, c') → P a

section Yields

variable {α β : Type}

theorem yields_pure {P : α → Prop} {a : α} (h : P a) : Yields (pure a) P := by
  intro c b c' hr
  cases hr
  exact h

theorem Yields.bind {x : Reader α} {f : α → Reader β} {Q : α → Prop} {P : β → Prop} (hx : Yields x Q)
    (hf : ∀ a, Q a → Yields (f a) P) : Yields (x >>= f) P := by
  intro c b c' hr
  rw [bind_apply] at hr
  cases hxc : x c with
  | error e => rw [hxc] at hr; cases hr
  | ok p => rw [hxc] at hr; exact hf p.1 (hx c p.1 p.2 hxc) p.2 b c' hr

theorem yields_true (x : Reader α) : Yields x fun _ => True := fun _ _ _ _ => trivial

theorem Yields.mono {x : Reader α} {P Q : α → Prop} (h : Yields x P) (hPQ : ∀ a, P a → Q a) : Yields x Q :=
  fun c a c' hr => hPQ a (h c a c' hr)

theorem yields_failAt {P : α → Prop} (o : Nat) (l : Option String) (e : List String) (cause : Option String)
    (soft : Bool) : Yields (failAt o l e cause soft : Reader α) P := by
  intro c a c' hr
  cases hr

theorem yields_decline {P : α → Prop} (l : Option String) (e : List String) :
    Yields (decline l e : Reader α) P :=
  (yields_true offset).bind fun _ _ => yields_failAt _ _ _ _ _

theorem Yields.attempt {r : Reader α} {P : α → Prop} (h : Yields r P) :
    Yields (attempt r) fun o => ∀ a ∈ o, P a := by
  intro c o c' hr
  rw [Reader.attempt, tryCatch_apply, map_apply] at hr
  cases hrc : r c with
  | ok p =>
    rw [hrc] at hr
    cases hr
    intro a ha
    cases ha
    exact h c p.1 p.2 hrc
  | error f =>
    rw [hrc] at hr
    simp only [Functor.map, Except.map, Except.tryCatch] at hr
    split_ifs at hr
    · cases hr
      intro a ha
      cases ha
    · cases hr

theorem Yields.commit {r : Reader α} {P : α → Prop} (h : Yields r P) : Yields (commit r) P := by
  intro c a c' hr
  rw [Reader.commit, tryCatch_apply] at hr
  cases hrc : r c with
  | ok p => rw [hrc] at hr; exact h c a c' (hrc.trans hr)
  | error f => rw [hrc] at hr; cases hr

theorem Yields.within {r : Reader α} {P : α → Prop} (h : Yields r P) (label : Option String)
    (expected : List String) : Yields (within label expected r) P := by
  intro c a c' hr
  rw [Reader.within, tryCatch_apply] at hr
  cases hrc : r c with
  | ok p => rw [hrc] at hr; exact h c a c' (hrc.trans hr)
  | error f => rw [hrc] at hr; cases hr

end Yields

theorem digitsValue_lt_pow {cs : List Char} (h : ∀ x ∈ cs, x.isDigit = true) :
    digitsValue cs < Nat.pow 10 cs.length := by
  induction cs with
  | nil => decide
  | cons c cs ih =>
    have hc := (char_isDigit_iff c).1 (h c List.mem_cons_self)
    have hrest := ih fun x hx => h x (List.mem_cons_of_mem c hx)
    have hhead : digitsValue [c] ≤ 9 := by
      simp only [digitsValue, List.foldl_cons, List.foldl_nil, show '0'.toNat = 48 from rfl]
      omega
    have hpow : Nat.pow 10 (c :: cs).length = Nat.pow 10 cs.length * 10 := rfl
    rw [hpow, show c :: cs = [c] ++ cs from rfl, digitsValue_append]
    calc digitsValue [c] * Nat.pow 10 cs.length + digitsValue cs
        < 9 * Nat.pow 10 cs.length + Nat.pow 10 cs.length :=
          Nat.add_lt_add_of_le_of_lt (Nat.mul_le_mul_right _ hhead) hrest
      _ = Nat.pow 10 cs.length * 10 := by ring

/-- Fixed digits read a number of at most that many digits. -/
theorem fixedDigits_yields (n : Nat) : Yields (fixedDigits n) (· < Nat.pow 10 n) := by
  unfold fixedDigits
  refine (yields_true ahead).bind fun cs _ => ?_
  dsimp only
  split_ifs with h
  · refine (yields_true _).bind fun _ _ => yields_pure ?_
    simp only [Bool.and_eq_true, decide_eq_true_eq, List.all_eq_true] at h
    have := digitsValue_lt_pow h.2
    rwa [h.1] at this
  · exact yields_decline _ _

theorem inRange_yields (lo hi : Nat) (r : Reader Nat) : Yields (inRange lo hi r) fun v => lo ≤ v ∧ v ≤ hi := by
  unfold inRange
  refine (yields_true offset).bind fun _ _ => (yields_true r).bind fun v _ => ?_
  split_ifs with h
  · simp only [Bool.and_eq_true, decide_eq_true_eq] at h
    exact yields_pure h
  · exact yields_failAt _ _ _ _ _

theorem takeWhile_yields (p : Char → Bool) : Yields (takeWhile p) fun cs => ∀ x ∈ cs, p x = true := by
  intro c cs c' hr
  cases hr
  intro x hx
  exact List.mem_takeWhile_imp hx

/-- The fraction of a second is less than a second. -/
theorem secondFraction_yields : Yields secondFraction (· < 1000000000) := by
  unfold secondFraction
  refine (yields_true _).bind fun _ _ => (takeWhile_yields _).bind fun ds hds => ?_
  split_ifs
  · exact yields_decline _ _
  · refine yields_pure ?_
    have hlen : (ds.take 9).length ≤ 9 := by simp
    have hlt : digitsValue (ds.take 9) < Nat.pow 10 (ds.take 9).length :=
      digitsValue_lt_pow fun x hx => hds x (List.mem_of_mem_take hx)
    have hpow : Nat.pow 10 (ds.take 9).length * Nat.pow 10 (9 - (ds.take 9).length) = 1000000000 := by
      have hadd : Nat.pow 10 ((ds.take 9).length + (9 - (ds.take 9).length)) =
          Nat.pow 10 (ds.take 9).length * Nat.pow 10 (9 - (ds.take 9).length) := Nat.pow_add 10 _ _
      rw [← hadd, Nat.add_sub_cancel' hlen]
    calc digitsValue (ds.take 9) * Nat.pow 10 (9 - (ds.take 9).length)
        < Nat.pow 10 (ds.take 9).length * Nat.pow 10 (9 - (ds.take 9).length) :=
          Nat.mul_lt_mul_of_pos_right hlt (Nat.pow_pos (by decide))
      _ = 1000000000 := hpow

theorem partialTime_yields : Yields partialTime Time.Valid := by
  unfold partialTime
  refine (inRange_yields 0 23 _).bind fun hour hhour => (yields_true _).bind fun _ _ => Yields.commit ?_
  refine (inRange_yields 0 59 _).bind fun minute hminute => (yields_true _).bind fun _ _ => ?_
  refine (inRange_yields 0 60 _).bind fun second hsecond => secondFraction_yields.attempt.bind fun nanos hnanos => ?_
  refine yields_pure ⟨hhour.2, hminute.2, hsecond.2, ?_⟩
  cases nanos with
  | none => simp
  | some n => exact hnanos n rfl

theorem fullDate_yields : Yields fullDate Date.Valid := by
  unfold fullDate
  refine (fixedDigits_yields 4).bind fun year hyear => (yields_true _).bind fun _ _ => Yields.commit ?_
  refine (inRange_yields 1 12 _).bind fun month hmonth => (yields_true _).bind fun _ _ => ?_
  refine (yields_true offset).bind fun _ _ => (inRange_yields 1 31 _).bind fun day hday => ?_
  split_ifs with hmax
  · exact yields_failAt _ _ _ _ _
  · exact yields_pure ⟨hyear, hmonth.1, hmonth.2, hday.1, Nat.le_of_not_lt hmax⟩

theorem timeOffset_yields : Yields timeOffset Offset.Valid := by
  unfold timeOffset
  refine (yields_true peek).bind fun p _ => ?_
  split
  · exact (yields_true bump).bind fun _ _ => yields_pure trivial
  · exact (yields_true bump).bind fun _ _ => yields_pure trivial
  all_goals first
    | exact yields_decline _ _
    | refine (yields_true peek).bind fun _ _ => (yields_true bump).bind fun _ _ => Yields.commit ?_
      refine (inRange_yields 0 23 _).bind fun h hh => (yields_true _).bind fun _ _ => ?_
      refine (inRange_yields 0 59 _).bind fun m hm => yields_pure ?_
      show (if _ then _ else _ : Int).natAbs < 1440
      have hnat : ((h : Int) * 60 + m).natAbs = h * 60 + m := by
        rw [show ((h : Int) * 60 + m) = ((h * 60 + m : Nat) : Int) by push_cast; ring, Int.natAbs_natCast]
      split_ifs <;> simp only [Int.natAbs_neg, hnat] <;> omega

/-- Every date-time the reader gives is valid. -/
theorem dateTime_yields : Yields dateTime Datetime.Valid := by
  unfold dateTime
  refine Yields.within ?_ _ _
  refine fullDate_yields.attempt.bind fun date hdate => ?_
  cases date with
  | some x =>
    refine Yields.bind (Q := fun o => ∀ p ∈ o, p.1.Valid ∧ ∀ w ∈ p.2, w.Valid) ?_ fun part hpart => ?_
    · refine Yields.attempt ?_
      refine (yields_true peek).bind fun _ _ => ?_
      dsimp only
      split
      all_goals exact (yields_true _).bind fun _ _ => partialTime_yields.bind fun tm htm =>
        timeOffset_yields.attempt.bind fun o ho => yields_pure ⟨htm, ho⟩
    · cases part with
      | some p =>
        obtain ⟨tm, o⟩ := p
        obtain ⟨htm, ho⟩ := hpart _ rfl
        exact yields_pure ⟨fun x' hx' => by cases hx'; exact hdate x rfl, fun t' ht' => by cases ht'; exact htm,
          ho, by simp, fun _ => by simp⟩
      | none =>
        exact yields_pure ⟨fun x' hx' => by cases hx'; exact hdate x rfl, by simp, by simp, by simp, by simp⟩
  | none =>
    exact partialTime_yields.bind fun tm htm =>
      yields_pure ⟨by simp, fun t' ht' => by cases ht'; exact htm, by simp, by simp, by simp⟩

end Reader

end LotBridge.Toml
