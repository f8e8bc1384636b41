import LotBridge.Json.Decode
import Mathlib

/-!
# Compact JSON text reads back as its value

Reading the compact text of a value gives that value back, up to the places
the reader records, for every value whose numbers are integers stored as a
reader stores them (`Json.Exact`): `readValue_render` for a value followed by
more text, `readDocument_render` for a whole text. Strings come back with
every character, controls, quotes and backslashes included; integers come
back from their digits; arrays and objects element by element and member by
member, in order.

The reader is driven by fuel; one unit of fuel is spent per value and per
element or member read, so the length of the text is always enough.

## Main definitions

* `Json.Exact`: values whose text reads back.
* `Json.Follows`: what may follow a value's text.
-/

namespace LotBridge.Json

/-! ## Characters -/

theorem toNat_charOfNat {n : Nat} (h : n < 0xd800) : (Char.ofNat n).toNat = n := by
  unfold Char.ofNat
  rw [dif_pos (Or.inl h)]
  simp [Char.ofNatAux, Char.toNat]

theorem char_le_iff (c d : Char) : c ≤ d ↔ c.toNat ≤ d.toNat := by
  rw [Char.le_def, UInt32.le_iff_toNat_le, Char.toNat_val, Char.toNat_val]

theorem isDigit_iff (c : Char) : isDigit c = true ↔ 48 ≤ c.toNat ∧ c.toNat ≤ 57 := by
  simp [isDigit, char_le_iff]

/-- What may follow a value's text: a comma, a closing bracket or brace, or
nothing. -/
def Follows (rest : List Char) : Prop := ∀ y ∈ rest.head?, y = ',' ∨ y = ']' ∨ y = '}'

theorem blanks_cons (x : Char) (t : List Char) (p : Pos)
    (hx : x ≠ ' ' ∧ x ≠ '\n' ∧ x ≠ '\t' ∧ x ≠ '\r') : Cursor.blanks ⟨x :: t, p⟩ = ⟨x :: t, p⟩ := by
  simp [Cursor.blanks, Cursor.skipBlanks, hx.1, hx.2.1, hx.2.2.1, hx.2.2.2]

/-! ## Strings -/

/-- The characters a string literal holds as they are. -/
def Plain (c : Char) : Prop := c ≠ '"' ∧ c ≠ '\\' ∧ 32 ≤ c.toNat

instance : DecidablePred Plain := fun _ => inferInstanceAs (Decidable (_ ∧ _ ∧ _))

theorem escapeChar_of_plain {c : Char} (h : Plain c) : escapeChar c = [c] :=
  escapeChar_plain c h.1 h.2.1 h.2.2

theorem flatMap_escapeChar_of_plain {cs : List Char} (h : ∀ c ∈ cs, Plain c) :
    cs.flatMap escapeChar = cs := by
  induction cs with
  | nil => rfl
  | cons c cs ih =>
    simp only [List.mem_cons, forall_eq_or_imp] at h
    rw [List.flatMap_cons, escapeChar_of_plain h.1, ih h.2, List.singleton_append]

theorem escapeChar_head {c : Char} (h : ¬ Plain c) : ∃ t, escapeChar c = '\\' :: t := by
  unfold escapeChar
  split_ifs <;> first | exact ⟨_, rfl⟩ | (exfalso; simp_all [Plain])

theorem length_le_flatMap_escapeChar (cs : List Char) :
    cs.length ≤ (cs.flatMap escapeChar).length := by
  induction cs with
  | nil => simp
  | cons c cs ih =>
    have hc : 1 ≤ (escapeChar c).length := by
      unfold escapeChar
      split_ifs <;> simp
    simp only [List.flatMap_cons, List.length_append, List.length_cons]
    omega

theorem foldl_push (acc l : List Char) : l.foldl StrictText.push (.ok acc) = .ok (acc ++ l) := by
  induction l generalizing acc with
  | nil => simp
  | cons x l ih =>
    show l.foldl StrictText.push (.ok (acc ++ [x])) = _
    rw [ih]
    simp

theorem hexDigit_toNat {d : Nat} (h : d < 16) :
    (hexDigit d).toNat = if d < 10 then 48 + d else 87 + d := by
  unfold hexDigit
  split_ifs <;> exact toNat_charOfNat (by omega)

theorem hexValue_hexDigit {d : Nat} (h : d < 16) : hexValue (hexDigit d) = some d := by
  have hd := hexDigit_toNat h
  unfold hexValue
  simp only [char_le_iff, hd, Char.reduceToNat]
  split_ifs <;> first | omega | (congr 1; omega)

theorem utf8Size_hexDigit {d : Nat} (h : d < 16) : (hexDigit d).utf8Size = 1 := by
  have hd := hexDigit_toNat h
  rw [Char.utf8Size_eq_one_iff, UInt32.le_iff_toNat_le, Char.toNat_val, hd]
  split_ifs <;> simp <;> omega

theorem readHex4_hexEscape (n : Nat) (hn : n < 256) (t : List Char) (p : Pos) :
    readHex4 ⟨'0' :: '0' :: hexDigit (n / 16) :: hexDigit (n % 16) :: t, p⟩ =
      .ok (n, ⟨t, p.afterAll ['0', '0', hexDigit (n / 16), hexDigit (n % 16)]⟩) := by
  have h1 : n / 16 < 16 := by omega
  have h2 : n % 16 < 16 := by omega
  have hzero : hexValue '0' = some 0 := by decide
  have hsize : '0'.utf8Size = 1 := rfl
  unfold readHex4
  simp only [List.take, List.foldl, hzero, hsize, utf8Size_hexDigit h1, utf8Size_hexDigit h2,
    hexValue_hexDigit h1, hexValue_hexDigit h2]
  simp only [Nat.lt_irrefl, if_false, Nat.zero_mul, Nat.zero_add]
  congr 2
  omega

theorem readStringBody_quote (fuel : Nat) (s : StrictText) (t : List Char) (p : Pos) :
    readStringBody (fuel + 1) s ⟨'"' :: t, p⟩ = (.ok s, ⟨t, p.after '"'⟩) := by
  simp [readStringBody, Cursor.advance]

theorem takeWhile_plain (pre t : List Char) (hplain : ∀ c ∈ pre, Plain c)
    (hnext : ∀ c ∈ t.head?, ¬ Plain c) :
    (pre ++ t).takeWhile (fun y => decide (y ≠ '"' ∧ y ≠ '\\' ∧ 32 ≤ y.toNat)) = pre := by
  rw [List.takeWhile_append_of_pos (by simpa [Plain] using hplain)]
  cases t with
  | nil => simp
  | cons y t =>
    have hy : ¬ Plain y := hnext y rfl
    simp only [Plain] at hy
    simp [hy]

/-- A run of plain characters is read in one step. -/
theorem readStringBody_plain (fuel : Nat) (acc pre t : List Char) (p : Pos) (hpre : pre ≠ [])
    (hplain : ∀ c ∈ pre, Plain c) (hnext : ∀ c ∈ t.head?, ¬ Plain c) :
    readStringBody (fuel + 1) (.ok acc) ⟨pre ++ t, p⟩ =
      readStringBody fuel (.ok (acc ++ pre)) ⟨t, p.afterAll pre⟩ := by
  obtain ⟨x, pre', rfl⟩ := List.exists_cons_of_ne_nil hpre
  have hx : Plain x := hplain x (by simp)
  rw [readStringBody]
  simp only [List.cons_append]
  rw [if_neg hx.1, if_neg (by have := hx.2.2; omega), if_neg hx.2.1]
  rw [← List.cons_append, takeWhile_plain _ _ hplain hnext, foldl_push]
  simp [Cursor.advanceBy]

theorem readStringBody_simpleEscape (fuel : Nat) (acc : List Char) (e ch : Char) (t : List Char)
    (p : Pos) (he : simpleEscape e = some ch) :
    readStringBody (fuel + 1) (.ok acc) ⟨'\\' :: e :: t, p⟩ =
      readStringBody fuel (.ok (acc ++ [ch])) ⟨t, (p.after '\\').after e⟩ := by
  rw [readStringBody]
  simp [Cursor.advance, he, StrictText.push, Except.map]

theorem readStringBody_hexEscape (fuel : Nat) (acc : List Char) (n : Nat) (hn : n < 32)
    (t : List Char) (p : Pos) :
    ∃ p', readStringBody (fuel + 1) (.ok acc)
        ⟨'\\' :: 'u' :: '0' :: '0' :: hexDigit (n / 16) :: hexDigit (n % 16) :: t, p⟩ =
      readStringBody fuel (.ok (acc ++ [Char.ofNat n])) ⟨t, p'⟩ := by
  have htrail : isTrailSurrogate n = false := by simp [isTrailSurrogate]; omega
  have hlead : isLeadSurrogate n = false := by simp [isLeadSurrogate]; omega
  have hu : simpleEscape 'u' = none := by decide
  refine ⟨((p.after '\\').after 'u').afterAll ['0', '0', hexDigit (n / 16), hexDigit (n % 16)], ?_⟩
  rw [readStringBody]
  simp [Cursor.advance, hu, readHex4_hexEscape n (by omega), htrail, hlead, StrictText.push,
    Except.map]

/-- An escaped character is read back as itself in one step. -/
theorem readStringBody_escape (fuel : Nat) (acc : List Char) (x : Char) (t : List Char) (p : Pos)
    (hx : ¬ Plain x) :
    ∃ p', readStringBody (fuel + 1) (.ok acc) ⟨escapeChar x ++ t, p⟩ =
      readStringBody fuel (.ok (acc ++ [x])) ⟨t, p'⟩ := by
  have hcode : ∀ n, x.toNat = n → Char.ofNat n = x := by
    rintro n rfl
    exact Char.ofNat_toNat x
  unfold escapeChar
  split_ifs with h1 h2 h3 h4 h5 h6 h7 h8
  · subst h1
    exact ⟨_, readStringBody_simpleEscape fuel acc '"' '"' t p (by decide)⟩
  · subst h2
    exact ⟨_, readStringBody_simpleEscape fuel acc '\\' '\\' t p (by decide)⟩
  · subst h3
    exact ⟨_, readStringBody_simpleEscape fuel acc 'n' '\n' t p (by decide)⟩
  · subst h4
    exact ⟨_, readStringBody_simpleEscape fuel acc 'r' '\r' t p (by decide)⟩
  · subst h5
    exact ⟨_, readStringBody_simpleEscape fuel acc 't' '\t' t p (by decide)⟩
  · rw [← hcode 8 h6]
    exact ⟨_, readStringBody_simpleEscape fuel acc 'b' _ t p (by decide)⟩
  · rw [← hcode 12 h7]
    exact ⟨_, readStringBody_simpleEscape fuel acc 'f' _ t p (by decide)⟩
  · obtain ⟨p', hp⟩ := readStringBody_hexEscape fuel acc x.toNat h8 t p
    rw [hcode x.toNat rfl] at hp
    exact ⟨p', hp⟩
  · exact absurd ⟨h1, h2, by omega⟩ hx

/-- After the plain prefix of an escaped text comes an escape or the closing
quote. -/
theorem head_not_plain (post t : List Char) (hpost : ∀ c ∈ post.head?, ¬ Plain c) :
    ∀ c ∈ (post.flatMap escapeChar ++ '"' :: t).head?, ¬ Plain c := by
  cases post with
  | nil => simp [Plain]
  | cons y post =>
    obtain ⟨e, he⟩ := escapeChar_head (hpost y rfl)
    simp [he, Plain]

/-- The escaped characters of a text and the closing quote read back as the
text. The induction is on the fuel: each step reads a run of plain
characters or one escape. -/
theorem readStringBody_escaped (fuel : Nat) :
    ∀ (cs acc t : List Char) (p : Pos), cs.length < fuel →
      ∃ p', readStringBody fuel (.ok acc) ⟨cs.flatMap escapeChar ++ '"' :: t, p⟩ =
        (.ok (.ok (acc ++ cs)), ⟨t, p'⟩) := by
  induction fuel with
  | zero => intro cs _ _ _ h; omega
  | succ fuel ih =>
    intro cs acc t p hlen
    match cs with
    | [] => exact ⟨_, by simpa using readStringBody_quote fuel (.ok acc) t p⟩
    | x :: xs =>
      by_cases hx : Plain x
      · let pre := (x :: xs).takeWhile (fun c => decide (Plain c))
        let post := (x :: xs).dropWhile (fun c => decide (Plain c))
        have hsplit : pre ++ post = x :: xs := List.takeWhile_append_dropWhile
        have hpre : pre = x :: xs.takeWhile (fun c => decide (Plain c)) := by
          simp [pre, hx]
        have hplain : ∀ c ∈ pre, Plain c := fun c hc => by
          simpa using List.mem_takeWhile_imp hc
        have hpost : ∀ c ∈ post.head?, ¬ Plain c := by
          have := List.head?_dropWhile_not (fun c => decide (Plain c)) (x :: xs)
          intro c hc
          simp only [post] at hc
          rw [hc] at this
          simpa using this
        have hlen' : post.length < fuel := by
          have := congrArg List.length hsplit
          simp only [List.length_append, List.length_cons, hpre] at this hlen
          omega
        obtain ⟨p', hp'⟩ := ih post (acc ++ pre) t (p.afterAll pre) hlen'
        refine ⟨p', ?_⟩
        rw [← hsplit, List.flatMap_append, flatMap_escapeChar_of_plain hplain, List.append_assoc,
          readStringBody_plain fuel acc pre _ p (by simp [hpre]) hplain (head_not_plain post t hpost),
          hp', List.append_assoc]
      · obtain ⟨p1, hp1⟩ := readStringBody_escape fuel acc x (xs.flatMap escapeChar ++ '"' :: t) p hx
        obtain ⟨p', hp'⟩ := ih xs (acc ++ [x]) t p1 (by simp at hlen; omega)
        refine ⟨p', ?_⟩
        rw [List.flatMap_cons, List.append_assoc, hp1, hp', List.append_assoc, List.singleton_append]

theorem quote_toList (s : String) :
    (quote s).toList = '"' :: (s.toList.flatMap escapeChar ++ ['"']) := by
  simp [quote]

theorem readString_escaped (s : String) (rest : List Char) (start p : Pos) :
    ∃ p', readString start ⟨s.toList.flatMap escapeChar ++ '"' :: rest, p⟩ =
      (.string (.ok s) start p', ⟨rest, p'⟩) := by
  have hlen : s.toList.length <
      (s.toList.flatMap escapeChar ++ '"' :: rest).length + 1 := by
    have := length_le_flatMap_escapeChar s.toList
    simp only [List.length_append, List.length_cons]
    omega
  obtain ⟨p', hp⟩ := readStringBody_escaped _ s.toList [] rest p hlen
  refine ⟨p', ?_⟩
  simp only [readString]
  rw [hp]
  simp [Except.map]

/-! ## Numbers -/

theorem isDigit_of_mem_toDigits {n : Nat} {c : Char} (h : c ∈ Nat.toDigits 10 n) :
    isDigit c = true := by
  have := Nat.isDigit_of_mem_toDigits (by decide) (by decide) h
  simp only [Char.isDigit, Char.reduceVal, Bool.and_eq_true, decide_eq_true_eq,
    UInt32.le_iff_toNat_le, UInt32.reduceToNat, Char.toNat_val] at this
  rw [isDigit_iff]
  omega

theorem toDigits_head (n : Nat) (h : 0 < n) : ∃ d ds, Nat.toDigits 10 n = d :: ds ∧ d ≠ '0' := by
  induction n using Nat.strongRecOn with
  | ind n ih =>
    rw [Nat.toDigits_eq_if (by decide)]
    split
    · exact ⟨_, _, rfl, by simp; omega⟩
    · obtain ⟨d, ds, hds, hd⟩ := ih (n / 10) (by omega) (by omega)
      exact ⟨d, ds ++ _, by rw [hds, List.cons_append], hd⟩

/-- What may follow a number's text without extending it. -/
def NumberEnd (rest : List Char) : Prop :=
  ∀ y ∈ rest.head?, isDigit y = false ∧ y ≠ '.' ∧ y ≠ 'e' ∧ y ≠ 'E'

theorem Follows.numberEnd {rest : List Char} (h : Follows rest) : NumberEnd rest := by
  intro y hy
  rcases h y hy with rfl | rfl | rfl <;> decide

theorem spanDigits_append (ds rest : List Char) (hds : ∀ d ∈ ds, isDigit d = true)
    (hrest : NumberEnd rest) : spanDigits (ds ++ rest) = (ds, rest) := by
  have htake : rest.takeWhile isDigit = [] := by
    cases rest with
    | nil => rfl
    | cons y rest => simp [(hrest y rfl).1]
  have hdrop : rest.dropWhile isDigit = rest := by
    cases rest with
    | nil => rfl
    | cons y rest => simp [(hrest y rfl).1]
  simp [spanDigits, List.takeWhile_append_of_pos hds, List.dropWhile_append_of_pos hds, htake, hdrop]

theorem le_ofDigitChars (ds : List Char) (init : Nat) : init ≤ Nat.ofDigitChars 10 ds init := by
  rw [Nat.ofDigitChars_eq_ofDigitChars_zero]
  exact Nat.le_add_right_of_le (Nat.le_mul_of_pos_left init (Nat.pow_pos (by decide)))

/-- Digits accumulate to their value while it fits 64 bits. -/
theorem accumulate_digits (ds : List Char) (hds : ∀ d ∈ ds, isDigit d = true) :
    ∀ sig, Nat.ofDigitChars 10 ds sig ≤ 18446744073709551615 →
      accumulate sig ds = (Nat.ofDigitChars 10 ds sig, []) := by
  induction ds with
  | nil => intro sig _; rfl
  | cons d ds ih =>
    intro sig hbound
    simp only [List.mem_cons, forall_eq_or_imp] at hds
    have hd := (isDigit_iff d).1 hds.1
    have h48 : '0'.toNat = 48 := rfl
    rw [Nat.ofDigitChars_cons, h48] at hbound ⊢
    have hstep := le_ofDigitChars ds (10 * sig + (d.toNat - 48))
    have hno : overflows sig (digitValue d) 18446744073709551615 = false := by
      simp [overflows, digitValue] at hstep ⊢
      omega
    rw [accumulate, if_neg (by simp [hno]),
      show sig * 10 + digitValue d = 10 * sig + (d.toNat - 48) by simp [digitValue]; omega]
    exact ih hds.2 _ hbound

theorem readAfterInteger_end (start : Pos) (m : Mantissa) (c : Cursor) (hrest : NumberEnd c.rest) :
    readAfterInteger start m false c =
      (.number (.ok (integerNumber m.positive m.significand)) start c.pos, c) := by
  obtain ⟨rest, p⟩ := c
  unfold readAfterInteger
  cases rest with
  | nil => rfl
  | cons y rest =>
    obtain ⟨-, h1, h2, h3⟩ := hrest y rfl
    simp [h1, h2, h3]

/-- The digits of a number below `2 ^ 64`, after a minus sign or none, read
as that number with that sign. -/
theorem readNumber_digits (positive : Bool) (n : Nat) (hn : n < 2 ^ 64) (rest : List Char)
    (hrest : NumberEnd rest) (p : Pos) :
    ∃ p', readNumber ⟨(if positive then [] else ['-']) ++ Nat.toDigits 10 n ++ rest, p⟩ =
      (.number (.ok (integerNumber positive n)) p p', ⟨rest, p'⟩) := by
  have hds : ∀ d ∈ Nat.toDigits 10 n, isDigit d = true := fun d hd => isDigit_of_mem_toDigits hd
  rcases Nat.eq_zero_or_pos n with rfl | hpos
  · -- a lone zero: the character after it must not be a digit
    have hz : Nat.toDigits 10 0 = ['0'] := by decide
    rw [hz]
    cases positive <;> simp only [readNumber, Cursor.advance] <;> simp
    all_goals
      cases rest with
      | nil => exact ⟨_, readAfterInteger_end _ _ _ hrest⟩
      | cons y r =>
        simp only [(hrest y rfl).1, Bool.false_eq_true, if_false]
        exact ⟨_, readAfterInteger_end _ _ _ hrest⟩
  · obtain ⟨d, ds, hdig, hd0⟩ := toDigits_head n hpos
    have hsp := spanDigits_append _ rest hds hrest
    have hacc := accumulate_digits _ hds 0 (by rw [Nat.ofDigitChars_ten_toDigits]; omega)
    have hd : isDigit d = true := hds d (by simp [hdig])
    have hminus : d ≠ '-' := by
      rintro rfl
      exact absurd hd (by decide)
    rw [Nat.ofDigitChars_ten_toDigits] at hacc
    rw [hdig] at hsp hacc ⊢
    simp only [List.cons_append] at hsp
    cases positive <;> simp only [readNumber, Cursor.advance] <;> simp [hd0, hd, hsp, hacc, hminus]
    all_goals exact ⟨_, readAfterInteger_end _ _ _ hrest⟩

/-! ## Steps of the value reader -/

section Steps

variable (fuel : Nat) (start p : Pos) (t : List Char)

theorem readValue_string (s : String) :
    ∃ p', readValue (fuel + 1) ⟨(quote s).toList ++ t, p⟩ = (.string (.ok s) p p', ⟨t, p'⟩) := by
  obtain ⟨p', hp⟩ := readString_escaped s t p (p.after '"')
  refine ⟨p', ?_⟩
  rw [quote_toList]
  simp [readValue, Cursor.blanks, Cursor.skipBlanks, Cursor.advance, isDigit, hp]

theorem readValue_openArray :
    readValue (fuel + 1) ⟨'[' :: t, p⟩ = readItems fuel p [] true ⟨t, p.after '['⟩ := by
  simp [readValue, Cursor.blanks, Cursor.skipBlanks, Cursor.advance, isDigit]

theorem readValue_openObject :
    readValue (fuel + 1) ⟨'{' :: t, p⟩ = readMembers fuel p [] true ⟨t, p.after '{'⟩ := by
  simp [readValue, Cursor.blanks, Cursor.skipBlanks, Cursor.advance, isDigit]

theorem readItems_close (acc : List Node) (first : Bool) :
    readItems (fuel + 1) start acc first ⟨']' :: t, p⟩ =
      (.array start acc (some (p.after ']')), ⟨t, p.after ']'⟩) := by
  simp [readItems, Cursor.blanks, Cursor.skipBlanks, Cursor.advance]

theorem readMembers_close (acc : List (Option Key × Node)) (first : Bool) :
    readMembers (fuel + 1) start acc first ⟨'}' :: t, p⟩ =
      (.object start acc (some (p.after '}')), ⟨t, p.after '}'⟩) := by
  simp [readMembers, Cursor.blanks, Cursor.skipBlanks, Cursor.advance]

/-- What may open a value's text: no blank and no closing bracket or brace. -/
def Opens (x : Char) : Prop := x ≠ ' ' ∧ x ≠ '\n' ∧ x ≠ '\t' ∧ x ≠ '\r' ∧ x ≠ ']' ∧ x ≠ '}'

instance : DecidablePred Opens := fun _ => inferInstanceAs (Decidable (_ ∧ _ ∧ _ ∧ _ ∧ _ ∧ _))

theorem readItems_first (acc : List Node) (x : Char) (hx : Opens x) (n : Node) (c : Cursor)
    (hv : readValue fuel ⟨x :: t, p⟩ = (n, c)) (hn : n.isBroken = false) :
    readItems (fuel + 1) start acc true ⟨x :: t, p⟩ = readItems fuel start (acc ++ [n]) false c := by
  obtain ⟨h1, h2, h3, h4, h5, -⟩ := hx
  rw [readItems, blanks_cons x t p ⟨h1, h2, h3, h4⟩]
  simp [hv, hn]

theorem readItems_next (acc : List Node) (x : Char) (hx : Opens x) (n : Node) (c : Cursor)
    (hv : readValue fuel ⟨x :: t, p.after ','⟩ = (n, c)) (hn : n.isBroken = false) :
    readItems (fuel + 1) start acc false ⟨',' :: x :: t, p⟩ =
      readItems fuel start (acc ++ [n]) false c := by
  obtain ⟨h1, h2, h3, h4, h5, -⟩ := hx
  rw [readItems, blanks_cons ',' (x :: t) p (by decide)]
  simp [Cursor.advance, blanks_cons x t _ ⟨h1, h2, h3, h4⟩, h5, hv, hn]

theorem readMembers_first (acc : List (Option Key × Node)) (key : String) (q : Pos)
    (t' : List Char) (hs : readString p ⟨t, p.after '"'⟩ = (.string (.ok key) p q, ⟨':' :: t', q⟩))
    (n : Node) (c : Cursor) (hv : readValue fuel ⟨t', q.after ':'⟩ = (n, c))
    (hn : n.isBroken = false) :
    readMembers (fuel + 1) start acc true ⟨'"' :: t, p⟩ =
      readMembers fuel start (acc ++ [(some ⟨.ok key, q, q⟩, n)]) false c := by
  rw [readMembers, blanks_cons '"' t p (by decide)]
  simp [Cursor.advance, hs, blanks_cons ':' t' q (by decide), hv, hn]

theorem readMembers_next (acc : List (Option Key × Node)) (key : String) (q : Pos)
    (t' : List Char)
    (hs : readString (p.after ',') ⟨t, (p.after ',').after '"'⟩ =
      (.string (.ok key) (p.after ',') q, ⟨':' :: t', q⟩))
    (n : Node) (c : Cursor) (hv : readValue fuel ⟨t', q.after ':'⟩ = (n, c))
    (hn : n.isBroken = false) :
    readMembers (fuel + 1) start acc false ⟨',' :: '"' :: t, p⟩ =
      readMembers fuel start (acc ++ [(some ⟨.ok key, q, q⟩, n)]) false c := by
  rw [readMembers, blanks_cons ',' ('"' :: t) p (by decide)]
  simp [Cursor.advance, blanks_cons '"' t _ (by decide), hs, blanks_cons ':' t' q (by decide), hv,
    hn]

theorem readValue_numberStart (x : Char) (hx : x = '-' ∨ isDigit x = true) :
    readValue (fuel + 1) ⟨x :: t, p⟩ = readNumber ⟨x :: t, p⟩ := by
  rcases hx with rfl | hd
  · simp [readValue, Cursor.blanks, Cursor.skipBlanks]
  · have hrange := (isDigit_iff x).1 hd
    have hne : ∀ y : Char, (y.toNat < 48 ∨ 57 < y.toNat) → x ≠ y := by
      rintro y hy rfl
      omega
    simp [readValue, Cursor.blanks, Cursor.skipBlanks, hd, hne ' ' (by decide), hne '\n' (by decide),
      hne '\t' (by decide), hne '\r' (by decide), hne 'n' (by decide), hne 't' (by decide),
      hne 'f' (by decide)]

theorem readValue_digits (positive : Bool) (n : Nat) (hn : n < 2 ^ 64) (ht : NumberEnd t) :
    ∃ p', readValue (fuel + 1) ⟨(if positive then [] else ['-']) ++ Nat.toDigits 10 n ++ t, p⟩ =
      (.number (.ok (integerNumber positive n)) p p', ⟨t, p'⟩) := by
  obtain ⟨d, ds, hdig⟩ := List.exists_cons_of_ne_nil (Nat.toDigits_ne_nil (n := n) (b := 10))
  have hmem : d ∈ Nat.toDigits 10 n := by simp [hdig]
  have hd : isDigit d = true := isDigit_of_mem_toDigits hmem
  obtain ⟨x, t', heq, hx⟩ : ∃ x t', (if positive then [] else ['-']) ++ Nat.toDigits 10 n ++ t =
      x :: t' ∧ (x = '-' ∨ isDigit x = true) := by
    cases positive
    · exact ⟨_, _, rfl, Or.inl rfl⟩
    · exact ⟨d, ds ++ t, by simp [hdig], Or.inr hd⟩
  rw [heq, readValue_numberStart fuel p t' x hx, ← heq]
  exact readNumber_digits positive n hn t ht p

end Steps

/-! ## Values -/

mutual

/-- Values whose compact text reads back as themselves: they hold no float,
and every number stored as negative is below zero. -/
def Exact : Json → Prop
  | .number (.float _) => False
  | .number (.negative n) => n.toInt < 0
  | .array items => ExactItems items
  | .object fields => ExactFields fields
  | _ => True

/-- Every element is exact. -/
def ExactItems : List Json → Prop
  | [] => True
  | j :: rest => Exact j ∧ ExactItems rest

/-- Every member's value is exact. -/
def ExactFields : List (String × Json) → Prop
  | [] => True
  | (_, j) :: rest => Exact j ∧ ExactFields rest

end

/-- Array elements after the first, each after its comma. -/
def itemsTail (xs : List Json) : List Char := xs.flatMap fun x => ',' :: (render x).toList

/-- A member's text: its quoted key, a colon and its value. -/
def memberText (kv : String × Json) : List Char :=
  (quote kv.1).toList ++ ':' :: (render kv.2).toList

/-- Object members after the first, each after its comma. -/
def membersTail (fs : List (String × Json)) : List Char := fs.flatMap fun kv => ',' :: memberText kv

theorem itemsTail_cons (x : Json) (xs : List Json) :
    itemsTail (x :: xs) = ',' :: (render x).toList ++ itemsTail xs := by
  simp [itemsTail]

theorem membersTail_cons (kv : String × Json) (fs : List (String × Json)) :
    membersTail (kv :: fs) = ',' :: memberText kv ++ membersTail fs := by
  simp [membersTail]

theorem render_array (xs : List Json) :
    (render (.array xs)).toList = '[' :: (renderItems xs).toList ++ [']'] := by
  simp [render]

theorem render_object (fs : List (String × Json)) :
    (render (.object fs)).toList = '{' :: (renderFields fs).toList ++ ['}'] := by
  simp [render]

theorem renderItems_cons (x : Json) (xs : List Json) :
    (renderItems (x :: xs)).toList = (render x).toList ++ itemsTail xs := by
  induction xs generalizing x with
  | nil => simp [renderItems, itemsTail]
  | cons y ys ih => simp [renderItems, itemsTail, ih]

theorem renderFields_cons (kv : String × Json) (fs : List (String × Json)) :
    (renderFields (kv :: fs)).toList = memberText kv ++ membersTail fs := by
  induction fs generalizing kv with
  | nil => simp [renderFields, memberText, membersTail]
  | cons kv' fs ih => simp [renderFields, memberText, membersTail, ih]

theorem render_natural (n : UInt64) :
    (render (.number (.natural n))).toList = Nat.toDigits 10 n.toNat := by
  simp [render, Number.render]

theorem render_negative (n : Int64) (h : n.toInt < 0) :
    (render (.number (.negative n))).toList = '-' :: Nat.toDigits 10 n.toInt.natAbs := by
  obtain ⟨m, hm⟩ := Int.eq_negSucc_of_lt_zero h
  simp [render, Number.render, hm, Int.repr, toString]

theorem readValue_null (fuel : Nat) (t : List Char) (p : Pos) :
    ∃ p', readValue (fuel + 1) ⟨(render .null).toList ++ t, p⟩ = (.null p p', ⟨t, p'⟩) := by
  simp [render, readValue, readIdent, Cursor.blanks, Cursor.skipBlanks, Cursor.advance]

theorem readValue_bool (fuel : Nat) (b : Bool) (t : List Char) (p : Pos) :
    ∃ p', readValue (fuel + 1) ⟨(render (.bool b)).toList ++ t, p⟩ = (.bool b p p', ⟨t, p'⟩) := by
  cases b <;> simp [render, readValue, readIdent, Cursor.blanks, Cursor.skipBlanks, Cursor.advance]

theorem readValue_natural (fuel : Nat) (n : UInt64) (t : List Char) (ht : NumberEnd t) (p : Pos) :
    ∃ p', readValue (fuel + 1) ⟨(render (.number (.natural n))).toList ++ t, p⟩ =
      (.number (.ok (.natural n)) p p', ⟨t, p'⟩) := by
  have h := readValue_digits fuel p t true n.toNat n.toNat_lt ht
  simpa [render_natural, integerNumber] using h

theorem readValue_negative (fuel : Nat) (n : Int64) (hn : n.toInt < 0) (t : List Char)
    (ht : NumberEnd t) (p : Pos) :
    ∃ p', readValue (fuel + 1) ⟨(render (.number (.negative n))).toList ++ t, p⟩ =
      (.number (.ok (.negative n)) p p', ⟨t, p'⟩) := by
  have hlow := Int64.le_toInt n
  have h := readValue_digits fuel p t false n.toInt.natAbs (by omega) ht
  have hnum : integerNumber false n.toInt.natAbs = .negative n := by
    have habs : (-(n.toInt.natAbs : Int)) = n.toInt := by omega
    simp only [integerNumber, Bool.false_eq_true, if_false]
    rw [if_neg (by omega), habs, Int64.ofInt_toInt]
  simpa [render_negative n hn, hnum] using h

theorem Opens.of_isDigit {x : Char} (h : isDigit x = true) : Opens x := by
  have hrange := (isDigit_iff x).1 h
  refine ⟨?_, ?_, ?_, ?_, ?_, ?_⟩ <;> (rintro rfl; revert hrange; decide)

/-- The text of an exact value opens with a character that opens a value. -/
theorem render_opens (j : Json) (hj : Exact j) : ∃ x t, (render j).toList = x :: t ∧ Opens x := by
  match j, hj with
  | .null, _ => exact ⟨'n', ['u', 'l', 'l'], by simp [render], by decide⟩
  | .bool true, _ => exact ⟨'t', ['r', 'u', 'e'], by simp [render], by decide⟩
  | .bool false, _ => exact ⟨'f', ['a', 'l', 's', 'e'], by simp [render], by decide⟩
  | .number (.natural n), _ =>
    obtain ⟨d, ds, hdig⟩ := List.exists_cons_of_ne_nil (Nat.toDigits_ne_nil (n := n.toNat) (b := 10))
    have hmem : d ∈ Nat.toDigits 10 n.toNat := by simp [hdig]
    exact ⟨d, ds, by rw [render_natural, hdig], Opens.of_isDigit (isDigit_of_mem_toDigits hmem)⟩
  | .number (.negative n), hn => exact ⟨'-', _, render_negative n hn, by decide⟩
  | .string s, _ => exact ⟨'"', _, quote_toList s, by decide⟩
  | .array xs, _ => exact ⟨'[', _, render_array xs, by decide⟩
  | .object fs, _ => exact ⟨'{', _, render_object fs, by decide⟩

theorem isBroken_of_forget {n : Node} {j : Json} (h : n.forget = toNode j) : n.isBroken = false := by
  cases n with
  | broken s l => cases j <;> simp [Node.forget, toNode] at h
  | _ => rfl

theorem forgetItems_eq_map (ns : List Node) : Node.forgetItems ns = ns.map Node.forget := by
  induction ns with
  | nil => rfl
  | cons n ns ih => simp [Node.forgetItems, ih]

theorem itemsToNodes_eq_map (xs : List Json) : itemsToNodes xs = xs.map toNode := by
  induction xs with
  | nil => rfl
  | cons x xs ih => simp [itemsToNodes, ih]

theorem follows_itemsTail (xs : List Json) (rest : List Char) :
    Follows (itemsTail xs ++ ']' :: rest) := by
  cases xs <;> simp [itemsTail, Follows]

theorem follows_membersTail (fs : List (String × Json)) (rest : List Char) :
    Follows (membersTail fs ++ '}' :: rest) := by
  cases fs <;> simp [membersTail, Follows]

mutual

/-- The text of an exact value, followed by what may follow a value, reads
back as the value and stops right after it. -/
theorem readValue_render : ∀ (j : Json), Exact j → ∀ (fuel : Nat) (rest : List Char) (p : Pos),
    (render j).toList.length < fuel → Follows rest →
      ∃ n p', readValue fuel ⟨(render j).toList ++ rest, p⟩ = (n, ⟨rest, p'⟩) ∧
        n.forget = toNode j
  | _, _, 0, _, _, hlen, _ => absurd hlen (Nat.not_lt_zero _)
  | .null, _, fuel + 1, rest, p, _, _ => by
    obtain ⟨p', h⟩ := readValue_null fuel rest p
    exact ⟨_, p', h, rfl⟩
  | .bool b, _, fuel + 1, rest, p, _, _ => by
    obtain ⟨p', h⟩ := readValue_bool fuel b rest p
    exact ⟨_, p', h, rfl⟩
  | .number (.natural n), _, fuel + 1, rest, p, _, hrest => by
    obtain ⟨p', h⟩ := readValue_natural fuel n rest hrest.numberEnd p
    exact ⟨_, p', h, rfl⟩
  | .number (.negative n), hn, fuel + 1, rest, p, _, hrest => by
    obtain ⟨p', h⟩ := readValue_negative fuel n hn rest hrest.numberEnd p
    exact ⟨_, p', h, rfl⟩
  | .number (.float _), hj, _ + 1, _, _, _, _ => hj.elim
  | .string s, _, fuel + 1, rest, p, _, _ => by
    obtain ⟨p', h⟩ := readValue_string fuel p rest s
    exact ⟨_, p', by simpa [render] using h, rfl⟩
  | .array [], _, fuel + 1, rest, p, hlen, _ => by
    obtain ⟨f, rfl⟩ : ∃ f, fuel = f + 1 := ⟨fuel - 1, by simp [render_array, renderItems] at hlen; omega⟩
    refine ⟨.array p [] (some ((p.after '[').after ']')), (p.after '[').after ']', ?_, rfl⟩
    rw [render_array]
    simp only [renderItems, String.toList_empty, List.nil_append, List.cons_append]
    rw [readValue_openArray, readItems_close]
  | .array (x :: xs), hj, fuel + 1, rest, p, hlen, _ => by
    obtain ⟨hx, hxs⟩ : Exact x ∧ ExactItems xs := hj
    obtain ⟨h, t, hrx, hop⟩ := render_opens x hx
    have hlen' := hlen
    rw [render_array, renderItems_cons, hrx] at hlen'
    simp only [List.length_cons, List.length_append, List.length_nil] at hlen'
    obtain ⟨f, rfl⟩ : ∃ f, fuel = f + 1 := ⟨fuel - 1, by omega⟩
    obtain ⟨n, q, hv, hn⟩ := readValue_render x hx f (itemsTail xs ++ ']' :: rest) (p.after '[')
      (by rw [hrx]; simp only [List.length_cons]; omega) (follows_itemsTail xs rest)
    obtain ⟨ns, p', hr, hns⟩ := readItems_tail xs hxs f p [n] rest q (by omega)
    refine ⟨.array p (n :: ns) (some p'), p', ?_, ?_⟩
    · rw [render_array, renderItems_cons]
      simp only [List.cons_append, List.append_assoc, List.nil_append]
      rw [readValue_openArray]
      rw [hrx, List.cons_append] at hv
      rw [hrx, List.cons_append, readItems_first f p _ _ [] h hop n _ hv (isBroken_of_forget hn),
        List.nil_append, hr]
      rfl
    · simp [Node.forget, toNode, forgetItems_eq_map, itemsToNodes_eq_map, hn, hns]
  | .object [], _, fuel + 1, rest, p, hlen, _ => by
    obtain ⟨f, rfl⟩ : ∃ f, fuel = f + 1 :=
      ⟨fuel - 1, by simp [render_object, renderFields] at hlen; omega⟩
    refine ⟨.object p [] (some ((p.after '{').after '}')), (p.after '{').after '}', ?_, rfl⟩
    rw [render_object]
    simp only [renderFields, String.toList_empty, List.nil_append, List.cons_append]
    rw [readValue_openObject, readMembers_close]
  | .object ((k, v) :: fs), hj, fuel + 1, rest, p, hlen, _ => by
    obtain ⟨hv', hfs⟩ : Exact v ∧ ExactFields fs := hj
    have hlen' := hlen
    rw [render_object, renderFields_cons] at hlen'
    simp only [memberText, quote_toList, List.length_cons, List.length_append, List.length_nil]
      at hlen'
    obtain ⟨f, rfl⟩ : ∃ f, fuel = f + 1 := ⟨fuel - 1, by omega⟩
    obtain ⟨q, hs⟩ := readString_escaped k
      (':' :: ((render v).toList ++ (membersTail fs ++ '}' :: rest))) (p.after '{')
      ((p.after '{').after '"')
    obtain ⟨n, c, hval, hn⟩ := readValue_render v hv' f (membersTail fs ++ '}' :: rest) (q.after ':')
      (by omega) (follows_membersTail fs rest)
    obtain ⟨ms, p', hr, hms⟩ := readMembers_tail fs hfs f p [(some ⟨.ok k, q, q⟩, n)] rest c
      (by omega)
    refine ⟨.object p ((some ⟨.ok k, q, q⟩, n) :: ms) (some p'), p', ?_, ?_⟩
    · rw [render_object, renderFields_cons]
      simp only [memberText, quote_toList, List.cons_append, List.append_assoc, List.nil_append]
      rw [readValue_openObject, readMembers_first f p (p.after '{') _ [] k q _ hs n _ hval
        (isBroken_of_forget hn), List.nil_append, hr]
      rfl
    · simp [Node.forget, Node.forgetMembers, toNode, fieldsToNodes, hn, hms]

/-- Elements after the first, each after its comma, and the closing bracket
read back one by one. -/
theorem readItems_tail : ∀ (xs : List Json), ExactItems xs → ∀ (fuel : Nat) (start : Pos)
    (acc : List Node) (rest : List Char) (p : Pos), (itemsTail xs).length < fuel →
      ∃ ns p', readItems fuel start acc false ⟨itemsTail xs ++ ']' :: rest, p⟩ =
        (.array start (acc ++ ns) (some p'), ⟨rest, p'⟩) ∧ ns.map Node.forget = xs.map toNode
  | _, _, 0, _, _, _, _, hlen => absurd hlen (Nat.not_lt_zero _)
  | [], _, fuel + 1, start, acc, rest, p, _ =>
    ⟨[], p.after ']', by simp [itemsTail, readItems_close], rfl⟩
  | x :: xs, hxs, fuel + 1, start, acc, rest, p, hlen => by
    obtain ⟨hx, hxs⟩ : Exact x ∧ ExactItems xs := hxs
    obtain ⟨h, t, hrx, hop⟩ := render_opens x hx
    have hlen' := hlen
    simp only [itemsTail_cons, hrx, List.length_cons, List.length_append] at hlen'
    obtain ⟨n, q, hv, hn⟩ := readValue_render x hx fuel (itemsTail xs ++ ']' :: rest) (p.after ',')
      (by rw [hrx]; simp only [List.length_cons]; omega) (follows_itemsTail xs rest)
    obtain ⟨ns, p', hr, hns⟩ := readItems_tail xs hxs fuel start (acc ++ [n]) rest q (by omega)
    refine ⟨n :: ns, p', ?_, by simp [hn, hns]⟩
    rw [hrx, List.cons_append] at hv
    have htext : itemsTail (x :: xs) ++ ']' :: rest = ',' :: h :: (t ++ (itemsTail xs ++ ']' :: rest)) := by
      simp [itemsTail, hrx]
    rw [htext, readItems_next fuel start p _ acc h hop n _ hv (isBroken_of_forget hn), hr]
    simp

/-- Members after the first, each after its comma, and the closing brace read
back one by one. -/
theorem readMembers_tail : ∀ (fs : List (String × Json)), ExactFields fs → ∀ (fuel : Nat)
    (start : Pos) (acc : List (Option Key × Node)) (rest : List Char) (p : Pos),
    (membersTail fs).length < fuel →
      ∃ ms p', readMembers fuel start acc false ⟨membersTail fs ++ '}' :: rest, p⟩ =
        (.object start (acc ++ ms) (some p'), ⟨rest, p'⟩) ∧ Node.forgetMembers ms = fieldsToNodes fs
  | _, _, 0, _, _, _, _, hlen => absurd hlen (Nat.not_lt_zero _)
  | [], _, fuel + 1, start, acc, rest, p, _ =>
    ⟨[], p.after '}', by simp [membersTail, readMembers_close], rfl⟩
  | (k, v) :: fs, hfs, fuel + 1, start, acc, rest, p, hlen => by
    obtain ⟨hv', hfs⟩ : Exact v ∧ ExactFields fs := hfs
    have hlen' := hlen
    simp only [membersTail_cons, memberText, quote_toList, List.length_cons, List.length_append]
      at hlen'
    obtain ⟨q, hs⟩ := readString_escaped k
      (':' :: ((render v).toList ++ (membersTail fs ++ '}' :: rest))) (p.after ',')
      ((p.after ',').after '"')
    obtain ⟨n, c, hval, hn⟩ := readValue_render v hv' fuel (membersTail fs ++ '}' :: rest)
      (q.after ':') (by omega) (follows_membersTail fs rest)
    obtain ⟨ms, p', hr, hms⟩ := readMembers_tail fs hfs fuel start
      (acc ++ [(some ⟨.ok k, q, q⟩, n)]) rest c (by omega)
    refine ⟨(some ⟨.ok k, q, q⟩, n) :: ms, p', ?_, ?_⟩
    · have htext : membersTail ((k, v) :: fs) ++ '}' :: rest =
          ',' :: '"' :: (k.toList.flatMap escapeChar ++ '"' ::
            (':' :: ((render v).toList ++ (membersTail fs ++ '}' :: rest)))) := by
        simp [membersTail, memberText, quote_toList]
      rw [htext, readMembers_next fuel start p _ acc k q _ hs n _ hval (isBroken_of_forget hn), hr]
      simp
    · simp [Node.forgetMembers, fieldsToNodes, hn, hms]

end

/-- The compact text of an exact value reads as the value, with nothing
after it. -/
theorem readDocument_render (j : Json) (hj : Exact j) :
    ∃ n, readDocument (render j) = ⟨n, none⟩ ∧ n.forget = toNode j := by
  have hnil : Follows [] := fun _ h => nomatch h
  obtain ⟨n, p', hv, hn⟩ := readValue_render j hj ((render j).toList.length + 2) [] ⟨1, 0⟩
    (by omega) hnil
  rw [List.append_nil] at hv
  refine ⟨n, ?_, hn⟩
  simp [readDocument, hv, Cursor.blanks, Cursor.skipBlanks]

end LotBridge.Json
