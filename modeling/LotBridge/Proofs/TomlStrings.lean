import LotBridge.Toml.Document
import LotBridge.Toml.Writer
import LotBridge.Proofs.JsonReadBack

/-!
# Written TOML strings read back

Every string, written inline in the form the writer picks for it, is read
back by the string reader as itself.

A string is written in the first of six forms that can hold it; each form is
read by its own body reader, and the shape of the string is what lets the
body reader through. A basic or literal string without escapes holds only
characters that stand for themselves; a multi-line one may hold line breaks
and runs of at most two quotes, which its body reader keeps as text, and its
closing run of quotes may take the string's last quotes with it. An escaped
string writes every other control character as an escape that the escape
reader turns back into that character.

The first section opens the steps of a reader on a cursor; the later modules
on written values use them too.

## Main definitions

* `Shown`: the characters every form of string holds as themselves.
* `MlText`: the text a multi-line body reads as it stands.

## Main statements

* `string_basic`, `string_literal`, `string_mlBasic`, `string_mlLiteral`: the
  openings of a string.
* `string_quoteString`: the string reader reads a written string back.
-/

namespace LotBridge.Toml

open LotBridge.Json (char_le_iff toNat_charOfNat)

namespace Reader

/-! ## Running a reader

A reader runs on a cursor; these equations open its steps one at a time. -/

theorem bind_apply {α β : Type} (x : Reader α) (f : α → Reader β) (c : Cursor) :
    (x >>= f) c = (x c >>= fun p => f p.1 p.2) := rfl

theorem map_apply {α β : Type} (x : Reader α) (f : α → β) (c : Cursor) :
    (f <$> x) c = ((fun p => (f p.1, p.2)) <$> x c) := rfl

theorem get_apply (c : Cursor) : (get : Reader Cursor) c = .ok (c, c) := rfl

theorem modify_apply (g : Cursor → Cursor) (c : Cursor) : (modify g : Reader Unit) c = .ok ((), g c) :=
  rfl

theorem pure_apply {α : Type} (a : α) (c : Cursor) : (pure a : Reader α) c = .ok (a, c) := rfl

theorem ok_bind {α β : Type} (a : α) (f : α → Except Fault β) : (Except.ok a >>= f) = f a := rfl

theorem ok_map {α β : Type} (a : α) (f : α → β) : (f <$> (Except.ok a : Except Fault α)) = .ok (f a) :=
  rfl

theorem tryCatch_apply {α : Type} (x : Reader α) (h : Fault → Reader α) (c : Cursor) :
    (tryCatch x h : Reader α) c = Except.tryCatch (x c) (fun e => h e c) := rfl

theorem attempt_ok {α : Type} {r : Reader α} {c c' : Cursor} {a : α} (h : r c = .ok (a, c')) :
    attempt r c = .ok (some a, c') := by
  rw [attempt, tryCatch_apply, map_apply, h]
  rfl

/-- A soft refusal puts the cursor back. -/
theorem attempt_soft {α : Type} {r : Reader α} {c : Cursor} {f : Fault} (h : r c = .error f)
    (hsoft : f.soft = true) : attempt r c = .ok (none, c) := by
  rw [attempt, tryCatch_apply, map_apply, h]
  simp [Functor.map, Except.map, Except.tryCatch, hsoft]
  rfl

theorem commit_ok {α : Type} {r : Reader α} {c : Cursor} {p : α × Cursor} (h : r c = .ok p) :
    commit r c = .ok p := by
  rw [commit, tryCatch_apply, h]
  rfl

theorem within_ok {α : Type} {r : Reader α} {label : Option String} {expected : List String} {c : Cursor}
    {p : α × Cursor} (h : r c = .ok p) : within label expected r c = .ok p := by
  rw [within, tryCatch_apply, h]
  rfl

/-- A reader wrapped to say what it reads still refuses softly where it did. -/
theorem within_soft {α : Type} {r : Reader α} {label : Option String} {expected : List String}
    {c : Cursor} {f : Fault} (h : r c = .error f) (hsoft : f.soft = true) :
    ∃ f', within label expected r c = .error f' ∧ f'.soft = true := by
  refine ⟨{ f with label := f.label.orElse fun _ => label, expected := f.expected ++ expected }, ?_, hsoft⟩
  rw [within, tryCatch_apply, h]
  rfl

end Reader

/-! ## Characters -/

/-- A character that every form of string holds as itself: a tab, or no
control character. -/
def Shown (c : Char) : Prop := c = '\t' ∨ (0x1F < c.toNat ∧ c.toNat ≠ 0x7F)

theorem char_eq_iff {c d : Char} : c = d ↔ c.toNat = d.toNat := Char.toNat_inj.symm

theorem isBasicChar_of_shown {c : Char} (hc : Shown c) (hq : c ≠ '"') (hb : c ≠ '\\') :
    isBasicChar c = true := by
  simp only [ne_eq, char_eq_iff, Char.reduceToNat] at hq hb
  rcases hc with rfl | ⟨h1, h2⟩
  · rfl
  · simp only [isBasicChar, isBlankChar, isWide, char_le_iff, Bool.or_eq_true, decide_eq_true_eq,
      Bool.and_eq_true, char_eq_iff, Char.reduceToNat]
    omega

theorem isLiteralChar_of_shown {c : Char} (hc : Shown c) (hq : c ≠ '\'') : isLiteralChar c = true := by
  simp only [ne_eq, char_eq_iff, Char.reduceToNat] at hq
  rcases hc with rfl | ⟨h1, h2⟩
  · rfl
  · simp only [isLiteralChar, isWide, char_le_iff, Bool.or_eq_true, decide_eq_true_eq,
      Bool.and_eq_true, char_eq_iff, Char.reduceToNat]
    omega

/-- A character of a basic string that stands for itself is no quote, no
backslash and no line break. -/
theorem ne_of_isBasicChar {c : Char} (h : isBasicChar c = true) :
    c ≠ '"' ∧ c ≠ '\\' ∧ c ≠ '\n' ∧ c ≠ '\r' := by
  simp only [ne_eq, char_eq_iff, Char.reduceToNat]
  simp only [isBasicChar, isBlankChar, isWide, char_le_iff, Bool.or_eq_true, decide_eq_true_eq,
    Bool.and_eq_true, char_eq_iff, Char.reduceToNat] at h
  omega

theorem ne_of_isLiteralChar {c : Char} (h : isLiteralChar c = true) :
    c ≠ '\'' ∧ c ≠ '\n' ∧ c ≠ '\r' := by
  simp only [ne_eq, char_eq_iff, Char.reduceToNat]
  simp only [isLiteralChar, isWide, char_le_iff, Bool.or_eq_true, decide_eq_true_eq,
    Bool.and_eq_true, char_eq_iff, Char.reduceToNat] at h
  omega

/-! ## The shape of a string -/

/-- One step of `longestRun`: the longest run so far and the current one. -/
def runStep (q : Char) (acc : Nat × Nat) (c : Char) : Nat × Nat :=
  if c = q then (max acc.1 (acc.2 + 1), acc.2 + 1) else (acc.1, 0)

theorem longestRun_eq (q : Char) (cs : List Char) : longestRun q cs = (cs.foldl (runStep q) (0, 0)).1 :=
  rfl

theorem le_foldl_runStep (q : Char) (cs : List Char) (acc : Nat × Nat) :
    acc.1 ≤ (cs.foldl (runStep q) acc).1 := by
  induction cs generalizing acc with
  | nil => exact le_rfl
  | cons c cs ih =>
    refine le_trans ?_ (ih _)
    unfold runStep
    split <;> simp

/-- The current run never passes the longest one. -/
theorem foldl_runStep_run_le (q : Char) (cs : List Char) (acc : Nat × Nat) (h : acc.2 ≤ acc.1) :
    (cs.foldl (runStep q) acc).2 ≤ (cs.foldl (runStep q) acc).1 := by
  induction cs generalizing acc with
  | nil => exact h
  | cons c cs ih =>
    apply ih
    unfold runStep
    split <;> simp

theorem foldl_runStep_replicate (q : Char) (n : Nat) (acc : Nat × Nat) (h : acc.2 ≤ acc.1) :
    ((List.replicate n q).foldl (runStep q) acc).1 = max acc.1 (acc.2 + n) := by
  induction n generalizing acc with
  | zero => simp [h]
  | succ n ih =>
    have hstep : runStep q acc q = (max acc.1 (acc.2 + 1), acc.2 + 1) := if_pos rfl
    rw [List.replicate_succ, List.foldl_cons, hstep, ih _ (by simp)]
    omega

/-- A run of `n` quotes inside a text makes its longest run at least `n`. -/
theorem le_longestRun_of_infix {q : Char} {n : Nat} {cs : List Char} (h : List.replicate n q <:+: cs) :
    n ≤ longestRun q cs := by
  obtain ⟨pre, post, rfl⟩ := h
  rw [longestRun_eq, List.foldl_append, List.foldl_append]
  have hinv := foldl_runStep_run_le q pre (0, 0) le_rfl
  have hrep := foldl_runStep_replicate q n (pre.foldl (runStep q) (0, 0)) hinv
  refine le_trans ?_ (le_foldl_runStep q post _)
  rw [hrep]
  omega

theorem not_mem_of_longestRun {q : Char} {cs : List Char} (h : longestRun q cs = 0) : q ∉ cs := by
  intro hq
  have := le_longestRun_of_infix (n := 1) ((List.singleton_infix_iff q cs).2 hq)
  omega

theorem no_triple_of_longestRun {q : Char} {cs : List Char} (h : longestRun q cs ≤ 2) :
    ¬ [q, q, q] <:+: cs := fun hq => by
  have := le_longestRun_of_infix (n := 3) hq
  omega

theorem shown_of_control {s : String} (h : (StringShape.of s).control = false) :
    ∀ c ∈ s.toList, c = '\n' ∨ Shown c := by
  intro c hc
  simp only [StringShape.of, List.any_eq_false, Bool.and_eq_true, bne_iff_ne, ne_eq,
    Bool.or_eq_true, decide_eq_true_eq, not_and, not_or] at h
  by_cases ht : c = '\t'
  · exact .inr (.inl ht)
  · by_cases hn : c = '\n'
    · exact .inl hn
    · have := h c hc ⟨ht, hn⟩
      exact .inr (.inr ⟨by omega, this.2⟩)

theorem not_mem_of_backslash {s : String} (h : (StringShape.of s).backslash = false) : '\\' ∉ s.toList := by
  simpa [StringShape.of] using h

theorem not_mem_of_newline {s : String} (h : (StringShape.of s).newline = false) : '\n' ∉ s.toList := by
  simpa [StringShape.of] using h


namespace Reader

/-! ## Steps of the string readers -/

theorem bump_cons (x : Char) (r : List Char) (off : Nat) :
    bump ⟨x :: r, off⟩ = .ok ((), ⟨r, off + x.utf8Size⟩) := rfl

theorem startsWith_apply (p : String) (c : Cursor) :
    startsWith p c = .ok (p.toList.isPrefixOf c.rest, c) := rfl

/-- The basic string closes at its quote. -/
theorem basicBody_close (fuel : Nat) (acc t : List Char) (off : Nat) :
    basicBody (fuel + 1) acc ⟨'"' :: t, off⟩ = .ok (String.ofList acc.reverse, ⟨t, off + 1⟩) := rfl

theorem basicBody_char {c : Char} (hc : isBasicChar c = true) (fuel : Nat) (acc r : List Char) (off : Nat) :
    basicBody (fuel + 1) acc ⟨c :: r, off⟩ = basicBody fuel (c :: acc) ⟨r, off + c.utf8Size⟩ := by
  obtain ⟨hq, hb, -, -⟩ := ne_of_isBasicChar hc
  rw [basicBody]
  simp only [ahead, bind_apply, get_apply, ok_bind, pure_apply]
  generalize hcs : c :: r = cs
  split <;> simp_all [bump_cons, bind_apply, ok_bind]

theorem basicBody_escape {e x : Char} {r : List Char} {off : Nat} {cur : Cursor}
    (he : escape ⟨e :: r, off + 1⟩ = .ok (x, cur)) (fuel : Nat) (acc : List Char) :
    basicBody (fuel + 1) acc ⟨'\\' :: e :: r, off⟩ = basicBody fuel (x :: acc) cur := by
  have h1 : '\\'.utf8Size = 1 := rfl
  simp only [basicBody, ahead, bind_apply, get_apply, ok_bind, pure_apply, bump_cons, h1, he]

theorem mlBasicBody_newline (fuel : Nat) (acc r : List Char) (off : Nat) :
    mlBasicBody (fuel + 1) acc ⟨'\n' :: r, off⟩ = mlBasicBody fuel ('\n' :: acc) ⟨r, off + 1⟩ := rfl

theorem mlBasicBody_char {c : Char} (hc : isBasicChar c = true) (fuel : Nat) (acc r : List Char)
    (off : Nat) :
    mlBasicBody (fuel + 1) acc ⟨c :: r, off⟩ = mlBasicBody fuel (c :: acc) ⟨r, off + c.utf8Size⟩ := by
  obtain ⟨hq, hb, hn, hr⟩ := ne_of_isBasicChar hc
  rw [mlBasicBody]
  simp only [ahead, bind_apply, get_apply, ok_bind, pure_apply]
  generalize hcs : c :: r = cs
  split <;> simp_all [bump_cons, bind_apply, ok_bind]

/-- An escape after a backslash: the character after the backslash is no
blank and no line break, so the backslash does not end the line. -/
theorem mlBasicBody_escape {e x : Char} {r : List Char} {off : Nat} {cur : Cursor}
    (hblank : isBlankChar e = false) (hn : e ≠ '\n') (hr : e ≠ '\r')
    (he : escape ⟨e :: r, off + 1⟩ = .ok (x, cur)) (fuel : Nat) (acc : List Char) :
    mlBasicBody (fuel + 1) acc ⟨'\\' :: e :: r, off⟩ = mlBasicBody fuel (x :: acc) cur := by
  have hdrop : (e :: r).dropWhile isBlankChar = e :: r := by simp [hblank]
  simp only [mlBasicBody, ahead, bind_apply, get_apply, ok_bind, pure_apply, hdrop]
  generalize hd : e :: r = d
  split
  · simp_all
  · simp_all
  · subst hd
    have h1 : '\\'.utf8Size = 1 := rfl
    simp [bump_cons, bind_apply, ok_bind, h1, he]

theorem mlBasicBody_quotes {cs : List Char} {qs : List Char} {closed : Bool} {off : Nat} {cur : Cursor}
    (hhead : cs.head? = some '"')
    (hq : quoteRun '"' "multiline basic string" ⟨cs, off⟩ = .ok ((qs, closed), cur))
    (fuel : Nat) (acc : List Char) :
    mlBasicBody (fuel + 1) acc ⟨cs, off⟩ =
      if closed then .ok (String.ofList (acc.reverse ++ qs), cur)
      else mlBasicBody fuel (qs.reverse ++ acc) cur := by
  obtain ⟨t, rfl⟩ : ∃ t, cs = '"' :: t := by
    cases cs with
    | nil => simp at hhead
    | cons x t => simp at hhead; exact ⟨t, by rw [hhead]⟩
  rw [mlBasicBody]
  simp only [ahead, bind_apply, get_apply, ok_bind, pure_apply, hq]
  cases closed <;> rfl

theorem mlLiteralBody_newline (fuel : Nat) (acc r : List Char) (off : Nat) :
    mlLiteralBody (fuel + 1) acc ⟨'\n' :: r, off⟩ = mlLiteralBody fuel ('\n' :: acc) ⟨r, off + 1⟩ := rfl

theorem mlLiteralBody_char {c : Char} (hc : isLiteralChar c = true) (fuel : Nat) (acc r : List Char)
    (off : Nat) :
    mlLiteralBody (fuel + 1) acc ⟨c :: r, off⟩ = mlLiteralBody fuel (c :: acc) ⟨r, off + c.utf8Size⟩ := by
  obtain ⟨hq, hn, hr⟩ := ne_of_isLiteralChar hc
  rw [mlLiteralBody]
  simp only [ahead, bind_apply, get_apply, ok_bind, pure_apply]
  generalize hcs : c :: r = cs
  split <;> simp_all [bump_cons, bind_apply, ok_bind]

theorem mlLiteralBody_quotes {cs : List Char} {qs : List Char} {closed : Bool} {off : Nat} {cur : Cursor}
    (hhead : cs.head? = some '\'')
    (hq : quoteRun '\'' "multiline literal string" ⟨cs, off⟩ = .ok ((qs, closed), cur))
    (fuel : Nat) (acc : List Char) :
    mlLiteralBody (fuel + 1) acc ⟨cs, off⟩ =
      if closed then .ok (String.ofList (acc.reverse ++ qs), cur)
      else mlLiteralBody fuel (qs.reverse ++ acc) cur := by
  obtain ⟨t, rfl⟩ : ∃ t, cs = '\'' :: t := by
    cases cs with
    | nil => simp at hhead
    | cons x t => simp at hhead; exact ⟨t, by rw [hhead]⟩
  rw [mlLiteralBody]
  simp only [ahead, bind_apply, get_apply, ok_bind, pure_apply, hq]
  cases closed <;> rfl

theorem takeWhile_eq_replicate {q x : Char} (n : Nat) (r : List Char) (hx : x ≠ q) :
    (List.replicate n q ++ x :: r).takeWhile (· = q) = List.replicate n q := by
  rw [List.takeWhile_append_of_pos (by simp)]
  simp [hx]

/-- Fewer than three quotes inside a multi-line string are text. -/
theorem quoteRun_text {q x : Char} {n : Nat} (hn : n < 3) (hx : x ≠ q) (label : String) (r : List Char)
    (off : Nat) :
    ∃ off', quoteRun q label ⟨List.replicate n q ++ x :: r, off⟩ =
      .ok ((List.replicate n q, false), ⟨x :: r, off'⟩) := by
  have hlen : (List.replicate n q ++ x :: r).length ≠ n := by simp
  simp only [quoteRun, ahead, bind_apply, get_apply, ok_bind, takeWhile_eq_replicate n r hx,
    List.length_replicate, if_pos hn, if_neg hlen, skip, modify_apply, pure_apply,
    List.drop_left' (List.length_replicate ..)]
  exact ⟨_, rfl⟩

/-- Three to five quotes close a multi-line string; those before the last
three are its last characters. -/
theorem quoteRun_close {q x : Char} {n : Nat} (hn : n ≤ 2) (hx : x ≠ q) (label : String) (r : List Char)
    (off : Nat) :
    ∃ off', quoteRun q label ⟨List.replicate (n + 3) q ++ x :: r, off⟩ =
      .ok ((List.replicate n q, true), ⟨x :: r, off'⟩) := by
  have hextra : min (n + 3 - 3) 2 = n := by omega
  simp only [quoteRun, ahead, bind_apply, get_apply, ok_bind, takeWhile_eq_replicate (n + 3) r hx,
    List.length_replicate, if_neg (show ¬ n + 3 < 3 by omega), skip, modify_apply, pure_apply,
    hextra, List.drop_left' (List.length_replicate ..)]
  exact ⟨_, rfl⟩

end Reader


/-! ## Escapes -/

/-- The hexadecimal digit that `hex4` writes for `d`. -/
def hexChar (d : Nat) : Char := if d < 10 then Char.ofNat (48 + d) else Char.ofNat (55 + d)

theorem hex4_toList (n : Nat) :
    (hex4 n).toList = [hexChar (n / 4096 % 16), hexChar (n / 256 % 16), hexChar (n / 16 % 16), hexChar (n % 16)] := by
  simp [hex4, hexChar]

theorem toNat_hexChar {d : Nat} (h : d < 16) : (hexChar d).toNat = if d < 10 then 48 + d else 55 + d := by
  unfold hexChar
  split_ifs <;> exact toNat_charOfNat (by omega)

theorem hexValue?_hexChar {d : Nat} (h : d < 16) : hexValue? (hexChar d) = some d := by
  have hd := toNat_hexChar h
  unfold hexValue?
  simp only [Char.isDigit, char_le_iff, UInt32.le_iff_toNat_le, Char.toNat_val, hd, Char.reduceToNat,
    Bool.and_eq_true, decide_eq_true_eq, ge_iff_le, Char.reduceVal, UInt32.reduceToNat]
  split_ifs <;> first | omega | (congr 1; omega)

namespace Reader

theorem escape_u (rest : List Char) (off : Nat) :
    escape ⟨'u' :: rest, off⟩ = hexEscape 4 "unicode 4-digit hex code" ⟨rest, off + 1⟩ := rfl

/-- Four hexadecimal digits of a character below 128 read as that character. -/
theorem hexEscape_hex4 {n : Nat} (hn : n < 128) (label : String) (r : List Char) (off : Nat) :
    ∃ off', hexEscape 4 label ⟨(hex4 n).toList ++ r, off⟩ = .ok (Char.ofNat n, ⟨r, off'⟩) := by
  have h1 : n / 4096 % 16 < 16 := by omega
  have h2 : n / 256 % 16 < 16 := by omega
  have h3 : n / 16 % 16 < 16 := by omega
  have h4 : n % 16 < 16 := by omega
  have hdigits : ((hex4 n).toList ++ r).takeWhile (fun c => (hexValue? c).isSome) =
      (hex4 n).toList ++ r.takeWhile (fun c => (hexValue? c).isSome) := by
    rw [List.takeWhile_append_of_pos]
    simp [hex4_toList, hexValue?_hexChar, h1, h2, h3, h4]
  have hvalue : (((hex4 n).toList.foldl (fun acc c => acc * 16 + (hexValue? c).getD 0) 0)) = n := by
    simp only [hex4_toList, List.foldl, hexValue?_hexChar h1, hexValue?_hexChar h2,
      hexValue?_hexChar h3, hexValue?_hexChar h4, Option.getD_some]
    omega
  have hlen : (hex4 n).toList.length = 4 := by simp [hex4_toList]
  have hrange : (decide (n < 55296) || decide (57343 < n) && decide (n < 1114112)) = true := by
    simp only [Bool.or_eq_true, decide_eq_true_eq, Bool.and_eq_true]
    omega
  simp only [hexEscape, offset, ahead, bind_apply, get_apply, ok_bind, pure_apply, hdigits,
    List.take_left' hlen, hlen, Nat.lt_irrefl, if_false, hvalue, hrange, if_true, skip,
    modify_apply, List.drop_left' hlen]
  exact ⟨_, rfl⟩

/-- The escape `\uXXXX` of a character below 128 reads as that character. -/
theorem escape_unicode {n : Nat} (hn : n < 128) (r : List Char) (off : Nat) :
    ∃ off', escape ⟨'u' :: ((hex4 n).toList ++ r), off⟩ = .ok (Char.ofNat n, ⟨r, off'⟩) := by
  rw [escape_u]
  exact hexEscape_hex4 hn _ r (off + 1)

/-- One character of an escaped basic string is read back in one step. -/
theorem basicBody_escapeChar (c : Char) (fuel : Nat) (acc r : List Char) (off : Nat) :
    ∃ off', basicBody (fuel + 1) acc ⟨(escapeChar false c).toList ++ r, off⟩ =
      basicBody fuel (c :: acc) ⟨r, off'⟩ := by
  unfold escapeChar
  split
  · exact ⟨_, basicBody_escape rfl fuel acc⟩
  · exact ⟨_, basicBody_escape rfl fuel acc⟩
  · exact ⟨_, basicBody_escape rfl fuel acc⟩
  · exact ⟨_, basicBody_escape rfl fuel acc⟩
  · exact ⟨_, basicBody_escape rfl fuel acc⟩
  · exact ⟨_, basicBody_escape rfl fuel acc⟩
  · exact ⟨_, basicBody_escape rfl fuel acc⟩
  · rename_i hb ht hn hf hr hq hs
    split_ifs with hcontrol
    · -- another control character: its `\u` escape
      have hlt : c.toNat < 128 := by simp at hcontrol; omega
      obtain ⟨off', he⟩ := escape_unicode hlt r (off + 1)
      rw [Char.ofNat_toNat] at he
      have htext : ("\\u" ++ hex4 c.toNat).toList ++ r = '\\' :: 'u' :: ((hex4 c.toNat).toList ++ r) := by
        simp [String.toList_append]
      rw [htext]
      exact ⟨_, basicBody_escape he fuel acc⟩
    · -- a character that stands for itself
      have hshown : Shown c := .inr (by simp at hcontrol; omega)
      rw [show c.toString.toList = [c] by simp, List.singleton_append,
        basicBody_char (isBasicChar_of_shown hshown hq hs)]
      exact ⟨_, rfl⟩

/-- One character of an escaped multi-line string is read back in one step;
a line break stays one. -/
theorem mlBasicBody_escapeChar (c : Char) (fuel : Nat) (acc r : List Char) (off : Nat) :
    ∃ off', mlBasicBody (fuel + 1) acc ⟨(escapeChar true c).toList ++ r, off⟩ =
      mlBasicBody fuel (c :: acc) ⟨r, off'⟩ := by
  unfold escapeChar
  split
  · exact ⟨_, mlBasicBody_escape rfl (by decide) (by decide) rfl fuel acc⟩
  · exact ⟨_, mlBasicBody_escape rfl (by decide) (by decide) rfl fuel acc⟩
  · exact ⟨_, mlBasicBody_newline fuel acc r off⟩
  · exact ⟨_, mlBasicBody_escape rfl (by decide) (by decide) rfl fuel acc⟩
  · exact ⟨_, mlBasicBody_escape rfl (by decide) (by decide) rfl fuel acc⟩
  · exact ⟨_, mlBasicBody_escape rfl (by decide) (by decide) rfl fuel acc⟩
  · exact ⟨_, mlBasicBody_escape rfl (by decide) (by decide) rfl fuel acc⟩
  · rename_i hb ht hn hf hr hq hs
    split_ifs with hcontrol
    · have hlt : c.toNat < 128 := by simp at hcontrol; omega
      obtain ⟨off', he⟩ := escape_unicode hlt r (off + 1)
      rw [Char.ofNat_toNat] at he
      have htext : ("\\u" ++ hex4 c.toNat).toList ++ r = '\\' :: 'u' :: ((hex4 c.toNat).toList ++ r) := by
        simp [String.toList_append]
      rw [htext]
      exact ⟨_, mlBasicBody_escape rfl (by decide) (by decide) he fuel acc⟩
    · have hshown : Shown c := .inr (by simp at hcontrol; omega)
      rw [show c.toString.toList = [c] by simp, List.singleton_append,
        mlBasicBody_char (isBasicChar_of_shown hshown hq hs)]
      exact ⟨_, rfl⟩

end Reader


namespace Reader

/-! ## String bodies

Each body reader is driven by fuel, one unit per character or run of quotes
read, so a fuel above the length of the text is always enough. -/

theorem basicBody_plain (cs : List Char) (hcs : ∀ c ∈ cs, isBasicChar c = true) :
    ∀ (acc t : List Char) (fuel off : Nat), cs.length < fuel →
      ∃ off', basicBody fuel acc ⟨cs ++ '"' :: t, off⟩ = .ok (String.ofList (acc.reverse ++ cs), ⟨t, off'⟩) := by
  induction cs with
  | nil =>
    intro acc t fuel off hfuel
    obtain ⟨fuel, rfl⟩ : ∃ f, fuel = f + 1 := ⟨fuel - 1, by simp at hfuel; omega⟩
    exact ⟨_, by simpa using basicBody_close _ acc t off⟩
  | cons c cs ih =>
    intro acc t fuel off hfuel
    obtain ⟨fuel, rfl⟩ : ∃ f, fuel = f + 1 := ⟨fuel - 1, by simp at hfuel; omega⟩
    have hc : isBasicChar c = true := hcs c List.mem_cons_self
    obtain ⟨off', h⟩ := ih (fun x hx => hcs x (List.mem_cons_of_mem c hx)) (c :: acc) t fuel
      (off + c.utf8Size) (by simp at hfuel; omega)
    refine ⟨off', ?_⟩
    rw [List.cons_append, basicBody_char hc, h]
    simp

theorem basicBody_escaped (cs : List Char) :
    ∀ (acc t : List Char) (fuel off : Nat), cs.length < fuel →
      ∃ off', basicBody fuel acc ⟨cs.flatMap (fun c => (escapeChar false c).toList) ++ '"' :: t, off⟩ =
        .ok (String.ofList (acc.reverse ++ cs), ⟨t, off'⟩) := by
  induction cs with
  | nil =>
    intro acc t fuel off hfuel
    obtain ⟨fuel, rfl⟩ : ∃ f, fuel = f + 1 := ⟨fuel - 1, by simp at hfuel; omega⟩
    exact ⟨_, by simpa using basicBody_close _ acc t off⟩
  | cons c cs ih =>
    intro acc t fuel off hfuel
    obtain ⟨fuel, rfl⟩ : ∃ f, fuel = f + 1 := ⟨fuel - 1, by simp at hfuel; omega⟩
    obtain ⟨off1, h1⟩ := basicBody_escapeChar c fuel acc
      (cs.flatMap (fun c => (escapeChar false c).toList) ++ '"' :: t) off
    obtain ⟨off', h⟩ := ih (c :: acc) t fuel off1 (by simp at hfuel; omega)
    refine ⟨off', ?_⟩
    rw [List.flatMap_cons, List.append_assoc, h1, h]
    simp

/-- A text splits into its leading run of a character and the rest. -/
theorem exists_run (q : Char) (cs : List Char) :
    ∃ n rest, cs = List.replicate n q ++ rest ∧ ∀ x ∈ rest.head?, x ≠ q := by
  refine ⟨(cs.takeWhile (· = q)).length, cs.dropWhile (· = q), ?_, ?_⟩
  · conv_lhs => rw [← List.takeWhile_append_dropWhile (p := (· = q)) (l := cs)]
    congr 1
    exact List.eq_replicate_iff.2 ⟨rfl, fun x hx => by simpa using List.mem_takeWhile_imp hx⟩
  · intro x hx
    have := List.head?_dropWhile_not (fun c => decide (c = q)) cs
    rw [hx] at this
    simpa using this

/-! ### Multi-line bodies

The two multi-line body readers take line breaks, characters of their class
and runs of quotes the same way, so one argument reads both back. -/

section MultiLine

variable (body : Nat → List Char → Reader String) (q : Char) (isChar : Char → Bool) (label : String)

/-- What a multi-line string holds without escapes: line breaks, quotes, and
characters of its class, with no three quotes in a row. -/
def MlText (cs : List Char) : Prop :=
  (∀ c ∈ cs, c = '\n' ∨ c = q ∨ isChar c = true) ∧ ¬ [q, q, q] <:+: cs

variable {q isChar} in
theorem MlText.of_infix {cs ds : List Char} (h : MlText q isChar cs) (hds : ds <:+: cs) :
    MlText q isChar ds :=
  ⟨fun c hc => h.1 c (hds.subset hc), fun h3 => h.2 (h3.trans hds)⟩

variable
  (hnewline : ∀ fuel acc r off, body (fuel + 1) acc ⟨'\n' :: r, off⟩ = body fuel ('\n' :: acc) ⟨r, off + 1⟩)
  (hchar : ∀ c, isChar c = true → ∀ fuel acc r off,
    body (fuel + 1) acc ⟨c :: r, off⟩ = body fuel (c :: acc) ⟨r, off + c.utf8Size⟩)
  (hquotes : ∀ {cs qs : List Char} {closed : Bool} {off : Nat} {cur : Cursor}, cs.head? = some q →
    quoteRun q label ⟨cs, off⟩ = .ok ((qs, closed), cur) → ∀ fuel acc,
      body (fuel + 1) acc ⟨cs, off⟩ =
        if closed then .ok (String.ofList (acc.reverse ++ qs), cur) else body fuel (qs.reverse ++ acc) cur)

include hquotes in
/-- The closing quotes, after none to two quotes of the string's own, before
a character that is no quote. -/
theorem mlBody_close {n : Nat} (hn : n ≤ 2) (fuel : Nat) (acc : List Char) {x : Char} (hx : x ≠ q)
    (t : List Char) (off : Nat) :
    ∃ off', body (fuel + 1) acc ⟨List.replicate n q ++ [q, q, q] ++ x :: t, off⟩ =
      .ok (String.ofList (acc.reverse ++ List.replicate n q), ⟨x :: t, off'⟩) := by
  obtain ⟨off', hrun⟩ := quoteRun_close hn hx label t off
  have htext : List.replicate n q ++ [q, q, q] ++ x :: t = List.replicate (n + 3) q ++ x :: t := by
    simp [List.replicate_add]
  refine ⟨off', ?_⟩
  rw [htext, hquotes (by rw [List.replicate_succ]; rfl) hrun]
  rfl

include hnewline hchar hquotes in
/-- A multi-line string without escapes reads back: the induction is on the
fuel, and each step reads a line break, a character, or a run of one or two
quotes, which the three-quote rule keeps short of closing. -/
theorem mlBody_plain (fuel : Nat) {y : Char} (hy : y ≠ q) :
    ∀ (cs acc t : List Char) (off : Nat), cs.length < fuel → MlText q isChar cs →
      ∃ off', body fuel acc ⟨cs ++ [q, q, q] ++ y :: t, off⟩ =
        .ok (String.ofList (acc.reverse ++ cs), ⟨y :: t, off'⟩) := by
  induction fuel with
  | zero => intro cs _ _ _ h; omega
  | succ fuel ih =>
    intro cs acc t off hfuel htext
    obtain ⟨n, rest, rfl, hrest⟩ := exists_run q cs
    have hn : n < 3 := by
      by_contra h3
      apply htext.2
      obtain ⟨m, rfl⟩ : ∃ m, n = 3 + m := ⟨n - 3, by omega⟩
      rw [List.replicate_add]
      exact ⟨[], List.replicate m q ++ rest, by simp⟩
    have hrestText : MlText q isChar rest := htext.of_infix (List.suffix_append _ _).isInfix
    rcases Nat.eq_zero_or_pos n with rfl | hpos
    · -- no quote first: a line break or a character of the class
      simp only [List.replicate_zero, List.nil_append] at hfuel htext ⊢
      match rest, hrest, htext, hfuel with
      | [], _, _, _ =>
        simpa using mlBody_close body q label hquotes (n := 0) (by omega) fuel acc hy t off
      | c :: rest', hc, htext, hfuel =>
        have hrest' : MlText q isChar rest' := htext.of_infix (List.suffix_cons c rest').isInfix
        rcases htext.1 c List.mem_cons_self with rfl | rfl | hclass
        · obtain ⟨off', h⟩ := ih rest' ('\n' :: acc) t (off + 1) (by simp at hfuel; omega) hrest'
          refine ⟨off', ?_⟩
          rw [List.cons_append, List.cons_append, hnewline, h]
          simp
        · exact absurd rfl (hc _ rfl)
        · obtain ⟨off', h⟩ := ih rest' (c :: acc) t (off + c.utf8Size) (by simp at hfuel; omega) hrest'
          refine ⟨off', ?_⟩
          rw [List.cons_append, List.cons_append, hchar c hclass, h]
          simp
    · -- a run of one or two quotes: text, or the last characters before the close
      match rest, hrest, hrestText, hfuel with
      | [], _, _, _ =>
        simpa using mlBody_close body q label hquotes (n := n) (by omega) fuel acc hy t off
      | x :: rest', hx, hrestText, hfuel =>
        obtain ⟨off1, hrun⟩ := quoteRun_text hn (hx x rfl) label (rest' ++ [q, q, q] ++ y :: t) off
        obtain ⟨off', h⟩ := ih (x :: rest') (List.replicate n q ++ acc) t off1
          (by simp at hfuel ⊢; omega) hrestText
        refine ⟨off', ?_⟩
        have hhead : (List.replicate n q ++ x :: rest' ++ [q, q, q] ++ y :: t).head? = some q := by
          obtain ⟨m, rfl⟩ := Nat.exists_eq_add_of_lt hpos
          simp [List.replicate_succ]
        rw [hquotes hhead (by simpa using hrun), if_neg (by decide), List.reverse_replicate]
        simpa using h

end MultiLine

theorem mlBasicBody_escaped (cs : List Char) {y : Char} (hy : y ≠ '"') :
    ∀ (acc t : List Char) (fuel off : Nat), cs.length < fuel →
      ∃ off', mlBasicBody fuel acc ⟨cs.flatMap (fun c => (escapeChar true c).toList) ++
          ['"', '"', '"'] ++ y :: t, off⟩ = .ok (String.ofList (acc.reverse ++ cs), ⟨y :: t, off'⟩) := by
  induction cs with
  | nil =>
    intro acc t fuel off hfuel
    obtain ⟨fuel, rfl⟩ : ∃ f, fuel = f + 1 := ⟨fuel - 1, by simp at hfuel; omega⟩
    simpa using mlBody_close mlBasicBody '"' "multiline basic string" mlBasicBody_quotes
      (n := 0) (by omega) _ acc hy t off
  | cons c cs ih =>
    intro acc t fuel off hfuel
    obtain ⟨fuel, rfl⟩ : ∃ f, fuel = f + 1 := ⟨fuel - 1, by simp at hfuel; omega⟩
    obtain ⟨off1, h1⟩ := mlBasicBody_escapeChar c fuel acc
      (cs.flatMap (fun c => (escapeChar true c).toList) ++ ['"', '"', '"'] ++ y :: t) off
    obtain ⟨off', h⟩ := ih (c :: acc) t fuel off1 (by simp at hfuel; omega)
    have htext : (c :: cs).flatMap (fun c => (escapeChar true c).toList) ++ ['"', '"', '"'] ++ y :: t =
        (escapeChar true c).toList ++
          (cs.flatMap (fun c => (escapeChar true c).toList) ++ ['"', '"', '"'] ++ y :: t) := by
      simp
    refine ⟨off', ?_⟩
    rw [htext, h1, h]
    simp

end Reader

namespace Reader

theorem literalBody_plain {cs : List Char} (hcs : ∀ c ∈ cs, isLiteralChar c = true) (t : List Char)
    (off : Nat) : ∃ off', literalBody ⟨cs ++ '\'' :: t, off⟩ = .ok (String.ofList cs, ⟨t, off'⟩) := by
  have htake : (cs ++ '\'' :: t).takeWhile isLiteralChar = cs := by
    rw [List.takeWhile_append_of_pos hcs]
    simp [show isLiteralChar '\'' = false by decide]
  simp only [literalBody, takeWhile, peek, bind_apply, get_apply, ok_bind, pure_apply, htake,
    List.drop_left]
  exact ⟨_, rfl⟩

/-! ## The four openings of a string -/

theorem string_basic {rest : List Char} (h : ¬ ['"', '"'] <+: rest) (off : Nat) :
    string ⟨'"' :: rest, off⟩ = basicBody (rest.length + 2) [] ⟨rest, off + 1⟩ := by
  have h3 : ("\"\"\"".toList.isPrefixOf ('"' :: rest)) = false := by
    rw [show "\"\"\"".toList = ['"', '"', '"'] from rfl, List.isPrefixOf_cons_cons_self]
    exact Bool.eq_false_iff.2 fun hp => h (List.isPrefixOf_iff_prefix.1 hp)
  have h1 : ("\"".toList.isPrefixOf ('"' :: rest)) = true := by
    rw [show "\"".toList = ['"'] from rfl]
    simp
  simp only [string, ahead, startsWith_apply, bind_apply, get_apply, ok_bind, pure_apply, h3, h1,
    if_true, Bool.false_eq_true, if_false, bump_cons, List.length_cons]
  rfl

theorem string_mlBasic (rest : List Char) (off : Nat) :
    string ⟨'"' :: '"' :: '"' :: '\n' :: rest, off⟩ = mlBasicBody (rest.length + 5) [] ⟨rest, off + 4⟩ := by
  rfl

theorem string_mlLiteral (rest : List Char) (off : Nat) :
    string ⟨'\'' :: '\'' :: '\'' :: '\n' :: rest, off⟩ = mlLiteralBody (rest.length + 5) [] ⟨rest, off + 4⟩ := by
  rfl

theorem string_literal {rest : List Char} (h : ¬ ['\'', '\''] <+: rest) (off : Nat) :
    string ⟨'\'' :: rest, off⟩ = literalBody ⟨rest, off + 1⟩ := by
  have h3 : ("'''".toList.isPrefixOf ('\'' :: rest)) = false := by
    rw [show "'''".toList = ['\'', '\'', '\''] from rfl, List.isPrefixOf_cons_cons_self]
    exact Bool.eq_false_iff.2 fun hp => h (List.isPrefixOf_iff_prefix.1 hp)
  have h0 : "\"\"\"".toList.isPrefixOf ('\'' :: rest) = false := rfl
  have h1 : "\"".toList.isPrefixOf ('\'' :: rest) = false := rfl
  simp only [string, ahead, startsWith_apply, bind_apply, get_apply, ok_bind, pure_apply, h0, h1, h3,
    Bool.false_eq_true, if_false, bump_cons]
  rfl

end Reader

namespace Reader

/-! ## Strings -/

theorem escapeChar_head (multiline : Bool) (c : Char) :
    ∃ x r, (escapeChar multiline c).toList = x :: r ∧ x ≠ '"' := by
  unfold escapeChar
  split
  any_goals exact ⟨_, _, rfl, by decide⟩
  · split <;> exact ⟨_, _, rfl, by decide⟩
  · rename_i hq _
    split
    · exact ⟨'\\', 'u' :: (hex4 c.toNat).toList, by simp [String.toList_append], by decide⟩
    · exact ⟨c, [], by simp, hq⟩

theorem length_le_flatMap_escapeChar (multiline : Bool) (cs : List Char) :
    cs.length ≤ (cs.flatMap fun c => (escapeChar multiline c).toList).length := by
  induction cs with
  | nil => simp
  | cons c cs ih =>
    obtain ⟨x, r, hx, -⟩ := escapeChar_head multiline c
    rw [List.flatMap_cons, List.length_append, hx, List.length_cons, List.length_cons]
    omega

/-- Two quotes cannot open a text whose first character is no quote, nor
the closing quote followed by no quote. -/
theorem not_double_opening {q : Char} {l r : List Char} (hl : ∀ x ∈ l.head?, x ≠ q)
    (hr : ∀ x ∈ r.head?, x ≠ q) : ¬ [q, q] <+: l ++ q :: r := by
  intro h
  cases l with
  | nil =>
    cases r with
    | nil => simpa using h.length_le
    | cons y r =>
      have := List.cons_prefix_cons.1 (List.cons_prefix_cons.1 h).2
      exact hr y rfl this.1.symm
  | cons y l => exact hl y rfl (List.cons_prefix_cons.1 h).1.symm

theorem head_flatMap_escapeChar (multiline : Bool) (cs : List Char) :
    ∀ x ∈ (cs.flatMap fun c => (escapeChar multiline c).toList).head?, x ≠ '"' := by
  cases cs with
  | nil => simp
  | cons c cs =>
    obtain ⟨x, r, hx, hne⟩ := escapeChar_head multiline c
    simp [List.flatMap_cons, hx, hne]

/-- A string written in any of its forms is read back as itself. -/
theorem string_quoteString (s : String) {y : Char} (hy : y ≠ '"' ∧ y ≠ '\'') (t : List Char) (off : Nat) :
    ∃ off', string ⟨(quoteString s).toList ++ y :: t, off⟩ = .ok (s, ⟨y :: t, off'⟩) := by
  have hs : String.ofList s.toList = s := String.ofList_toList
  have hshown := shown_of_control (s := s)
  dsimp only [quoteString]
  split_ifs with h1 h2 h3 h4 h5
  · -- a basic string: characters that stand for themselves
    simp only [Bool.and_eq_true, Bool.not_eq_true', decide_eq_true_eq] at h1
    obtain ⟨⟨⟨hc, hb⟩, hd⟩, hn⟩ := h1
    have hq : '"' ∉ s.toList := not_mem_of_longestRun hd
    have hchars : ∀ c ∈ s.toList, isBasicChar c = true := fun c hmem =>
      (hshown hc c hmem).elim (fun h => absurd (h ▸ hmem) (not_mem_of_newline hn))
        fun h => isBasicChar_of_shown h (fun e => hq (e ▸ hmem)) (fun e => not_mem_of_backslash hb (e ▸ hmem))
    have htext : ("\"" ++ s ++ "\"").toList ++ y :: t = '"' :: (s.toList ++ '"' :: y :: t) := by
      simp [String.toList_append]
    have hhead : ∀ x ∈ s.toList.head?, x ≠ '"' := fun x hx e => hq (e ▸ List.mem_of_mem_head? hx)
    obtain ⟨off', h⟩ := basicBody_plain s.toList hchars [] (y :: t)
      ((s.toList ++ '"' :: y :: t).length + 2) (off + 1) (by simp; omega)
    refine ⟨off', ?_⟩
    rw [htext, string_basic (not_double_opening hhead (by simpa using hy.1)), h]
    simp [hs]
  · -- a literal string
    simp only [Bool.and_eq_true, Bool.not_eq_true', decide_eq_true_eq] at h2
    obtain ⟨⟨hc, hsingle⟩, hn⟩ := h2
    have hq : '\'' ∉ s.toList := not_mem_of_longestRun hsingle
    have hchars : ∀ c ∈ s.toList, isLiteralChar c = true := fun c hmem =>
      (hshown hc c hmem).elim (fun h => absurd (h ▸ hmem) (not_mem_of_newline hn))
        fun h => isLiteralChar_of_shown h (fun e => hq (e ▸ hmem))
    have htext : ("'" ++ s ++ "'").toList ++ y :: t = '\'' :: (s.toList ++ '\'' :: y :: t) := by
      simp [String.toList_append]
    have hhead : ∀ x ∈ s.toList.head?, x ≠ '\'' := fun x hx e => hq (e ▸ List.mem_of_mem_head? hx)
    obtain ⟨off', h⟩ := literalBody_plain hchars (y :: t) (off + 1)
    refine ⟨off', ?_⟩
    rw [htext, string_literal (not_double_opening hhead (by simpa using hy.2)), h, hs]
  · -- a multi-line basic string without escapes
    simp only [Bool.and_eq_true, Bool.not_eq_true', decide_eq_true_eq] at h3
    obtain ⟨⟨hc, hb⟩, hd⟩ := h3
    have hml : MlText '"' isBasicChar s.toList := by
      refine ⟨fun c hmem => ?_, no_triple_of_longestRun hd⟩
      rcases hshown hc c hmem with h | h
      · exact .inl h
      · by_cases hq : c = '"'
        · exact .inr (.inl hq)
        · exact .inr (.inr (isBasicChar_of_shown h hq fun e => not_mem_of_backslash hb (e ▸ hmem)))
    have htext : ("\"\"\"\n" ++ s ++ "\"\"\"").toList ++ y :: t =
        '"' :: '"' :: '"' :: '\n' :: (s.toList ++ ['"', '"', '"'] ++ y :: t) := by
      simp [String.toList_append]
    obtain ⟨off', h⟩ := mlBody_plain mlBasicBody '"' isBasicChar "multiline basic string"
      mlBasicBody_newline (fun c hc => mlBasicBody_char hc) mlBasicBody_quotes
      ((s.toList ++ ['"', '"', '"'] ++ y :: t).length + 5) hy.1 s.toList [] t (off + 4) (by simp; omega) hml
    refine ⟨off', ?_⟩
    rw [htext, string_mlBasic, h]
    simp [hs]
  · -- a multi-line literal string
    simp only [Bool.and_eq_true, Bool.not_eq_true', decide_eq_true_eq] at h4
    obtain ⟨hc, hsingle⟩ := h4
    have hml : MlText '\'' isLiteralChar s.toList := by
      refine ⟨fun c hmem => ?_, no_triple_of_longestRun hsingle⟩
      rcases hshown hc c hmem with h | h
      · exact .inl h
      · by_cases hq : c = '\''
        · exact .inr (.inl hq)
        · exact .inr (.inr (isLiteralChar_of_shown h hq))
    have htext : ("'''\n" ++ s ++ "'''").toList ++ y :: t =
        '\'' :: '\'' :: '\'' :: '\n' :: (s.toList ++ ['\'', '\'', '\''] ++ y :: t) := by
      simp [String.toList_append]
    obtain ⟨off', h⟩ := mlBody_plain mlLiteralBody '\'' isLiteralChar "multiline literal string"
      mlLiteralBody_newline (fun c hc => mlLiteralBody_char hc) mlLiteralBody_quotes
      ((s.toList ++ ['\'', '\'', '\''] ++ y :: t).length + 5) hy.2 s.toList [] t (off + 4) (by simp; omega) hml
    refine ⟨off', ?_⟩
    rw [htext, string_mlLiteral, h]
    simp [hs]
  · -- an escaped multi-line string
    have htext : ("\"\"\"\n" ++ String.join (s.toList.map (escapeChar true)) ++ "\"\"\"").toList ++ y :: t =
        '"' :: '"' :: '"' :: '\n' ::
          (s.toList.flatMap (fun c => (escapeChar true c).toList) ++ ['"', '"', '"'] ++ y :: t) := by
      simp [String.toList_append, String.toList_join, List.flatMap_map]
    obtain ⟨off', h⟩ := mlBasicBody_escaped s.toList hy.1 [] t
      ((s.toList.flatMap (fun c => (escapeChar true c).toList) ++ ['"', '"', '"'] ++ y :: t).length + 5)
      (off + 4) (by
        have := length_le_flatMap_escapeChar true s.toList
        simp only [List.length_append, List.length_cons]; omega)
    refine ⟨off', ?_⟩
    rw [htext, string_mlBasic, h]
    simp [hs]
  · -- an escaped basic string
    have htext : ("\"" ++ String.join (s.toList.map (escapeChar false)) ++ "\"").toList ++ y :: t =
        '"' :: (s.toList.flatMap (fun c => (escapeChar false c).toList) ++ '"' :: y :: t) := by
      simp [String.toList_append, String.toList_join, List.flatMap_map]
    obtain ⟨off', h⟩ := basicBody_escaped s.toList [] (y :: t)
      ((s.toList.flatMap (fun c => (escapeChar false c).toList) ++ '"' :: y :: t).length + 2)
      (off + 1) (by
        have := length_le_flatMap_escapeChar false s.toList
        simp only [List.length_append, List.length_cons]; omega)
    refine ⟨off', ?_⟩
    rw [htext, string_basic (not_double_opening (head_flatMap_escapeChar false s.toList) (by simpa using hy.1)), h]
    simp [hs]

end Reader

end LotBridge.Toml
