import LotBridge.Wire.Framing
import Mathlib.Tactic.SplitIfs

/-!
# Reading back framed lines

The bytes of a text are UTF-8 that reads back as the text, and a line feed
byte stands among them only where the text has a line break: every byte of a
character of two bytes or more is at least `0x80`. So texts that each end in
their only line break, written one after the other, are cut by the framing
into exactly those texts, as long as none has more bytes than the bound.

## Main statements

* `decodeUtf8_encodeUtf8`: the bytes of a text read back as the text.
* `lineFeed_mem_encodeUtf8`: a line feed byte is the byte of a line break.
* `readLines_flatMap`: framed lines written one after the other read back.
-/

namespace LotBridge.Text

/-! ## Bytes of one character -/

theorem toNat_byte {n : Nat} (h : n < 256) : (UInt8.ofNat n).toNat = n := by
  simp [Nat.mod_eq_of_lt h]

theorem toNat_valid (c : Char) : c.toNat < 0xd800 ∨ (0xdfff < c.toNat ∧ c.toNat < 0x110000) := by
  simpa [UInt32.isValidChar, Nat.isValidChar] using c.valid

theorem leadWidth_byte {x : Nat} (h1 : 0x80 ≤ x) (h2 : x < 0x100) :
    leadWidth (UInt8.ofNat x) =
      if x ≤ 0xC1 then 0 else if x ≤ 0xDF then 2 else if x ≤ 0xEF then 3
      else if x ≤ 0xF4 then 4 else 0 := by
  simp only [leadWidth, UInt8.lt_iff_toNat_lt, UInt8.le_iff_toNat_le, UInt8.reduceToNat,
    toNat_byte h2]
  split_ifs <;> (try simp_all) <;> omega

theorem isContinuation_byte {y : Nat} (hy : 0x80 ≤ y ∧ y ≤ 0xBF) :
    isContinuation (UInt8.ofNat y) = true := by
  simp [isContinuation, UInt8.le_iff_toNat_le, toNat_byte (show y < 256 by omega), hy.1, hy.2]

/-- The second byte of a character of three or four bytes lies in the range
its lead byte allows. -/
theorem secondRange_byte {x y : Nat} (hx : x < 256) (hy : 0x80 ≤ y ∧ y ≤ 0xBF)
    (hE0 : x = 0xE0 → 0xA0 ≤ y) (hED : x = 0xED → y ≤ 0x9F) (hF0 : x = 0xF0 → 0x90 ≤ y)
    (hF4 : x = 0xF4 → y ≤ 0x8F) :
    ((secondRange (UInt8.ofNat x)).1 ≤ UInt8.ofNat y &&
      UInt8.ofNat y ≤ (secondRange (UInt8.ofNat x)).2) = true := by
  have hb : (UInt8.ofNat x).toNat = x := toNat_byte hx
  have hc : (UInt8.ofNat y).toNat = y := toNat_byte (by omega)
  simp only [secondRange, Bool.and_eq_true]
  split_ifs with h1 h2 h3 h4 <;> simp_all [UInt8.le_iff_toNat_le, ← UInt8.toNat_inj] <;> omega

theorem decodeFrom_one (o : Nat) {x : Nat} (rest : List UInt8) (hx : x < 0x80) :
    decodeFrom o (UInt8.ofNat x :: rest) = (decodeFrom (o + 1) rest).map (Char.ofNat x :: ·) := by
  have hb : (UInt8.ofNat x).toNat = x := toNat_byte (by omega)
  rw [decodeFrom]
  simp [UInt8.lt_iff_toNat_lt, hb, hx]

theorem decodeFrom_two (o : Nat) {x y : Nat} (rest : List UInt8) (hx : 0xC2 ≤ x ∧ x ≤ 0xDF)
    (hy : 0x80 ≤ y ∧ y ≤ 0xBF) :
    decodeFrom o (UInt8.ofNat x :: UInt8.ofNat y :: rest) =
      (decodeFrom (o + 2) rest).map (Char.ofNat (x % 32 * 64 + y % 64) :: ·) := by
  have hlt : ¬ UInt8.ofNat x < 0x80 := by
    simp [UInt8.lt_iff_toNat_lt, toNat_byte (show x < 256 by omega)]; omega
  rw [decodeFrom]
  simp only [hlt, if_false, leadWidth_byte (x := x) (by omega) (by omega),
    if_neg (show ¬ x ≤ 0xC1 by omega), if_pos hx.2, isContinuation_byte hy, if_true, payload,
    toNat_byte (show x < 256 by omega), toNat_byte (show y < 256 by omega)]

theorem decodeFrom_three (o : Nat) {x y z : Nat} (rest : List UInt8) (hx : 0xE0 ≤ x ∧ x ≤ 0xEF)
    (hy : 0x80 ≤ y ∧ y ≤ 0xBF) (hz : 0x80 ≤ z ∧ z ≤ 0xBF) (hE0 : x = 0xE0 → 0xA0 ≤ y)
    (hED : x = 0xED → y ≤ 0x9F) :
    decodeFrom o (UInt8.ofNat x :: UInt8.ofNat y :: UInt8.ofNat z :: rest) =
      (decodeFrom (o + 3) rest).map
        (Char.ofNat (x % 16 * 4096 + y % 64 * 64 + z % 64) :: ·) := by
  have hlt : ¬ UInt8.ofNat x < 0x80 := by
    simp [UInt8.lt_iff_toNat_lt, toNat_byte (show x < 256 by omega)]; omega
  have hsecond := secondRange_byte (show x < 256 by omega) hy hE0 hED (by omega) (by omega)
  rw [decodeFrom]
  simp only [hlt, if_false, leadWidth_byte (x := x) (by omega) (by omega),
    if_neg (show ¬ x ≤ 0xC1 by omega), if_neg (show ¬ x ≤ 0xDF by omega), if_pos hx.2, hsecond,
    Bool.not_true, Bool.false_eq_true, isContinuation_byte hz, if_true, payload,
    toNat_byte (show x < 256 by omega), toNat_byte (show y < 256 by omega),
    toNat_byte (show z < 256 by omega)]

theorem decodeFrom_four (o : Nat) {x y z w : Nat} (rest : List UInt8) (hx : 0xF0 ≤ x ∧ x ≤ 0xF4)
    (hy : 0x80 ≤ y ∧ y ≤ 0xBF) (hz : 0x80 ≤ z ∧ z ≤ 0xBF) (hw : 0x80 ≤ w ∧ w ≤ 0xBF)
    (hF0 : x = 0xF0 → 0x90 ≤ y) (hF4 : x = 0xF4 → y ≤ 0x8F) :
    decodeFrom o (UInt8.ofNat x :: UInt8.ofNat y :: UInt8.ofNat z :: UInt8.ofNat w :: rest) =
      (decodeFrom (o + 4) rest).map
        (Char.ofNat (x % 8 * 262144 + y % 64 * 4096 + z % 64 * 64 + w % 64) :: ·) := by
  have hlt : ¬ UInt8.ofNat x < 0x80 := by
    simp [UInt8.lt_iff_toNat_lt, toNat_byte (show x < 256 by omega)]; omega
  have hsecond := secondRange_byte (show x < 256 by omega) hy (by omega) (by omega) hF0 hF4
  rw [decodeFrom]
  simp only [hlt, if_false, leadWidth_byte (x := x) (by omega) (by omega),
    if_neg (show ¬ x ≤ 0xC1 by omega), if_neg (show ¬ x ≤ 0xDF by omega),
    if_neg (show ¬ x ≤ 0xEF by omega), if_pos hx.2, hsecond, Bool.not_true, Bool.false_eq_true,
    isContinuation_byte hz, isContinuation_byte hw, Bool.not_true, if_false, if_true, payload,
    toNat_byte (show x < 256 by omega), toNat_byte (show y < 256 by omega),
    toNat_byte (show z < 256 by omega), toNat_byte (show w < 256 by omega)]

/-- The bytes of a character read back as the character, whatever follows. -/
theorem decodeFrom_encodeChar (o : Nat) (c : Char) (rest : List UInt8) :
    decodeFrom o (String.utf8EncodeChar c ++ rest) =
      (decodeFrom (o + c.utf8Size) rest).map (c :: ·) := by
  have hvalid := toNat_valid c
  have hofNat : ∀ n, n = c.toNat → Char.ofNat n = c := by
    rintro n rfl
    exact Char.ofNat_toNat c
  simp only [String.utf8EncodeChar, Char.toNat_val]
  -- each width is one branch of the encoder and one of the reader; what is
  -- left is arithmetic on the code point
  rcases Char.utf8Size_eq c with h | h | h | h
  · have hv : c.toNat ≤ 127 := by
      simpa [UInt32.le_iff_toNat_le] using Char.utf8Size_eq_one_iff.1 h
    rw [if_pos hv, h, List.cons_append, List.nil_append, decodeFrom_one o rest (by omega),
      hofNat _ rfl]
  · have hv : 127 < c.toNat ∧ c.toNat ≤ 0x7ff := by
      simpa [UInt32.le_iff_toNat_le, UInt32.lt_iff_toNat_lt] using Char.utf8Size_eq_two_iff.1 h
    rw [if_neg (by omega), if_pos hv.2, h, List.cons_append, List.cons_append, List.nil_append,
      decodeFrom_two o rest (by omega) (by omega), hofNat _ (by omega)]
  · have hv : 0x7ff < c.toNat ∧ c.toNat ≤ 0xffff := by
      simpa [UInt32.le_iff_toNat_le, UInt32.lt_iff_toNat_lt] using Char.utf8Size_eq_three_iff.1 h
    rw [if_neg (by omega), if_neg (by omega), if_pos hv.2, h, List.cons_append, List.cons_append,
      List.cons_append, List.nil_append,
      decodeFrom_three o rest (by omega) (by omega) (by omega) (by omega) (by omega),
      hofNat _ (by omega)]
  · have hv : 0xffff < c.toNat := by
      simpa [UInt32.le_iff_toNat_le, UInt32.lt_iff_toNat_lt] using Char.utf8Size_eq_four_iff.1 h
    rw [if_neg (by omega), if_neg (by omega), if_neg (by omega), h, List.cons_append,
      List.cons_append, List.cons_append, List.cons_append, List.nil_append,
      decodeFrom_four o rest (by omega) (by omega) (by omega) (by omega) (by omega) (by omega),
      hofNat _ (by omega)]

/-! ## Bytes of a text -/

theorem decodeFrom_flatMap_encodeChar (cs : List Char) (o : Nat) :
    decodeFrom o (cs.flatMap String.utf8EncodeChar) = .ok cs := by
  induction cs generalizing o with
  | nil => simp [decodeFrom]
  | cons c cs ih =>
    rw [List.flatMap_cons, decodeFrom_encodeChar, ih]
    rfl

/-- The bytes of a text are UTF-8 and read back as the text. -/
theorem decodeUtf8_encodeUtf8 (s : String) : decodeUtf8 (encodeUtf8 s) = .ok s := by
  simp [decodeUtf8, encodeUtf8, decodeFrom_flatMap_encodeChar, Except.map]

/-- Only a line break has the line feed among its bytes: every byte of a wider
character is at least `0x80`. -/
theorem lineFeed_mem_encodeChar (c : Char) :
    Wire.lineFeed ∈ String.utf8EncodeChar c ↔ c = '\n' := by
  have hvalid := toNat_valid c
  have hne : ∀ {n}, 0x80 ≤ n → n < 256 → Wire.lineFeed ≠ UInt8.ofNat n := by
    intro n h1 h2 heq
    have := congrArg UInt8.toNat heq
    rw [toNat_byte h2] at this
    simp [Wire.lineFeed] at this
    omega
  have hnl : c = '\n' ↔ c.toNat = 10 := by
    constructor
    · rintro rfl
      rfl
    · intro h
      exact Char.ext (UInt32.toNat_inj.1 h)
  simp only [String.utf8EncodeChar, Char.toNat_val]
  split_ifs with h1 h2 h3
  · rw [hnl, List.mem_singleton]
    constructor
    · intro heq
      have := congrArg UInt8.toNat heq
      rwa [toNat_byte (by omega), eq_comm] at this
    · intro h
      simp [Wire.lineFeed, h]
  all_goals
    simp only [List.mem_cons, List.not_mem_nil, or_false]
    constructor
    · intro hmem
      exfalso
      repeat' (rcases hmem with hmem | hmem)
      all_goals exact hne (by omega) (by omega) hmem
    · intro h
      rw [hnl] at h
      omega

theorem lineFeed_mem_encodeUtf8 (s : String) :
    Wire.lineFeed ∈ encodeUtf8 s ↔ '\n' ∈ s.toList := by
  simp [encodeUtf8, lineFeed_mem_encodeChar]

theorem encodeUtf8_append (s t : String) : encodeUtf8 (s ++ t) = encodeUtf8 s ++ encodeUtf8 t := by
  simp [encodeUtf8]

theorem encodeUtf8_lineBreak : encodeUtf8 "\n" = [Wire.lineFeed] := rfl

end LotBridge.Text

namespace LotBridge.Wire

open LotBridge.Text

/-! ## Framing -/

/-- A text that ends in a line break and has no other. -/
def OneLine (t : String) : Prop := ∃ body, t = body ++ "\n" ∧ '\n' ∉ body.toList

/-- The bytes of a line are its body's, which hold no line feed, then one line
feed. -/
theorem OneLine.encodeUtf8 {t : String} (h : OneLine t) :
    ∃ body, Text.encodeUtf8 t = body ++ [lineFeed] ∧ lineFeed ∉ body := by
  obtain ⟨s, rfl, hs⟩ := h
  exact ⟨Text.encodeUtf8 s, by rw [encodeUtf8_append, encodeUtf8_lineBreak],
    fun hmem => hs ((lineFeed_mem_encodeUtf8 s).1 hmem)⟩

/-- The framing cuts right after a line feed. -/
theorem pieces_line (body rest : List UInt8) (h : lineFeed ∉ body) :
    pieces (body ++ lineFeed :: rest) = (body ++ [lineFeed]) :: pieces rest := by
  induction body with
  | nil => simp [pieces]
  | cons b body ih =>
    have hb : b ≠ lineFeed := fun hb => h (hb ▸ List.mem_cons_self)
    have ih := ih (fun hmem => h (List.mem_cons_of_mem b hmem))
    rw [List.cons_append, pieces, if_neg hb, ih]
    rfl

theorem pieces_lines (ts : List String) (h : ∀ t ∈ ts, OneLine t) :
    pieces (ts.flatMap Text.encodeUtf8) = ts.map Text.encodeUtf8 := by
  induction ts with
  | nil => rfl
  | cons t ts ih =>
    obtain ⟨body, hbody, hlf⟩ := (h t List.mem_cons_self).encodeUtf8
    rw [List.flatMap_cons, hbody, List.append_assoc, List.singleton_append, pieces_line _ _ hlf,
      ih fun t' ht' => h t' (List.mem_cons_of_mem t ht'), List.map_cons, hbody]

theorem linesOf_encodeUtf8 (maxBytes : Nat) (ts : List String)
    (h : ∀ t ∈ ts, (Text.encodeUtf8 t).length ≤ maxBytes) :
    linesOf maxBytes (ts.map Text.encodeUtf8) = (ts, none) := by
  induction ts with
  | nil => rfl
  | cons t ts ih =>
    have hlen := h t List.mem_cons_self
    rw [List.map_cons, linesOf, if_neg (by omega), decodeUtf8_encodeUtf8,
      ih fun t' ht' => h t' (List.mem_cons_of_mem t ht')]

/-- Lines that each end in their only line break, with at most `maxBytes`
bytes each, written one after the other, are read back as they were, and the
reading ends cleanly. -/
theorem readLines_flatMap (maxBytes : Nat) (ts : List String)
    (h : ∀ t ∈ ts, OneLine t ∧ (Text.encodeUtf8 t).length ≤ maxBytes) :
    readLines (ts.flatMap Text.encodeUtf8) maxBytes = (ts, none) := by
  rw [readLines, pieces_lines ts fun t ht => (h t ht).1,
    linesOf_encodeUtf8 maxBytes ts fun t ht => (h t ht).2]

end LotBridge.Wire
