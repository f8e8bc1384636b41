import LotBridge.Proofs.LineFraming

/-!
# Reading lines does not depend on the chunks

The line reader takes a line at a time from a buffered stream, and sees the
stream only through the chunks its buffer is filled with. However the stream
is cut into chunks, the reader gives the lines of `readLines`: the stream cut
after every line feed, each piece refused when it is longer than the bound or
is no UTF-8, and read as its text otherwise, up to the first refusal.

One call of the reader takes exactly the first piece of the stream
(`readLineFrom_piece`): the bytes it has taken so far hold no line feed and
are the start of that piece, so its two checks on the length, on a buffer
with a line feed and on one without, say together whether the whole piece fits.
The calls until the end then follow the pieces one by one.

## Main definitions

* `pieceResult`: what one call gives for a piece.

## Main statements

* `readLineFrom_piece`: one call takes the first piece.
* `readAllLines_chunked`: the calls until the end give `readLines`, whatever
  the chunks.
-/

namespace LotBridge.Wire

open LotBridge.Text

/-! ## Pieces -/

theorem pieces_eq_nil_iff {d : List UInt8} : pieces d = [] ↔ d = [] := by
  constructor
  · intro h
    simpa [h] using (pieces_flatten d).symm
  · rintro rfl
    rfl

/-- Bytes without a line feed are one piece. -/
theorem pieces_of_lineFeed_not_mem {l : List UInt8} (h : lineFeed ∉ l) (hne : l ≠ []) : pieces l = [l] := by
  induction l with
  | nil => exact absurd rfl hne
  | cons b rest ih =>
    have hb : b ≠ lineFeed := fun hb => h (hb ▸ List.mem_cons_self)
    rw [pieces, if_neg hb]
    rcases List.eq_nil_or_concat rest with rfl | ⟨_, _, rfl⟩
    · rfl
    · rw [ih (fun hmem => h (List.mem_cons_of_mem b hmem)) (by simp)]

/-- Bytes without a line feed start the first piece of whatever they begin. -/
theorem prefix_of_pieces {pre rest p : List UInt8} {ps : List (List UInt8)} (h : lineFeed ∉ pre)
    (hp : pieces (pre ++ rest) = p :: ps) : pre <+: p := by
  induction pre generalizing p ps with
  | nil => exact List.nil_prefix
  | cons b pre ih =>
    have hb : b ≠ lineFeed := fun hb => h (hb ▸ List.mem_cons_self)
    have hpre : lineFeed ∉ pre := fun hmem => h (List.mem_cons_of_mem b hmem)
    rw [List.cons_append, pieces, if_neg hb] at hp
    split at hp
    · rename_i hnil
      obtain ⟨rfl, -⟩ := List.cons.inj hp
      obtain ⟨rfl, -⟩ := List.append_eq_nil_iff.1 (pieces_eq_nil_iff.1 hnil)
      exact List.prefix_refl _
    · rename_i q qs hq
      obtain ⟨rfl, -⟩ := List.cons.inj hp
      exact List.cons_prefix_cons.2 ⟨rfl, ih hpre hq⟩

/-! ## One call -/

/-- What one call of the reader gives for a piece: a refusal when it is longer
than the bound or is no UTF-8, its text otherwise. -/
def pieceResult (maxBytes : Nat) (p : List UInt8) : Except FrameError (Option String) :=
  if p.length > maxBytes then .error (.tooLong maxBytes) else (intoText p).map some

/-- The lines of pieces follow what one call gives for the first. -/
theorem linesOf_cons (maxBytes : Nat) (p : List UInt8) (ps : List (List UInt8)) :
    linesOf maxBytes (p :: ps) =
      match pieceResult maxBytes p with
      | .ok (some s) => (s :: (linesOf maxBytes ps).1, (linesOf maxBytes ps).2)
      | .ok none => ([], none)
      | .error e => ([], some e) := by
  rw [linesOf, pieceResult]
  split
  · rfl
  · cases h : decodeUtf8 p <;> simp [intoText, h, Except.map]

/-- At the end of the stream a call with nothing taken gives nothing. -/
theorem readLineFrom_end (maxBytes : Nat) {chunks : List (List UInt8)} (h : chunks.flatten = []) :
    (readLineFrom maxBytes [] chunks).1 = .ok none := by
  induction chunks with
  | nil => rfl
  | cons available chunks ih =>
    obtain ⟨rfl, hrest⟩ := List.append_eq_nil_iff.1 (List.flatten_cons ▸ h)
    exact ih hrest

/-- One call takes the first piece of the stream: with bytes `line` taken so
far, which hold no line feed and fit the bound, its answer is what the piece
that `line` starts gives, and when the piece fits, the bytes it leaves are the
other pieces. -/
theorem readLineFrom_piece (maxBytes : Nat) (line : List UInt8) (chunks : List (List UInt8))
    (hline : lineFeed ∉ line) (hlen : line.length ≤ maxBytes) {p : List UInt8}
    {ps : List (List UInt8)} (hp : pieces (line ++ chunks.flatten) = p :: ps) :
    (readLineFrom maxBytes line chunks).1 = pieceResult maxBytes p ∧
      (p.length ≤ maxBytes → pieces (readLineFrom maxBytes line chunks).2.flatten = ps) := by
  fun_induction readLineFrom maxBytes line chunks with
  | case1 line =>
    -- the end of the stream: the bytes taken are the last piece
    have hne : line ≠ [] := fun h => by simp [h, pieces] at hp
    rw [List.flatten_nil, List.append_nil, pieces_of_lineFeed_not_mem hline hne] at hp
    obtain ⟨rfl, rfl⟩ := List.cons.inj hp
    simp [pieceResult, hne, Nat.not_lt.2 hlen, pieces]
  | case2 line rest ih => exact ih hline hlen (by simpa using hp)
  | case3 line b bs rest chunk after htake htoo =>
    -- a line feed in the buffer, too far: the piece is already too long
    obtain ⟨body, hbody, rfl, hsplit⟩ := takeLine_some htake
    rw [List.flatten_cons, hsplit, List.append_assoc, List.append_assoc, ← List.append_assoc line,
      List.singleton_append, pieces_line _ _ (by simp [hline, hbody])] at hp
    obtain ⟨rfl, rfl⟩ := List.cons.inj hp
    have hlong : (line ++ body ++ [lineFeed]).length > maxBytes := by
      simp only [List.length_append] at htoo ⊢
      omega
    exact ⟨by rw [pieceResult, if_pos hlong], fun h => absurd h (Nat.not_le.2 hlong)⟩
  | case4 line b bs rest chunk after htake hfit =>
    -- a line feed in the buffer, in reach: the piece ends there
    obtain ⟨body, hbody, rfl, hsplit⟩ := takeLine_some htake
    rw [List.flatten_cons, hsplit, List.append_assoc, List.append_assoc, ← List.append_assoc line,
      List.singleton_append, pieces_line _ _ (by simp [hline, hbody])] at hp
    obtain ⟨rfl, rfl⟩ := List.cons.inj hp
    have hshort : ¬ (line ++ body ++ [lineFeed]).length > maxBytes := by
      simp only [List.length_append] at hfit ⊢
      omega
    exact ⟨by rw [pieceResult, if_neg hshort, List.append_assoc], fun _ => rfl⟩
  | case5 line b bs rest htake htoo =>
    -- no line feed in the buffer, and the bytes so far already pass the bound
    have hpre : lineFeed ∉ line ++ b :: bs := by simp [hline, takeLine_none htake]
    rw [List.flatten_cons, ← List.append_assoc] at hp
    have hle := (prefix_of_pieces hpre hp).length_le
    have hlong : p.length > maxBytes := by
      simp only [List.length_append] at hle
      omega
    exact ⟨by rw [pieceResult, if_pos hlong], fun h => absurd h (Nat.not_le.2 hlong)⟩
  | case6 line b bs rest htake hfit ih =>
    have hpre : lineFeed ∉ line ++ b :: bs := by simp [hline, takeLine_none htake]
    exact ih hpre (by simp only [List.length_append]; omega) (by simpa using hp)

theorem pieceResult_ne_none (maxBytes : Nat) (p : List UInt8) : pieceResult maxBytes p ≠ .ok none := by
  unfold pieceResult intoText
  split
  · simp
  · cases decodeUtf8 p <;> simp [Except.map]

theorem length_le_of_pieceResult {maxBytes : Nat} {p : List UInt8} {x : Option String}
    (h : pieceResult maxBytes p = .ok x) : p.length ≤ maxBytes := by
  unfold pieceResult at h
  split at h
  · simp at h
  · omega

/-! ## Calls until the end -/

/-- The calls until the end follow the pieces: each call gives what its piece
gives, and the next call starts at the next piece. -/
theorem readAllLines_eq_readLines (maxBytes : Nat) (chunks : List (List UInt8)) :
    readAllLines maxBytes chunks = readLines chunks.flatten maxBytes := by
  fun_induction readAllLines maxBytes chunks with
  | case1 chunks rest h =>
    -- nothing given: the stream was empty, as a piece would give a line or a refusal
    cases hp : pieces chunks.flatten with
    | nil => rw [readLines, hp]; rfl
    | cons p ps =>
      have := (readLineFrom_piece maxBytes [] chunks (by simp) (by simp) hp).1
      rw [h] at this
      exact absurd this.symm (pieceResult_ne_none maxBytes p)
  | case2 chunks e rest h =>
    cases hp : pieces chunks.flatten with
    | nil =>
      have := readLineFrom_end maxBytes (pieces_eq_nil_iff.1 hp)
      simp [h] at this
    | cons p ps =>
      have hfirst := (readLineFrom_piece maxBytes [] chunks (by simp) (by simp) hp).1
      rw [h] at hfirst
      rw [readLines, hp, linesOf_cons, ← hfirst]
  | case3 chunks line rest h _ next ih =>
    cases hp : pieces chunks.flatten with
    | nil =>
      have := readLineFrom_end maxBytes (pieces_eq_nil_iff.1 hp)
      simp [h] at this
    | cons p ps =>
      obtain ⟨hfirst, hnext⟩ := readLineFrom_piece maxBytes [] chunks (by simp) (by simp) hp
      simp only [h] at hfirst hnext
      have hrest := hnext (length_le_of_pieceResult hfirst.symm)
      show (line :: (readAllLines maxBytes rest).1, (readAllLines maxBytes rest).2) = _
      rw [ih, readLines, readLines, hrest, hp, linesOf_cons, ← hfirst]

/-- However the stream is cut into chunks, the reader called until it gives
nothing more or refuses gives the lines of the whole stream; in particular for
a byte slice read directly and for a buffer of any capacity filled from it. -/
theorem readAllLines_chunked (maxBytes : Nat) :
    (∀ chunks : List (List UInt8), readAllLines maxBytes chunks = readLines chunks.flatten maxBytes) ∧
    ∀ capacity data, readAllLines maxBytes (bufferFills capacity data) = readLines data maxBytes :=
  ⟨readAllLines_eq_readLines maxBytes, fun capacity data => by
    rw [readAllLines_eq_readLines, flatten_bufferFills]⟩

end LotBridge.Wire
