import LotBridge.Text.Utf8

/-!
# Line framing

Messages travel as lines of UTF-8 text, each ending in a line feed, with a
bound on the bytes of one line. A stream is cut after every line feed; the
last piece may lack one. Each piece in turn becomes a line, with its line
feed kept, unless it is longer than the bound or is no UTF-8, which ends the
reading with a refusal.

The reader takes a line at a time from a buffered stream (`readLineFrom`): it
looks at what its buffer holds, refilling the buffer from the stream when it
is empty, and takes bytes up to a line feed, or the whole buffer when it holds
none, refusing as soon as the line would pass the bound. How the stream fills
the buffer, in one piece or in chunks of any size, is the reader's business;
`readAllLines` calls it until it gives nothing more or refuses.

## Main definitions

* `FrameError`, `FrameError.message`.
* `pieces`: a stream cut after every line feed.
* `readLines`: the lines of a stream, and the refusal that ended it if any.
* `readLineFrom`, `readAllLines`: one call of the line reader on a buffered
  stream, and calls until the end.
-/

namespace LotBridge.Wire

open LotBridge.Text

/-- Why a stream's reading ended early. -/
inductive FrameError where
  | tooLong (maxBytes : Nat)
  | notUtf8 (e : Utf8Error)
deriving DecidableEq, Repr

/-- The wording of a framing refusal. -/
def FrameError.message : FrameError → String
  | .tooLong n => "line exceeds maximum size of " ++ toString n ++ " bytes"
  | .notUtf8 e => "line is not valid UTF-8: " ++ e.message

/-- The line feed byte. -/
def lineFeed : UInt8 := 10

/-- Cuts a stream after every line feed, keeping the line feeds; no piece is
empty, and only the last may lack a line feed. -/
def pieces : List UInt8 → List (List UInt8)
  | [] => []
  | b :: rest =>
    if b = lineFeed then [b] :: pieces rest
    else
      match pieces rest with
      | [] => [[b]]
      | p :: ps => (b :: p) :: ps

/-- The lines of pieces, up to the first refusal. -/
def linesOf (maxBytes : Nat) : List (List UInt8) → List String × Option FrameError
  | [] => ([], none)
  | p :: ps =>
    if p.length > maxBytes then ([], some (.tooLong maxBytes))
    else
      match decodeUtf8 p with
      | .error e => ([], some (.notUtf8 e))
      | .ok line =>
        let (lines, stop) := linesOf maxBytes ps
        (line :: lines, stop)

/-- The lines of a stream with at most `maxBytes` bytes each, and the refusal
that ended the reading, if any. -/
def readLines (data : List UInt8) (maxBytes : Nat) : List String × Option FrameError :=
  linesOf maxBytes (pieces data)

theorem pieces_flatten (data : List UInt8) : (pieces data).flatten = data := by
  induction data with
  | nil => rfl
  | cons b rest ih =>
    simp only [pieces]
    split
    · simp [ih]
    · split
      · rename_i h
        simp_all
      · rename_i p ps h
        rw [h] at ih
        simp_all

/-! ## Reading a buffered stream -/

/-- Splits bytes after their first line feed: the bytes up to and including
it, and the rest; `none` when there is no line feed. -/
def takeLine : List UInt8 → Option (List UInt8 × List UInt8)
  | [] => none
  | b :: rest =>
    if b = lineFeed then some ([b], rest)
    else (takeLine rest).map fun (line, after) => (b :: line, after)

/-- The text of a line's bytes, or the refusal of bytes that are no UTF-8. -/
def intoText (bytes : List UInt8) : Except FrameError String :=
  match decodeUtf8 bytes with
  | .ok s => .ok s
  | .error e => .error (.notUtf8 e)

/-- One call of the line reader on a buffered stream, whose bytes yet to be
handed out are `chunks`: what is left of the buffer, then the fills to come,
in order. `line` holds the bytes taken so far. An empty buffer is refilled
from the next chunk; a buffer with a line feed gives up to it, and one without
is taken whole, each time refusing a line that would pass `maxBytes` bytes. At
the end of the stream the reader gives the bytes taken, or nothing when there
are none. Returns the answer and the bytes left. -/
def readLineFrom (maxBytes : Nat) (line : List UInt8) :
    List (List UInt8) → Except FrameError (Option String) × List (List UInt8)
  | [] => (if line.isEmpty then .ok none else (intoText line).map some, [])
  | [] :: rest => readLineFrom maxBytes line rest
  | (b :: bs) :: rest =>
    match takeLine (b :: bs) with
    | some (chunk, after) =>
      if line.length + chunk.length > maxBytes then (.error (.tooLong maxBytes), (b :: bs) :: rest)
      else ((intoText (line ++ chunk)).map some, after :: rest)
    | none =>
      if line.length + (b :: bs).length > maxBytes then (.error (.tooLong maxBytes), (b :: bs) :: rest)
      else readLineFrom maxBytes (line ++ b :: bs) rest

theorem takeLine_some {l chunk after : List UInt8} (h : takeLine l = some (chunk, after)) :
    ∃ body, lineFeed ∉ body ∧ chunk = body ++ [lineFeed] ∧ l = chunk ++ after := by
  induction l generalizing chunk after with
  | nil => simp [takeLine] at h
  | cons b rest ih =>
    simp only [takeLine] at h
    split at h
    · rename_i hb
      obtain ⟨rfl, rfl⟩ := Prod.mk.inj (Option.some.inj h)
      exact ⟨[], by simp, by simp [hb], by simp⟩
    · rename_i hb
      obtain ⟨⟨line, after'⟩, hl, heq⟩ := Option.map_eq_some_iff.1 h
      obtain ⟨rfl, rfl⟩ := Prod.mk.inj heq
      obtain ⟨body, hbody, rfl, rfl⟩ := ih hl
      exact ⟨b :: body, by simp [hbody, Ne.symm hb], by simp, by simp⟩

theorem takeLine_none {l : List UInt8} (h : takeLine l = none) : lineFeed ∉ l := by
  induction l with
  | nil => simp
  | cons b rest ih =>
    simp only [takeLine] at h
    split at h
    · simp at h
    · rename_i hb
      simp only [Option.map_eq_none_iff] at h
      simp [ih h, Ne.symm hb]

/-- A call that gives a line takes at least one byte from the stream. -/
theorem readLineFrom_consumes {maxBytes : Nat} {line : List UInt8} {chunks rest : List (List UInt8)}
    {s : String} (h : readLineFrom maxBytes line chunks = (.ok (some s), rest)) :
    rest.flatten.length + 1 ≤ chunks.flatten.length + line.length := by
  induction chunks generalizing line with
  | nil =>
    simp only [readLineFrom] at h
    split at h
    · simp at h
    · rename_i hne
      obtain ⟨-, rfl⟩ := Prod.mk.inj h
      simp only [List.isEmpty_iff] at hne
      have := List.length_pos_iff.2 hne
      simp only [List.flatten_nil, List.length_nil]
      omega
  | cons available chunks ih =>
    match available, h with
    | [], h => simpa using ih h
    | b :: bs, h =>
      simp only [readLineFrom] at h
      split at h
      · rename_i chunk after htake
        obtain ⟨body, -, rfl, hsplit⟩ := takeLine_some htake
        split at h
        · simp at h
        · obtain ⟨-, rfl⟩ := Prod.mk.inj h
          have hlen := congrArg List.length hsplit
          simp only [List.length_append, List.length_cons, List.length_nil] at hlen
          simp only [List.flatten_cons, List.length_append, List.length_cons]
          omega
      · split at h
        · simp at h
        · have := ih h
          simp only [List.flatten_cons, List.length_append, List.length_cons] at this ⊢
          omega

/-- The chunks in which a reader hands out `data` when it fills a buffer of
`capacity` bytes at a time; a reader without a buffer of its own
(`capacity = 0`) hands the bytes out in one piece. -/
def bufferFills : Nat → List UInt8 → List (List UInt8)
  | 0, data => [data]
  | _, [] => []
  | c + 1, b :: bs => (b :: bs).take (c + 1) :: bufferFills (c + 1) ((b :: bs).drop (c + 1))
termination_by _ data => data.length
decreasing_by
  rw [List.length_drop, List.length_cons]
  omega

theorem flatten_bufferFills (capacity : Nat) (data : List UInt8) :
    (bufferFills capacity data).flatten = data := by
  fun_induction bufferFills capacity data with
  | case1 data => simp
  | case2 => rfl
  | case3 c b bs ih => rw [List.flatten_cons, ih, List.take_append_drop]

/-- Calls the line reader until it gives nothing more or refuses: the lines it
gave, and the refusal that ended the reading, if any. -/
def readAllLines (maxBytes : Nat) (chunks : List (List UInt8)) : List String × Option FrameError :=
  match h : readLineFrom maxBytes [] chunks with
  | (.ok none, _) => ([], none)
  | (.error e, _) => ([], some e)
  | (.ok (some line), rest) =>
    have : rest.flatten.length < chunks.flatten.length := by
      have := readLineFrom_consumes h
      rw [List.length_nil] at this
      omega
    let next := readAllLines maxBytes rest
    (line :: next.1, next.2)
termination_by chunks.flatten.length
decreasing_by exact this

end LotBridge.Wire
