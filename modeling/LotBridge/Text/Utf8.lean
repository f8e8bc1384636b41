/-!
# Reading UTF-8

Bytes are read as UTF-8 one character at a time. A lead byte fixes the
length of its character; the bytes after it must be continuation bytes, and
the second byte is narrowed further so that no character has two encodings,
none lies among the surrogates and none lies beyond U+10FFFF.

A refusal reports where the valid prefix ends and, when a bad byte was met,
how many bytes the refused sequence has; input that ends inside a character
has no such length.

## Main definitions

* `Utf8Error`, `Utf8Error.message`.
* `decodeUtf8`: the characters of valid bytes, or the first refusal.
* `encodeUtf8`: the bytes of a text.
-/

namespace LotBridge.Text

/-- Where a byte string stops being UTF-8: the length of the valid prefix, and
the length of the bad sequence after it, if the input does not just end. -/
structure Utf8Error where
  validUpTo : Nat
  errorLength : Option Nat
deriving DecidableEq, Repr

/-- The wording of a refusal. -/
def Utf8Error.message (e : Utf8Error) : String :=
  match e.errorLength with
  | some n =>
    "invalid utf-8 sequence of " ++ toString n ++ " bytes from index " ++ toString e.validUpTo
  | none => "incomplete utf-8 byte sequence from index " ++ toString e.validUpTo

/-- Whether a byte continues a character. -/
def isContinuation (b : UInt8) : Bool := 0x80 ≤ b && b ≤ 0xBF

/-- The range the second byte of a character must lie in, after its lead. -/
def secondRange (lead : UInt8) : UInt8 × UInt8 :=
  if lead = 0xE0 then (0xA0, 0xBF)
  else if lead = 0xED then (0x80, 0x9F)
  else if lead = 0xF0 then (0x90, 0xBF)
  else if lead = 0xF4 then (0x80, 0x8F)
  else (0x80, 0xBF)

/-- The number of bytes a lead byte announces; `0` for a byte that starts no
character. -/
def leadWidth (b : UInt8) : Nat :=
  if b < 0x80 then 1
  else if 0xC2 ≤ b && b ≤ 0xDF then 2
  else if 0xE0 ≤ b && b ≤ 0xEF then 3
  else if 0xF0 ≤ b && b ≤ 0xF4 then 4
  else 0

/-- The low six bits of a continuation byte. -/
def payload (b : UInt8) : Nat := b.toNat % 64

/-- The characters of bytes read as UTF-8, counting positions from byte
`offset`. -/
def decodeFrom (offset : Nat) : List UInt8 → Except Utf8Error (List Char)
  | [] => .ok []
  | b :: rest =>
    let (lo, hi) := secondRange b
    let second (c : UInt8) : Bool := lo ≤ c && c ≤ hi
    let bad (n : Nat) : Except Utf8Error (List Char) := .error ⟨offset, some n⟩
    let short : Except Utf8Error (List Char) := .error ⟨offset, none⟩
    if b < 0x80 then (decodeFrom (offset + 1) rest).map (Char.ofNat b.toNat :: ·)
    else
    match leadWidth b, rest with
    | 2, [] => short
    | 2, c :: more =>
      if isContinuation c then
        (decodeFrom (offset + 2) more).map (Char.ofNat ((b.toNat % 32) * 64 + payload c) :: ·)
      else bad 1
    | 3, [] => short
    | 3, c :: more =>
      if !second c then bad 1
      else
        match more with
        | [] => short
        | d :: more' =>
          if isContinuation d then
            (decodeFrom (offset + 3) more').map
              (Char.ofNat ((b.toNat % 16) * 4096 + payload c * 64 + payload d) :: ·)
          else bad 2
    | 4, [] => short
    | 4, c :: more =>
      if !second c then bad 1
      else
        match more with
        | [] => short
        | d :: more' =>
          if !isContinuation d then bad 2
          else
            match more' with
            | [] => short
            | e :: more'' =>
              if isContinuation e then
                (decodeFrom (offset + 4) more'').map
                  (Char.ofNat ((b.toNat % 8) * 262144 + payload c * 4096 + payload d * 64 +
                    payload e) :: ·)
              else bad 3
    | _, _ => bad 1
termination_by bs => bs.length

/-- The text of bytes read as UTF-8. -/
def decodeUtf8 (bs : List UInt8) : Except Utf8Error String :=
  (decodeFrom 0 bs).map String.ofList

/-- The UTF-8 bytes of a text. -/
def encodeUtf8 (s : String) : List UInt8 := s.toList.flatMap String.utf8EncodeChar

/-- A text has at least as many bytes as characters. -/
theorem length_le_encodeUtf8 (s : String) : s.length ≤ (encodeUtf8 s).length := by
  rw [← String.length_toList, encodeUtf8]
  induction s.toList with
  | nil => simp
  | cons c cs ih =>
    have hc : 1 ≤ (String.utf8EncodeChar c).length := by
      rw [String.length_utf8EncodeChar]
      exact Char.utf8Size_pos c
    simp only [List.length_cons, List.flatMap_cons, List.length_append]
    omega

theorem decodeUtf8_nil : decodeUtf8 [] = .ok "" := by
  simp only [decodeUtf8, decodeFrom.eq_1]
  rfl

end LotBridge.Text
