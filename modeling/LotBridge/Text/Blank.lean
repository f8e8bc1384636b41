/-!
# Blank characters and trimming

Operator input is trimmed of the characters that Unicode calls white space:
the ASCII controls from tab to carriage return, space, next line, no-break
space, ogham space mark, the spaces from en quad to hair space, the line and
paragraph separators, the narrow no-break space, the medium mathematical
space and the ideographic space.

## Main definitions

* `isBlank`: the white space property.
* `trim`: a text without blanks at either end.
-/

namespace LotBridge.Text

/-- The characters with the Unicode white space property. -/
def isBlank (c : Char) : Bool :=
  let n := c.toNat
  (9 ≤ n && n ≤ 13) || n = 32 || n = 0x85 || n = 0xA0 || n = 0x1680 ||
    (0x2000 ≤ n && n ≤ 0x200A) || n = 0x2028 || n = 0x2029 || n = 0x202F ||
    n = 0x205F || n = 0x3000

/-- Drops blanks from both ends of a character list. -/
def trimList (cs : List Char) : List Char :=
  ((cs.dropWhile isBlank).reverse.dropWhile isBlank).reverse

/-- A text without blanks at either end. -/
def trim (s : String) : String := String.ofList (trimList s.toList)

/-- A text without blanks at its end. -/
def trimEnd (s : String) : String := String.ofList ((s.toList.reverse.dropWhile isBlank).reverse)

theorem trimList_nil : trimList [] = [] := rfl

theorem dropWhile_blanks {bs : List Char} (h : ∀ b ∈ bs, isBlank b = true) :
    bs.dropWhile isBlank = [] := by
  induction bs with
  | nil => rfl
  | cons b rest ih =>
    simp only [List.mem_cons, forall_eq_or_imp] at h
    simp [List.dropWhile, h.1, ih h.2]

/-- Blanks after a text change neither of its trimmed forms. -/
theorem trimList_append_blanks (cs bs : List Char) (h : ∀ b ∈ bs, isBlank b = true) :
    trimList (cs ++ bs) = trimList cs := by
  have hrev : bs.reverse.dropWhile isBlank = [] :=
    dropWhile_blanks fun b hb => h b (List.mem_reverse.1 hb)
  unfold trimList
  rw [List.dropWhile_append]
  split
  · rename_i hnil
    rw [dropWhile_blanks h, List.isEmpty_iff.1 hnil]
  · rw [List.reverse_append, List.dropWhile_append, hrev]
    rfl

theorem trim_append_blanks (s t : String) (h : ∀ b ∈ t.toList, isBlank b = true) :
    trim (s ++ t) = trim s := by
  simp only [trim, String.toList_append, trimList_append_blanks _ _ h]

theorem trimEnd_append_blanks (s t : String) (h : ∀ b ∈ t.toList, isBlank b = true) :
    trimEnd (s ++ t) = trimEnd s := by
  have hrev : t.toList.reverse.dropWhile isBlank = [] :=
    dropWhile_blanks fun b hb => h b (List.mem_reverse.1 hb)
  simp only [trimEnd, String.toList_append, List.reverse_append, List.dropWhile_append, hrev,
    List.isEmpty_nil, if_true]

end LotBridge.Text
