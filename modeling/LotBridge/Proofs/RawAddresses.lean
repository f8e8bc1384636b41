import LotBridge.Controller.Command
import LotBridge.Proofs.UnsignedNumerals

/-!
# Raw addresses

An operator names a register by a line number and a component name. The
number must be 1 or 2; the name, trimmed of white space, must be `PC` or `OS`
in any ASCII case, so letters that only look alike are refused
(`Component.parse_eq_ok_iff`). The line is checked first: a bad number is
refused by its decimal text whatever the name, and a bad name by its trimmed
text in its own case. A line number given as text is an optional `+` and
ASCII digits, leading zeros allowed (`Line.parse_eq_ok_iff`).

A controller asked for a raw address that reads does exactly what it does
for the typed line and component; one that does not read is refused with no
request to the gateway, recorded as one failure in no phase that leaves the
outcome as it was.

## Main definitions

* `Component.spellings`: a component's name in every ASCII case.

## Main statements

* `Text.toUpper_eq_iff`: the letters that upper-case to a letter.
* `rawAddresses_checked`: raw addresses, exactly.
-/

namespace LotBridge

namespace Text

/-! ## Upper case -/

/-- Upper-casing moves the lower-case ASCII letters down by 32 and keeps every
other character. -/
theorem toNat_toUpper (c : Char) :
    c.toUpper.toNat = if 97 ≤ c.toNat ∧ c.toNat ≤ 122 then c.toNat - 32 else c.toNat := by
  unfold Char.toUpper
  split
  · rename_i h
    have hlower : 97 ≤ c.toNat ∧ c.toNat ≤ 122 := by
      simp only [UInt32.le_iff_toNat_le] at h
      exact h
    rw [if_pos hlower]
    show (c.val + ('A'.val - 'a'.val)).toNat = c.val.toNat - 32
    -- the offset is `-32` in 32 bits, and the letter is above 32
    have hoff : ('A'.val - 'a'.val).toNat = 4294967264 := by decide
    have hc : c.val.toNat = c.toNat := rfl
    rw [UInt32.toNat_add, hoff]
    omega
  · rename_i h
    have hlower : ¬ (97 ≤ c.toNat ∧ c.toNat ≤ 122) := by
      simp only [UInt32.le_iff_toNat_le] at h
      exact h
    rw [if_neg hlower]

/-- The characters that upper-case to an upper-case ASCII letter are the
letter and its lower-case form. -/
theorem toUpper_eq_iff {c u l : Char} (hu : 65 ≤ u.toNat ∧ u.toNat ≤ 90) (hl : l.toNat = u.toNat + 32) :
    c.toUpper = u ↔ c = u ∨ c = l := by
  rw [← Char.toNat_inj, toNat_toUpper, ← Char.toNat_inj, ← Char.toNat_inj, hl]
  split <;> omega

/-- The two-character texts that upper-case to two given letters: the four
ways of writing them in ASCII case. -/
theorem map_toUpper_eq_pair {cs : List Char} {u₁ l₁ u₂ l₂ : Char}
    (hu₁ : 65 ≤ u₁.toNat ∧ u₁.toNat ≤ 90) (hl₁ : l₁.toNat = u₁.toNat + 32)
    (hu₂ : 65 ≤ u₂.toNat ∧ u₂.toNat ≤ 90) (hl₂ : l₂.toNat = u₂.toNat + 32) :
    cs.map Char.toUpper = [u₁, u₂] ↔ cs ∈ [[u₁, u₂], [u₁, l₂], [l₁, u₂], [l₁, l₂]] := by
  constructor
  · intro h
    obtain ⟨a, rest, rfl, ha, hrest⟩ := List.map_eq_cons_iff.1 h
    obtain ⟨b, rest', rfl, hb, hnil⟩ := List.map_eq_cons_iff.1 hrest
    obtain rfl := List.map_eq_nil_iff.1 hnil
    rcases (toUpper_eq_iff hu₁ hl₁).1 ha with rfl | rfl <;>
      rcases (toUpper_eq_iff hu₂ hl₂).1 hb with rfl | rfl <;> simp
  · intro h
    have h₁ : u₁.toUpper = u₁ := (toUpper_eq_iff hu₁ hl₁).2 (Or.inl rfl)
    have h₁' : l₁.toUpper = u₁ := (toUpper_eq_iff hu₁ hl₁).2 (Or.inr rfl)
    have h₂ : u₂.toUpper = u₂ := (toUpper_eq_iff hu₂ hl₂).2 (Or.inl rfl)
    have h₂' : l₂.toUpper = u₂ := (toUpper_eq_iff hu₂ hl₂).2 (Or.inr rfl)
    simp only [List.mem_cons, List.not_mem_nil, or_false] at h
    rcases h with rfl | rfl | rfl | rfl <;> simp [h₁, h₁', h₂, h₂']

end Text

/-! ## Components and lines -/

/-- The name of a component in every ASCII case. -/
def Component.spellings : Component → List String
  | .pc => ["PC", "Pc", "pC", "pc"]
  | .os => ["OS", "Os", "oS", "os"]

/-- A name upper-cases to a component's name exactly when it is one of its
spellings. -/
theorem Component.upper_eq_name_iff (t : String) (k : Component) :
    String.ofList (t.toList.map Char.toUpper) = k.name ↔ t ∈ k.spellings := by
  have hmem : t ∈ k.spellings ↔ t.toList ∈ k.spellings.map String.toList := by
    rw [List.mem_map]
    exact ⟨fun h => ⟨t, h, rfl⟩, fun ⟨t', h, ht⟩ => String.toList_injective ht ▸ h⟩
  rw [hmem, ← String.ofList_toList (s := k.name), String.ofList_inj]
  cases k with
  | pc => exact Text.map_toUpper_eq_pair (by decide) (by decide) (by decide) (by decide)
  | os => exact Text.map_toUpper_eq_pair (by decide) (by decide) (by decide) (by decide)

/-- **A component name reads exactly when, trimmed, it is a spelling of the
component's name.** -/
theorem Component.parse_eq_ok_iff (s : String) (k : Component) :
    Component.parse s = .ok k ↔ Text.trim s ∈ k.spellings := by
  have hpc := upper_eq_name_iff (Text.trim s) .pc
  have hos := upper_eq_name_iff (Text.trim s) .os
  simp only [name] at hpc hos
  unfold Component.parse
  cases k with
  | pc =>
    by_cases h : Text.trim s ∈ Component.pc.spellings
    · simp [hpc.2 h, h]
    · simp only [hpc, h, if_false]
      split <;> simp
  | os =>
    by_cases h : Text.trim s ∈ Component.os.spellings
    · simp [hos.2 h, h]
    · simp only [hos, h, if_false]
      split <;> simp

/-- A full-width letter only looks like an ASCII one. -/
example : Component.parse " pC\t" = .ok .pc ∧ Component.parse "\uFF30c" = .error (.component "\uFF30c") :=
  ⟨rfl, rfl⟩

/-- A name that is no component's spelling is refused, trimmed, in its own case. -/
theorem Component.parse_refused {s : String} (h : ∀ k : Component, Text.trim s ∉ k.spellings) :
    Component.parse s = .error (.component (Text.trim s)) := by
  have hpc := upper_eq_name_iff (Text.trim s) .pc
  have hos := upper_eq_name_iff (Text.trim s) .os
  simp only [name] at hpc hos
  unfold Component.parse
  simp [hpc, hos, h .pc, h .os]

theorem Line.ofNumber_eq_ok_iff (n : Nat) (l : Line) : Line.ofNumber n = .ok l ↔ l.number = n :=
  ⟨number_ofNumber, fun h => h ▸ ofNumber_number l⟩

/-- The numeral of a line number, a single digit. -/
theorem Line.number_toList (l : Line) :
    (toString l.number).toList = [Char.ofNat (48 + l.number)] ∧ '1' ≤ Char.ofNat (48 + l.number) ∧
      Char.ofNat (48 + l.number) ≤ '9' ∧ (Char.ofNat (48 + l.number)).toNat - 48 = l.number := by
  cases l <;> decide

/-- **A line number given as text reads exactly when, trimmed, it is an
optional `+` and the line's numeral after any number of zeros.** -/
theorem Line.parse_eq_ok_iff (t : String) (l : Line) :
    Line.parse t = .ok l ↔ ∃ sign ∈ [[], ['+']], ∃ zeros,
      (Text.trim t).toList = sign ++ List.replicate zeros '0' ++ (toString l.number).toList := by
  obtain ⟨hnum, hlo, hhi, hval⟩ := number_toList l
  have hread : Text.readUnsigned 256 (Text.trim t) = .ok ((Char.ofNat (48 + l.number)).toNat - 48) ↔ _ :=
    Text.readUnsigned_eq_digit_iff ⟨hlo, hhi⟩ (by cases l <;> decide) (Text.trim t)
  rw [hval, ← hnum] at hread
  rw [← hread]
  -- the numeral reads as a byte, and the byte is the line's number
  cases hn : Text.readUnsigned 256 (Text.trim t) with
  | ok n =>
    simp only [Line.parse, hn, ofNumber_eq_ok_iff]
    exact ⟨fun h => h ▸ rfl, fun h => (Except.ok.inj h).symm⟩
  | error e => simp [Line.parse, hn]

example : Line.parse " +002 " = .ok .two := rfl

/-! ## Register addresses -/

/-- **A raw address reads exactly when the line is 1 or 2 and the name a
spelling of a component**, as that component's register on that line. -/
theorem RegisterKey.parse_eq_ok_iff (n : Nat) (s : String) (key : RegisterKey) :
    RegisterKey.parse n s = .ok key ↔
      ∃ l k, l.number = n ∧ Text.trim s ∈ k.spellings ∧ key = .activeLot l k := by
  unfold RegisterKey.parse
  cases hl : Line.ofNumber n with
  | error b =>
    simp only [bind, Except.bind]
    constructor
    · intro h
      cases h
    · rintro ⟨l, k, rfl, -, -⟩
      rw [Line.ofNumber_number] at hl
      cases hl
  | ok l =>
    cases hc : Component.parse s with
    | error b =>
      simp only [bind, Except.bind]
      constructor
      · intro h
        cases h
      · rintro ⟨l', k, -, hk, -⟩
        rw [(Component.parse_eq_ok_iff s k).2 hk] at hc
        cases hc
    | ok k =>
      simp only [bind, Except.bind, pure, Except.pure, Except.ok.injEq]
      have hln := Line.number_ofNumber hl
      constructor
      · rintro rfl
        exact ⟨l, k, hln, (Component.parse_eq_ok_iff s k).1 hc, rfl⟩
      · rintro ⟨l', k', hl', hk', rfl⟩
        have hk : k = k' := by
          have := (Component.parse_eq_ok_iff s k').2 hk'
          rw [hc] at this
          exact Except.ok.inj this
        have hline : l = l' := by
          rw [← hl', Line.ofNumber_number] at hl
          exact (Except.ok.inj hl).symm
        rw [hk, hline]

/-- A line other than 1 and 2 is refused by its decimal text, whatever the
name. -/
theorem RegisterKey.parse_badLine {n : Nat} (h1 : n ≠ 1) (h2 : n ≠ 2) (s : String) :
    RegisterKey.parse n s = .error (.line (toString n)) := by
  simp [RegisterKey.parse, Line.ofNumber, h1, h2, bind, Except.bind]

/-- On a good line, a name that is no component's spelling is refused,
trimmed, in its own case. -/
theorem RegisterKey.parse_badComponent {n : Nat} (hn : n = 1 ∨ n = 2) {s : String}
    (h : ∀ k : Component, Text.trim s ∉ k.spellings) :
    RegisterKey.parse n s = .error (.component (Text.trim s)) := by
  have hl : ∃ l, Line.ofNumber n = .ok l := by
    rcases hn with rfl | rfl
    · exact ⟨.one, rfl⟩
    · exact ⟨.two, rfl⟩
  obtain ⟨l, hl⟩ := hl
  simp [RegisterKey.parse, hl, Component.parse_refused h, bind, Except.bind]

/-- A refused address leaves the outcome as it was. -/
theorem Status.recordFailure_invalidAddress_outcome (s : Status) (b : BadAddress) (p : Option Phase)
    (now : Nat) : (s.recordFailure (.invalidAddress b) p now).outcome = s.outcome := by
  simp [Status.recordFailure, Failure.kind]

/-! ## Raw calls -/

section Calls

variable {σ : Type} (c : Controller σ)

/-- A raw address that reads is served as the typed one. -/
theorem Controller.exec_raw_of_parse {n : Nat} {s : String} {l : Line} {k : Component}
    (hl : l.number = n) (hk : Text.trim s ∈ k.spellings) (v : Nat) (st : Controller.State σ) :
    c.exec (.setRaw n s v) st = c.exec (.set l k v) st ∧ c.exec (.getRaw n s) st = c.exec (.get l k) st := by
  have hp : RegisterKey.parse n s = .ok (.activeLot l k) :=
    (RegisterKey.parse_eq_ok_iff n s _).2 ⟨l, k, hl, hk, rfl⟩
  exact ⟨by simp only [Controller.exec, hp], by simp only [Controller.exec, hp]⟩

/-- **Raw addresses are checked exactly, and served as the typed ones.** For
every line number and name: the address reads exactly when the line is 1 or 2
and the trimmed name a spelling of `PC` or `OS`, as that register; a bad line
is refused by its decimal text, and on a good line a bad name by its trimmed
text. A line number as text reads exactly when, trimmed, it is an optional
`+` and the line's numeral after any zeros. A raw write or read whose address
reads does what the typed one does; one whose address is refused sends nothing
to the gateway, answers false or nothing, and records one failure of that
address in no phase, which leaves the outcome as it was. -/
theorem rawAddresses_checked (n : Nat) (s : String) (v : Nat) (st : Controller.State σ) :
    (∀ key, RegisterKey.parse n s = .ok key ↔
      ∃ l k, l.number = n ∧ Text.trim s ∈ k.spellings ∧ key = .activeLot l k) ∧
    (n ≠ 1 ∧ n ≠ 2 → RegisterKey.parse n s = .error (.line (toString n))) ∧
    ((n = 1 ∨ n = 2) ∧ (∀ k : Component, Text.trim s ∉ k.spellings) →
      RegisterKey.parse n s = .error (.component (Text.trim s))) ∧
    (∀ t l, Line.parse t = .ok l ↔ ∃ sign ∈ [[], ['+']], ∃ zeros,
      (Text.trim t).toList = sign ++ List.replicate zeros '0' ++ (toString l.number).toList) ∧
    (∀ l k, l.number = n → Text.trim s ∈ k.spellings →
      c.exec (.setRaw n s v) st = c.exec (.set l k v) st ∧
        c.exec (.getRaw n s) st = c.exec (.get l k) st) ∧
    (∀ b, RegisterKey.parse n s = .error b →
      c.exec (.setRaw n s v) st =
          (.done false, { st with status := st.status.recordFailure (.invalidAddress b) none st.clock }) ∧
        c.exec (.getRaw n s) st =
          (.value none, { st with status := st.status.recordFailure (.invalidAddress b) none st.clock }) ∧
        (st.status.recordFailure (.invalidAddress b) none st.clock).outcome = st.status.outcome) := by
  refine ⟨RegisterKey.parse_eq_ok_iff n s, fun h => RegisterKey.parse_badLine h.1 h.2 s,
    fun h => RegisterKey.parse_badComponent h.1 h.2, Line.parse_eq_ok_iff,
    fun l k hl hk => c.exec_raw_of_parse hl hk v st, fun b hb => ?_⟩
  -- a refused address is rejected before any attempt
  refine ⟨by simp only [Controller.exec, hb, Controller.reject],
    by simp only [Controller.exec, hb, Controller.reject], ?_⟩
  exact Status.recordFailure_invalidAddress_outcome st.status b none st.clock

end Calls

end LotBridge
