import LotBridge.Endpoint
import LotBridge.Proofs.UnsignedNumerals

/-!
# Rendered endpoints read back

An endpoint read from a text has a host, without `/` (the path starts
there) and without `]` when it holds a colon (a bracketed host ends at the
first `]`, an unbracketed one has no colon), and a port from 1 to 65535
(`Endpoint.parse_readable`).

Rendering such an endpoint and reading the rendering gives the endpoint back,
as long as its host does not start with `[`: a host with a colon is rendered
bracketed and read inside the brackets, one without is read up to the colon
before the port (`Endpoint.parse_render`). The address a connection uses,
`host:port` without the scheme, reads back too, unless the host starts with a
blank and has no colon: reading trims the text first
(`Endpoint.parse_connectAddr`).

A host starting with `[` is one the reader takes from a text such as `[[a]`;
the renderer takes it as bracketed already and writes it bare, and the reader
refuses what it wrote.

## Main definitions

* `Endpoint.Readable`: what every endpoint read from a text satisfies.
* `Endpoint.ReadsBack`: what its renderings read back as.

## Main statements

* `Endpoint.parse_readable`, `Endpoint.parse_render`, `Endpoint.parse_connectAddr`.
* `Endpoint.endpoints_readBack`: rendered endpoints read back.
-/

namespace LotBridge

/-- Text whose first and last characters are no blanks is its own trimmed
form. -/
theorem Text.trimList_eq_self {cs : List Char} (hhead : ∀ c ∈ cs.head?, Text.isBlank c = false)
    (hlast : ∀ c ∈ cs.getLast?, Text.isBlank c = false) : Text.trimList cs = cs := by
  cases cs with
  | nil => rfl
  | cons c cs =>
    have hc : Text.isBlank c = false := hhead c rfl
    have hfront : (c :: cs).dropWhile Text.isBlank = c :: cs := by simp [hc]
    -- the reversed text starts with the last character
    obtain ⟨d, ds, hrev⟩ : ∃ d ds, (c :: cs).reverse = d :: ds := by
      cases h : (c :: cs).reverse with
      | nil => simp at h
      | cons d ds => exact ⟨d, ds, rfl⟩
    have hd : Text.isBlank d = false := by
      apply hlast
      rw [← List.head?_reverse, hrev]
      rfl
    unfold Text.trimList
    rw [hfront, hrev, List.dropWhile_cons, if_neg (by simp [hd]), ← hrev, List.reverse_reverse]

namespace Endpoint

/-! ## Scanning -/

/-- A text starts with a prefix exactly when it is the prefix and a rest. -/
theorem dropPrefix?_eq_some_iff (p : List Char) : ∀ (cs r : List Char), dropPrefix? p cs = some r ↔ cs = p ++ r := by
  induction p with
  | nil => intro cs r; simp [dropPrefix?]
  | cons x xs ih =>
    intro cs r
    cases cs with
    | nil => simp [dropPrefix?]
    | cons c cs =>
      by_cases hx : x = c
      · subst hx
        simp [dropPrefix?, ih]
      · simp [dropPrefix?, hx, Ne.symm hx]

/-- A text without a character of the prefix does not start with it. -/
theorem dropPrefix?_of_not_mem {p cs : List Char} {c : Char} (hp : c ∈ p) (hcs : c ∉ cs) :
    dropPrefix? p cs = none := by
  cases h : dropPrefix? p cs with
  | none => rfl
  | some r =>
    rw [dropPrefix?_eq_some_iff] at h
    exact absurd (h ▸ List.mem_append_left r hp) hcs

theorem hasInfix_of_not_mem {needle : List Char} {c : Char} (hn : c ∈ needle) :
    ∀ {cs : List Char}, c ∉ cs → hasInfix needle cs = false
  | [], _ => by
    cases needle with
    | nil => cases hn
    | cons _ _ => rfl
  | x :: xs, hcs => by
    have hx : dropPrefix? needle (x :: xs) = none := dropPrefix?_of_not_mem hn hcs
    have hxs : hasInfix needle xs = false := hasInfix_of_not_mem hn (fun h => hcs (List.mem_cons_of_mem x h))
    simp [hasInfix, hx, hxs]

theorem splitAtFirst_append {sep : Char} {a : List Char} (ha : sep ∉ a) (b : List Char) :
    splitAtFirst sep (a ++ sep :: b) = some (a, b) := by
  induction a with
  | nil => simp [splitAtFirst]
  | cons x xs ih =>
    have hx : x ≠ sep := fun h => ha (h ▸ List.mem_cons_self)
    have hxs : sep ∉ xs := fun h => ha (List.mem_cons_of_mem x h)
    simp [splitAtFirst, hx, ih hxs]

/-- Splitting at the first separator gives the text before it, without it, and the rest. -/
theorem splitAtFirst_eq_some {sep : Char} :
    ∀ {cs a b : List Char}, splitAtFirst sep cs = some (a, b) → cs = a ++ sep :: b ∧ sep ∉ a
  | [], a, b, h => by simp [splitAtFirst] at h
  | c :: cs, a, b, h => by
    by_cases hc : c = sep
    · subst hc
      simp [splitAtFirst] at h
      obtain ⟨rfl, rfl⟩ := h
      simp
    · simp only [splitAtFirst, hc, if_false] at h
      cases hrest : splitAtFirst sep cs with
      | none => simp [hrest] at h
      | some p =>
        obtain ⟨a', b'⟩ := p
        simp only [hrest, Option.map_some, Option.some.injEq, Prod.mk.injEq] at h
        obtain ⟨rfl, rfl⟩ := h
        obtain ⟨hcs, ha'⟩ := splitAtFirst_eq_some hrest
        refine ⟨by simp [hcs], ?_⟩
        simp only [List.mem_cons, not_or]
        exact ⟨Ne.symm hc, ha'⟩

theorem takeWhile_authority {a : List Char} (hslash : '/' ∉ a) : a.takeWhile (· ≠ '/') = a := by
  have hall : ∀ c ∈ a, decide (c ≠ '/') = true := by
    intro c hc
    simp only [ne_eq, decide_eq_true_eq]
    rintro rfl
    exact hslash hc
  simpa using @List.takeWhile_append_of_pos _ _ _ [] hall

theorem slash_not_mem_takeWhile : ∀ (l : List Char), '/' ∉ l.takeWhile (· ≠ '/')
  | [] => by simp
  | c :: cs => by
    by_cases hc : c = '/'
    · simp [hc]
    · have ih := slash_not_mem_takeWhile cs
      simp [hc] at ih ⊢
      exact ⟨Ne.symm hc, ih⟩

theorem map_ok {α β ε : Type} {f : α → β} {x : Except ε α} {b : β} (h : Except.map f x = .ok b) :
    ∃ a, x = .ok a ∧ f a = b := by
  cases x with
  | error e => cases h
  | ok a => exact ⟨a, rfl, Except.ok.inj h⟩

/-! ## Reading an authority -/

/-- A text of the scheme and an authority without `/` ending in a non-blank is read as
the authority. -/
theorem parse_scheme {a : List Char} (hslash : '/' ∉ a) (hne : a ≠ [])
    (hlast : ∀ c ∈ a.getLast?, Text.isBlank c = false) :
    parse (String.ofList ("opc.tcp://".toList ++ a)) = parseAuthority a := by
  have ht : Text.trimList ("opc.tcp://".toList ++ a) = "opc.tcp://".toList ++ a := by
    apply Text.trimList_eq_self
    · intro c hc
      simp at hc
      subst hc
      decide
    · intro c hc
      obtain ⟨x, hx⟩ := Option.isSome_iff_exists.1 (List.getLast?_isSome.2 hne)
      rw [List.getLast?_append, hx] at hc
      exact hlast c (hx ▸ hc)
  have hdrop : dropPrefix? "opc.tcp://".toList ("opc.tcp://".toList ++ a) = some a :=
    (dropPrefix?_eq_some_iff _ _ _).2 rfl
  have hinf : hasInfix "://".toList a = false := hasInfix_of_not_mem (c := '/') (by decide) hslash
  have hfull : ("opc.tcp://".toList ++ a).isEmpty = false := by simp
  simp only [parse, String.toList_ofList]
  rw [ht, hdrop, hfull]
  simp only [Bool.false_eq_true, if_false, Option.orElse_some, Option.getD_some, hinf,
    takeWhile_authority hslash]

/-- So is an authority alone, if it also starts with a non-blank. -/
theorem parse_bare {a : List Char} (hslash : '/' ∉ a) (hne : a ≠ [])
    (hhead : ∀ c ∈ a.head?, Text.isBlank c = false) (hlast : ∀ c ∈ a.getLast?, Text.isBlank c = false) :
    parse (String.ofList a) = parseAuthority a := by
  have ht : Text.trimList a = a := Text.trimList_eq_self hhead hlast
  have hopc : dropPrefix? "opc.tcp://".toList a = none := dropPrefix?_of_not_mem (c := '/') (by decide) hslash
  have htcp : dropPrefix? "tcp://".toList a = none := dropPrefix?_of_not_mem (c := '/') (by decide) hslash
  have hinf : hasInfix "://".toList a = false := hasInfix_of_not_mem (c := '/') (by decide) hslash
  have hfull : a.isEmpty = false := List.isEmpty_eq_false_iff.2 hne
  simp only [parse, String.toList_ofList]
  rw [ht, hopc, htcp, hfull]
  simp only [Bool.false_eq_true, if_false, Option.orElse_none, Option.getD_none, hinf,
    takeWhile_authority hslash]

theorem parseAuthority_bracketed {host : List Char} (hne : host ≠ []) (hb : ']' ∉ host) (p : List Char) :
    parseAuthority ('[' :: (host ++ ']' :: ':' :: p)) = (parsePort p).map (⟨String.ofList host, ·⟩) := by
  have hfull : host.isEmpty = false := List.isEmpty_eq_false_iff.2 hne
  simp only [parseAuthority, splitAtFirst_append hb, hfull]
  rfl

/-- An authority whose host neither starts with `[` nor holds a colon is read up to the
one colon before the port. -/
theorem parseAuthority_plain {host : List Char} (hne : host ≠ []) (hhead : host.head? ≠ some '[')
    (hcolon : ':' ∉ host) {p : List Char} (hp : ':' ∉ p) :
    parseAuthority (host ++ ':' :: p) = (parsePort p).map (⟨String.ofList host, ·⟩) := by
  obtain ⟨c, cs, rfl⟩ := List.exists_cons_of_ne_nil hne
  have hc : c ≠ '[' := fun h => hhead (by simp [h])
  have hcount : (c :: cs ++ ':' :: p).count ':' = 1 := by
    rw [List.count_append, List.count_eq_zero_of_not_mem hcolon, List.count_cons_self,
      List.count_eq_zero_of_not_mem hp]
  have hcontains : (c :: cs ++ ':' :: p).contains ':' = true := by simp
  have hsplit := splitAtFirst_append hcolon p
  rw [parseAuthority, if_pos hcontains, hcount, if_neg (by decide), hsplit]
  · rfl
  · -- the host does not start with a bracket
    intro rest heq
    exact hc (List.cons.inj heq).1

/-! ## Readable endpoints -/

/-- What every endpoint read from a text satisfies. -/
structure Readable (e : Endpoint) : Prop where
  host_ne : e.host.toList ≠ []
  slash : '/' ∉ e.host.toList
  bracket : ':' ∈ e.host.toList → ']' ∉ e.host.toList
  port_pos : 0 < e.port
  port_lt : e.port < 65536

theorem parsePort_ok {cs : List Char} {p : Nat} (h : parsePort cs = .ok p) : 0 < p ∧ p < 65536 := by
  unfold parsePort at h
  split at h
  · cases h
  · cases h
  · rename_i p' hzero hread
    cases h
    exact ⟨Nat.pos_of_ne_zero hzero, Text.readUnsigned_lt (by decide) hread⟩

theorem readable_of {host : List Char} {p : Nat} (hne : host ≠ []) (hslash : '/' ∉ host)
    (hbracket : ':' ∈ host → ']' ∉ host) (hp : 0 < p ∧ p < 65536) : Readable ⟨String.ofList host, p⟩ := by
  refine ⟨?_, ?_, ?_, hp.1, hp.2⟩ <;> simpa using ‹_›

theorem parseAuthority_readable {a : List Char} {e : Endpoint} (hslash : '/' ∉ a) (h : parseAuthority a = .ok e) :
    Readable e := by
  unfold parseAuthority at h
  split at h
  · rename_i rest
    split at h
    · cases h
    · rename_i host after hsplit
      obtain ⟨hrest, hb⟩ := splitAtFirst_eq_some hsplit
      have hslash' : '/' ∉ host := fun hm => hslash (by simp [hrest, hm])
      split at h
      · cases h
      · rename_i hne
        have hne' : host ≠ [] := by simpa using hne
        split at h
        · cases h
          exact readable_of hne' hslash' (fun _ => hb) ⟨by decide, by decide⟩
        · obtain ⟨port, hport, rfl⟩ := map_ok h
          exact readable_of hne' hslash' (fun _ => hb) (parsePort_ok hport)
        · cases h
  · rename_i cs _
    split at h
    · rename_i hcontains
      split at h
      · cases h
      · split at h
        · cases h
        · rename_i host p hsplit
          obtain ⟨hcs, hcolon⟩ := splitAtFirst_eq_some hsplit
          split at h
          · cases h
          · rename_i hne
            obtain ⟨port, hport, rfl⟩ := map_ok h
            exact readable_of (by simpa using hne) (fun hm => hslash (by simp [hcs, hm]))
              (fun hc => absurd hc hcolon) (parsePort_ok hport)
    · rename_i hcontains
      split at h
      · cases h
      · rename_i hne
        cases h
        exact readable_of (by simpa using hne) hslash (fun hc => absurd hc (by simpa using hcontains))
          ⟨by decide, by decide⟩

/-- **Every endpoint read from a text is readable.** -/
theorem parse_readable {s : String} {e : Endpoint} (h : parse s = .ok e) : Readable e := by
  simp only [parse] at h
  split at h
  · cases h
  · split at h
    · cases h
    · exact parseAuthority_readable (slash_not_mem_takeWhile _) h

/-! ## Rendering -/

/-- A digit of a decimal text is no colon, slash, bracket or blank. -/
theorem digit_facts {p : Nat} {c : Char} (h : c ∈ Nat.toDigits 10 p) :
    c ≠ ':' ∧ c ≠ '/' ∧ c ≠ ']' ∧ Text.isBlank c = false := by
  have hdigit : 48 ≤ c.val.toNat ∧ c.val.toNat ≤ 57 := by
    have := Nat.isDigit_of_mem_toDigits (by decide) (by decide) h
    simpa [Char.isDigit, UInt32.le_iff_toNat_le] using this
  have hnat : 48 ≤ c.toNat ∧ c.toNat ≤ 57 := hdigit
  refine ⟨?_, ?_, ?_, ?_⟩
  · rintro rfl
    exact absurd hnat (by decide)
  · rintro rfl
    exact absurd hnat (by decide)
  · rintro rfl
    exact absurd hnat (by decide)
  · simp only [Text.isBlank, Bool.or_eq_false_iff, Bool.and_eq_false_iff, decide_eq_false_iff_not]
    omega

theorem getLast?_digits (pre : List Char) (p : Nat) :
    ∀ c ∈ (pre ++ Nat.toDigits 10 p).getLast?, Text.isBlank c = false := by
  intro c hc
  obtain ⟨x, hx⟩ := Option.isSome_iff_exists.1 (List.getLast?_isSome.2 (Nat.toDigits_ne_nil (b := 10) (n := p)))
  rw [List.getLast?_append, hx] at hc
  have hcx : x = c := by simpa using hc
  subst hcx
  exact (digit_facts (List.mem_of_getLast? hx)).2.2.2

/-- The decimal text of a port reads back as the port. -/
theorem parsePort_digits {p : Nat} (hpos : 0 < p) (hlt : p < 65536) : parsePort (Nat.toDigits 10 p) = .ok p := by
  have hread : Text.readUnsigned 65536 (String.ofList (Nat.toDigits 10 p)) = .ok p := by
    rw [← Nat.toString_eq_ofList_toDigits]
    exact Text.readUnsigned_toString hlt
  unfold parsePort
  split
  · rename_i e he
    rw [hread] at he
    cases he
  · rename_i he
    rw [hread] at he
    cases he
    omega
  · rename_i p' hzero he
    rw [hread] at he
    cases he
    rfl

theorem connectAddr_bracketed {e : Endpoint} (hc : ':' ∈ e.host.toList) (hb : e.host.toList.head? ≠ some '[') :
    e.connectAddr.toList = '[' :: (e.host.toList ++ ']' :: ':' :: Nat.toDigits 10 e.port) := by
  simp [connectAddr, hc, hb, Nat.toString_eq_repr, Nat.toList_repr]

theorem connectAddr_plain {e : Endpoint} (hc : ':' ∉ e.host.toList) :
    e.connectAddr.toList = e.host.toList ++ ':' :: Nat.toDigits 10 e.port := by
  simp [connectAddr, hc, Nat.toString_eq_repr, Nat.toList_repr]

theorem connectAddr_digits (e : Endpoint) : ∃ pre, e.connectAddr.toList = pre ++ Nat.toDigits 10 e.port := by
  unfold connectAddr
  split
  · exact ⟨'[' :: (e.host.toList ++ [']', ':']), by simp [Nat.toString_eq_repr, Nat.toList_repr]⟩
  · exact ⟨e.host.toList ++ [':'], by simp [Nat.toString_eq_repr, Nat.toList_repr]⟩

/-- The address a connection uses has no `/` and ends with the port's last digit. -/
theorem connectAddr_text {e : Endpoint} (he : Readable e) :
    '/' ∉ e.connectAddr.toList ∧ e.connectAddr.toList ≠ [] ∧
      ∀ c ∈ e.connectAddr.toList.getLast?, Text.isBlank c = false := by
  obtain ⟨pre, hpre⟩ := connectAddr_digits e
  have hd : '/' ∉ Nat.toDigits 10 e.port := fun hm => (digit_facts hm).2.1 rfl
  refine ⟨?_, by simp [hpre, Nat.toDigits_ne_nil], by rw [hpre]; exact getLast?_digits pre e.port⟩
  unfold connectAddr
  split <;> simp [Nat.toString_eq_repr, Nat.toList_repr, he.slash, hd]

/-- The address of a readable endpoint whose host does not start with `[` is read back
as the endpoint. -/
theorem parseAuthority_connectAddr {e : Endpoint} (he : Readable e) (hb : e.host.toList.head? ≠ some '[') :
    parseAuthority e.connectAddr.toList = .ok e := by
  have hport := parsePort_digits he.port_pos he.port_lt
  by_cases hc : ':' ∈ e.host.toList
  · rw [connectAddr_bracketed hc hb, parseAuthority_bracketed he.host_ne (he.bracket hc), hport]
    simp [Except.map]
  · have hp : ':' ∉ Nat.toDigits 10 e.port := fun hm => (digit_facts hm).1 rfl
    rw [connectAddr_plain hc, parseAuthority_plain he.host_ne hb hc hp, hport]
    simp [Except.map]

/-- **A rendered endpoint reads back**, unless its host starts with `[`. -/
theorem parse_render {e : Endpoint} (he : Readable e) (hb : e.host.toList.head? ≠ some '[') :
    parse e.render = .ok e := by
  obtain ⟨hslash, hne, hlast⟩ := connectAddr_text he
  have hrender : e.render = String.ofList ("opc.tcp://".toList ++ e.connectAddr.toList) := by
    rw [← String.toList_append, String.ofList_toList]
    rfl
  rw [hrender, parse_scheme hslash hne hlast, parseAuthority_connectAddr he hb]

/-- **The address a connection uses reads back** too, unless the host starts with `[`, or
starts with a blank and holds no colon. -/
theorem parse_connectAddr {e : Endpoint} (he : Readable e) (hb : e.host.toList.head? ≠ some '[')
    (hstart : ':' ∈ e.host.toList ∨ ∀ c ∈ e.host.toList.head?, Text.isBlank c = false) :
    parse e.connectAddr = .ok e := by
  obtain ⟨hslash, hne, hlast⟩ := connectAddr_text he
  have hhead : ∀ c ∈ e.connectAddr.toList.head?, Text.isBlank c = false := by
    by_cases hc : ':' ∈ e.host.toList
    · rw [connectAddr_bracketed hc hb]
      intro c hc'
      obtain rfl : c = '[' := by simpa using hc'.symm
      decide
    · rw [connectAddr_plain hc]
      obtain ⟨x, xs, hx⟩ := List.exists_cons_of_ne_nil he.host_ne
      intro c hc'
      rw [hx] at hc'
      apply hstart.resolve_left hc
      rw [hx]
      simpa using hc'
  have h := parse_bare hslash hne hhead hlast
  rw [String.ofList_toList] at h
  rw [h, parseAuthority_connectAddr he hb]

/-! ## Reading back -/

/-- What the renderings of an endpoint read back as: the URL, the address a
connection uses unless it starts with a blank, and a host with a colon
rendered bracketed. -/
structure ReadsBack (e : Endpoint) : Prop where
  render : parse e.render = .ok e
  connectAddr : (':' ∈ e.host.toList ∨ ∀ c ∈ e.host.toList.head?, Text.isBlank c = false) →
    parse e.connectAddr = .ok e
  bracketed : ':' ∈ e.host.toList → e.connectAddr = "[" ++ e.host ++ "]:" ++ toString e.port

theorem connectAddr_of_colon {e : Endpoint} (hc : ':' ∈ e.host.toList) (hb : e.host.toList.head? ≠ some '[') :
    e.connectAddr = "[" ++ e.host ++ "]:" ++ toString e.port := by
  simp [connectAddr, hc, hb]

/-- **Rendered endpoints read back.** Every endpoint read from a text has a
nonempty host and a port from 1 to 65535; when its host does not start with
`[`, its rendering reads back as it, so does the address a connection uses
unless the host starts with a blank and holds no colon, and a host with a
colon is rendered bracketed. -/
theorem endpoints_readBack {s : String} {e : Endpoint} (h : parse s = .ok e) :
    e.host ≠ "" ∧ 0 < e.port ∧ e.port ≤ 65535 ∧ (e.host.toList.head? ≠ some '[' → e.ReadsBack) := by
  have he := parse_readable h
  refine ⟨fun hempty => he.host_ne (by simp [hempty]), he.port_pos, by have := he.port_lt; omega,
    fun hb => ⟨parse_render he hb, parse_connectAddr he hb, fun hc => connectAddr_of_colon hc hb⟩⟩

theorem endpoints_readBack_onLoopback :
    parse "tcp://[::1]:7000" = .ok ⟨"::1", 7000⟩ ∧
      ((⟨"::1", 7000⟩ : Endpoint).host ≠ "" ∧ 0 < (⟨"::1", 7000⟩ : Endpoint).port ∧
        (⟨"::1", 7000⟩ : Endpoint).port ≤ 65535 ∧
        ((⟨"::1", 7000⟩ : Endpoint).host.toList.head? ≠ some '[' → (⟨"::1", 7000⟩ : Endpoint).ReadsBack)) :=
  ⟨rfl, @endpoints_readBack "tcp://[::1]:7000" _ rfl⟩

/-- A host starting with `[`, read from `[[a]`, is rendered bare and its
rendering is refused; a host starting with a blank, read from `[ a]`, loses
the blank when the address a connection uses is read. -/
theorem render_unreadable_onBracketHost :
    parse "[[a]" = .ok ⟨"[a", 4840⟩ ∧ parse (render ⟨"[a", 4840⟩) = .error .missingBracket ∧
      parse "[ a]" = .ok ⟨" a", 4840⟩ ∧ parse (connectAddr ⟨" a", 4840⟩) = .ok ⟨"a", 4840⟩ :=
  ⟨rfl, rfl, rfl, rfl⟩

end Endpoint

end LotBridge
