import LotBridge.Proofs.TomlParsedValues
import LotBridge.Proofs.TomlFloats
import LotBridge.Proofs.TomlDocuments

/-!
# Values written inline read back

Every readable value whose tables hold each key once is read back from its
inline text: strings, integers, floats, booleans and date-times, arrays of
them and inline tables, nested to any depth, each key in whichever form
`keyText` chose for it. A float comes back as some float, since its shortest
text need not spell the same double, so values are compared with their floats
forgotten (`Value.blur`). The trees read hold leaves in their scalars
(`Tree.Regular`), as the reader only ever makes such.

The value reader is driven by fuel: one unit per array element, per pair of
an inline table and per level of nesting, so a fuel above the length of the
text is enough.

## Main definitions

* `Value.blur`: a value with its floats forgotten.
* `Tree.Regular`, `Tree.ReadsAs`: the trees a written value reads back as.
* `Reader.Takes`: a reader that reads a given text off the front.

## Main statements

* `Reader.simpleKey_keyText`, `Reader.dottedKey_keyPath`: written keys read back.
* `Reader.value_readBack`: written values read back.
-/

namespace LotBridge.Toml

open Reader

/-! ## Values up to their floats -/

mutual

/-- The value with every float replaced by zero: what is left of a value once
the digits of its floats are forgotten. -/
def Value.blur : Value → Value
  | .float _ => .float (Float.ofNat 0)
  | .array items => .array (Value.blurItems items)
  | .table entries => .table (Value.blurEntries entries)
  | v => v

/-- Array elements with their floats forgotten. -/
def Value.blurItems : List Value → List Value
  | [] => []
  | v :: rest => v.blur :: Value.blurItems rest

/-- Table entries with their floats forgotten. -/
def Value.blurEntries : List (String × Value) → List (String × Value)
  | [] => []
  | (k, v) :: rest => (k, v.blur) :: Value.blurEntries rest

end

namespace Value

theorem blurItems_eq_map (items : List Value) : blurItems items = items.map blur := by
  induction items with
  | nil => rfl
  | cons v rest ih => simp [blurItems, ih]

theorem blurEntries_eq_map (es : List (String × Value)) :
    blurEntries es = es.map fun kv => (kv.1, kv.2.blur) := by
  induction es with
  | nil => rfl
  | cons e rest ih =>
    obtain ⟨k, v⟩ := e
    simp [blurEntries, ih]

@[simp] theorem blur_array (items : List Value) : (Value.array items).blur = .array (items.map blur) := by
  simp [blur, blurItems_eq_map]

@[simp] theorem blur_table (es : List (String × Value)) :
    (Value.table es).blur = .table (es.map fun kv => (kv.1, kv.2.blur)) := by
  simp [blur, blurEntries_eq_map]

/-- Whether a value stands alone: neither an array nor a table. -/
def isLeaf : Value → Bool
  | .array _ | .table _ => false
  | _ => true

end Value

/-! ## Trees a written value reads back as -/

mutual

/-- A tree as the value reader makes it: scalars holding leaves, and arrays
and tables of such trees. Arrays of tables are made by headers only. -/
def Tree.Regular : Tree → Prop
  | .scalar v _ => v.isLeaf = true
  | .array items _ => Tree.RegularItems items
  | .table _ entries _ => Tree.RegularEntries entries
  | .tables _ => False

/-- Array elements that are regular trees. -/
def Tree.RegularItems : List Tree → Prop
  | [] => True
  | t :: rest => t.Regular ∧ Tree.RegularItems rest

/-- Table entries holding regular trees. -/
def Tree.RegularEntries : List Entry → Prop
  | [] => True
  | (_, _, t) :: rest => t.Regular ∧ Tree.RegularEntries rest

end

namespace Tree

theorem regularItems_iff {items : List Tree} : RegularItems items ↔ ∀ t ∈ items, t.Regular := by
  induction items with
  | nil => simp [RegularItems]
  | cons t rest ih => simp [RegularItems, ih]

theorem regularEntries_iff {E : List Entry} : RegularEntries E ↔ ∀ e ∈ E, e.2.2.Regular := by
  induction E with
  | nil => simp [RegularEntries]
  | cons e rest ih =>
    obtain ⟨k, ks, t⟩ := e
    simp [RegularEntries, ih]

@[simp] theorem regular_array (items : List Tree) (sp : Span) :
    (Tree.array items sp).Regular ↔ ∀ t ∈ items, t.Regular := by
  simp only [Regular, regularItems_iff]

@[simp] theorem regular_table (kind : TableKind) (E : List Entry) (sp : Option Span) :
    (Tree.table kind E sp).Regular ↔ ∀ e ∈ E, e.2.2.Regular := by
  simp only [Regular, regularEntries_iff]

@[simp] theorem not_regular_tables (items : List Tree) : ¬ (Tree.tables items).Regular :=
  fun h => h

/-- A tree read back as a value: the same value once floats are forgotten,
with leaves in its scalars. -/
def ReadsAs (t : Tree) (v : Value) : Prop := t.toValue.blur = v.blur ∧ t.Regular

theorem readsAs_scalar {v : Value} (hv : v.isLeaf = true) (sp : Span) : (Tree.scalar v sp).ReadsAs v :=
  ⟨rfl, hv⟩

theorem readsAs_float (f g : Float) (sp : Span) : (Tree.scalar (.float g) sp).ReadsAs (.float f) :=
  ⟨rfl, rfl⟩

/-- Elements read back one by one. -/
def ItemsReadAs (items : List Tree) (vs : List Value) : Prop :=
  items.map (fun t => t.toValue.blur) = vs.map Value.blur ∧ ∀ t ∈ items, t.Regular

/-- Entries read back one by one, under the same keys. -/
def EntriesReadAs (E : List Entry) (es : List (String × Value)) : Prop :=
  E.map (fun e => (e.1, e.2.2.toValue.blur)) = es.map (fun kv => (kv.1, kv.2.blur)) ∧
    ∀ e ∈ E, e.2.2.Regular

theorem itemsReadAs_nil : ItemsReadAs [] [] := ⟨rfl, by simp⟩

theorem ItemsReadAs.cons {t : Tree} {v : Value} {items : List Tree} {vs : List Value} (ht : t.ReadsAs v)
    (h : ItemsReadAs items vs) : ItemsReadAs (t :: items) (v :: vs) :=
  ⟨by simp [ht.1, h.1], by simpa using ⟨ht.2, h.2⟩⟩

theorem entriesReadAs_nil : EntriesReadAs [] [] := ⟨rfl, by simp⟩

theorem EntriesReadAs.cons {k : String} {ks : Span} {t : Tree} {v : Value} {E : List Entry}
    {es : List (String × Value)} (ht : t.ReadsAs v) (h : EntriesReadAs E es) :
    EntriesReadAs ((k, ks, t) :: E) ((k, v) :: es) :=
  ⟨by simp [ht.1, h.1], fun e he => (List.mem_cons.1 he).elim (fun h' => h' ▸ ht.2) (h.2 e)⟩

theorem readsAs_array {items : List Tree} {vs : List Value} (h : ItemsReadAs items vs) (sp : Span) :
    (Tree.array items sp).ReadsAs (.array vs) := by
  refine ⟨?_, (regular_array items sp).2 h.2⟩
  simp only [toValue_array, Value.blur_array, List.map_map]
  exact congrArg Value.array h.1

theorem readsAs_table {E : List Entry} {es : List (String × Value)} (h : EntriesReadAs E es)
    (kind : TableKind) (sp : Option Span) : (Tree.table kind E sp).ReadsAs (.table es) := by
  refine ⟨?_, (regular_table kind E sp).2 h.2⟩
  simp only [toValue_table, Value.blur_table, List.map_map]
  exact congrArg Value.table h.1

end Tree

namespace Reader

/-! ## Keys in every form -/

theorem isBasicChar_of_shape {s : String} (hc : (StringShape.of s).control = false)
    (hb : (StringShape.of s).backslash = false) (hd : (StringShape.of s).doubles = 0)
    (hn : (StringShape.of s).newline = false) : ∀ c ∈ s.toList, isBasicChar c = true := by
  have hq : '"' ∉ s.toList := not_mem_of_longestRun hd
  intro c hmem
  exact (shown_of_control hc c hmem).elim (fun h => absurd (h ▸ hmem) (not_mem_of_newline hn))
    fun h => isBasicChar_of_shown h (fun e => hq (e ▸ hmem)) (fun e => not_mem_of_backslash hb (e ▸ hmem))

theorem isLiteralChar_of_shape {s : String} (hc : (StringShape.of s).control = false)
    (hs : (StringShape.of s).singles = 0) (hn : (StringShape.of s).newline = false) :
    ∀ c ∈ s.toList, isLiteralChar c = true := by
  have hq : '\'' ∉ s.toList := not_mem_of_longestRun hs
  intro c hmem
  exact (shown_of_control hc c hmem).elim (fun h => absurd (h ▸ hmem) (not_mem_of_newline hn))
    fun h => isLiteralChar_of_shown h (fun e => hq (e ▸ hmem))

theorem bareKey_of_all {k : String}
    (h : (!k.isEmpty && k.toList.all fun c => c.isAlphanum || c = '_' || c = '-') = true) : BareKey k := by
  simp only [Bool.and_eq_true, Bool.not_eq_true', List.all_eq_true] at h
  refine ⟨?_, fun c hc => by simpa [isBareChar] using h.2 c hc⟩
  simpa [String.isEmpty_iff] using h.1

/-- The basic string of a key closes at its quote. -/
theorem simpleKey_basic {cs : List Char} (hcs : ∀ c ∈ cs, isBasicChar c = true) (t : List Char) (off : Nat) :
    ∃ off', simpleKey ⟨'"' :: (cs ++ '"' :: t), off⟩ = .ok ((String.ofList cs, ⟨off, off'⟩), ⟨t, off'⟩) := by
  obtain ⟨off', h⟩ := basicBody_plain cs hcs [] t ((cs ++ '"' :: t).length + 1) (off + 1) (by simp)
  refine ⟨off', ?_⟩
  simp only [simpleKey, bind_apply, offset, peek, get_apply, ok_bind, pure_apply, List.head?_cons, bump_cons, ahead,
    show '"'.utf8Size = 1 from rfl, h, List.reverse_nil, List.nil_append]

/-- The literal string of a key closes at its quote. -/
theorem simpleKey_literal {cs : List Char} (hcs : ∀ c ∈ cs, isLiteralChar c = true) (t : List Char) (off : Nat) :
    ∃ off', simpleKey ⟨'\'' :: (cs ++ '\'' :: t), off⟩ = .ok ((String.ofList cs, ⟨off, off'⟩), ⟨t, off'⟩) := by
  obtain ⟨off', h⟩ := literalBody_plain hcs t (off + 1)
  refine ⟨off', ?_⟩
  simp only [simpleKey, bind_apply, offset, peek, get_apply, ok_bind, pure_apply, List.head?_cons, bump_cons,
    show '\''.utf8Size = 1 from rfl, h]

/-- An escaped key closes at its quote. -/
theorem simpleKey_escaped (cs t : List Char) (off : Nat) :
    ∃ off', simpleKey ⟨'"' :: (cs.flatMap (fun c => (escapeChar false c).toList) ++ '"' :: t), off⟩ =
      .ok ((String.ofList cs, ⟨off, off'⟩), ⟨t, off'⟩) := by
  obtain ⟨off', h⟩ := basicBody_escaped cs [] t
    ((cs.flatMap (fun c => (escapeChar false c).toList) ++ '"' :: t).length + 1) (off + 1) (by
      have := length_le_flatMap_escapeChar false cs
      simp only [List.length_append, List.length_cons]; omega)
  refine ⟨off', ?_⟩
  simp only [simpleKey, bind_apply, offset, peek, get_apply, ok_bind, pure_apply, List.head?_cons, bump_cons, ahead,
    show '"'.utf8Size = 1 from rfl, h, List.reverse_nil, List.nil_append]

/-- A key is read back in whichever form it was written. -/
theorem simpleKey_keyText (k : String) {x : Char} (hx : isBareChar x = false) (r : List Char) (off : Nat) :
    ∃ sp off', simpleKey ⟨(keyText k).toList ++ x :: r, off⟩ = .ok ((k, sp), ⟨x :: r, off'⟩) := by
  have hk : String.ofList k.toList = k := String.ofList_toList
  unfold keyText
  dsimp only
  split_ifs with hbare hbasic hlit
  · exact ⟨_, _, simpleKey_bare (bareKey_of_all hbare) hx r off⟩
  · simp only [Bool.and_eq_true, Bool.not_eq_true', decide_eq_true_eq] at hbasic
    obtain ⟨⟨⟨hc, hb⟩, hd⟩, hn⟩ := hbasic
    obtain ⟨off', h⟩ := simpleKey_basic (isBasicChar_of_shape hc hb hd hn) (x :: r) off
    refine ⟨⟨off, off'⟩, off', ?_⟩
    simpa [String.toList_append, hk] using h
  · simp only [Bool.and_eq_true, Bool.not_eq_true', decide_eq_true_eq] at hlit
    obtain ⟨⟨hc, hs⟩, hn⟩ := hlit
    obtain ⟨off', h⟩ := simpleKey_literal (isLiteralChar_of_shape hc hs hn) (x :: r) off
    refine ⟨⟨off, off'⟩, off', ?_⟩
    simpa [String.toList_append, hk] using h
  · obtain ⟨off', h⟩ := simpleKey_escaped k.toList (x :: r) off
    refine ⟨⟨off, off'⟩, off', ?_⟩
    simpa [String.toList_append, String.toList_join, List.flatMap_map, hk] using h

/-- What a written key starts with: a key character or a quote. -/
def KeyStart (c : Char) : Prop := isBareChar c = true ∨ c = '"' ∨ c = '\''

theorem KeyStart.ne {c : Char} (h : KeyStart c) :
    isBlankChar c = false ∧ c ≠ '#' ∧ c ≠ '[' ∧ c ≠ '\n' ∧ c ≠ '\r' ∧ c ≠ '.' := by
  rcases h with h | rfl | rfl
  · refine ⟨blank_of_bare h, ?_⟩
    refine ⟨?_, ?_, ?_, ?_, ?_⟩ <;> rintro rfl <;> revert h <;> decide
  · decide
  · decide

theorem keyText_head (k : String) : ∃ c cs, (keyText k).toList = c :: cs ∧ KeyStart c := by
  unfold keyText
  dsimp only
  split_ifs with hbare
  · obtain ⟨c, cs, hc⟩ := List.exists_cons_of_ne_nil (bareKey_of_all hbare).1
    exact ⟨c, cs, hc, .inl ((bareKey_of_all hbare).2 c (by simp [hc]))⟩
  · exact ⟨'"', k.toList ++ ['"'], by simp [String.toList_append], .inr (.inl rfl)⟩
  · exact ⟨'\'', k.toList ++ ['\''], by simp [String.toList_append], .inr (.inr rfl)⟩
  · exact ⟨'"', (String.join (k.toList.map (escapeChar false))).toList ++ ['"'], by simp [String.toList_append],
      .inr (.inl rfl)⟩

theorem blanks_lead {lead : List Char} (hl : ∀ c ∈ lead, isBlankChar c = true) {r : List Char}
    (hr : ∀ x ∈ r.head?, isBlankChar x = false) (off : Nat) :
    ∃ off', blanks ⟨lead ++ r, off⟩ = .ok ((), ⟨r, off'⟩) := by
  have htake : (lead ++ r).takeWhile isBlankChar = lead := by
    rw [List.takeWhile_append_of_pos hl]
    cases r with
    | nil => simp
    | cons x r => simp [hr x rfl]
  refine ⟨off + byteLength lead, ?_⟩
  simp only [blanks, takeWhile, bind_apply, htake, List.drop_left, ok_bind, pure_apply]

/-- The keys after the first, each after a dot, are read up to what ends the
path, whatever form each was written in. -/
theorem moreKeys_keyText {x : Char} (hx : KeyEnd x) (r : List Char) :
    ∀ (ks : List String) (fuel off : Nat), ks.length < fuel →
      ∃ keys off', moreKeys fuel ⟨ks.flatMap (fun k => '.' :: (keyText k).toList) ++ x :: r, off⟩ =
        .ok (keys, ⟨x :: r, off'⟩) ∧ names keys = ks
  | [], fuel, off, hfuel => by
    obtain ⟨f, rfl⟩ : ∃ f, fuel = f + 1 := ⟨fuel - 1, by simp at hfuel; omega⟩
    refine ⟨[], off, ?_, rfl⟩
    have hdot : (x :: r).head? ≠ some '.' := by simpa using hx.2.2
    rw [moreKeys, bind_apply, Declines.attempt ?hd]
    · rfl
    case hd =>
      refine Declines.bind_ok rfl ?_
      simp only [List.flatMap_nil, List.nil_append, if_neg hdot]
      exact (declines_decline _ _ _).bind _
  | k :: ks, fuel, off, hfuel => by
    obtain ⟨f, rfl⟩ : ∃ f, fuel = f + 1 := ⟨fuel - 1, by simp at hfuel; omega⟩
    -- after the key comes a dot or the end of the path
    obtain ⟨y, r', hyr, hy⟩ : ∃ y r', ks.flatMap (fun k => '.' :: (keyText k).toList) ++ x :: r = y :: r' ∧
        isBareChar y = false ∧ isBlankChar y = false := by
      cases ks with
      | nil => exact ⟨x, r, rfl, hx.1, hx.2.1⟩
      | cons k' ks' =>
        exact ⟨'.', (keyText k').toList ++ (ks'.flatMap (fun k => '.' :: (keyText k).toList) ++ x :: r),
          by simp, rfl, rfl⟩
    obtain ⟨sp, off₁, hkey⟩ := simpleKey_keyText k hy.1 r' (off + 1)
    obtain ⟨keys, off', hmore, hnames⟩ := moreKeys_keyText hx r ks f off₁ (by simp at hfuel; omega)
    refine ⟨(k, sp) :: keys, off', ?_, by simp [names, ← hnames]⟩
    obtain ⟨c, cs, hc, hck⟩ := keyText_head k
    rw [moreKeys, bind_apply]
    simp only [List.flatMap_cons, List.cons_append, List.append_assoc]
    rw [hyr, @attempt_ok _ _ _ ⟨y :: r', off₁⟩ (k, sp) ?hb]
    · simp only [bind_apply, ← hyr, hmore, ok_bind, pure_apply]
    case hb =>
      have hk0 : ∀ z ∈ ((keyText k).toList ++ y :: r').head?, isBlankChar z = false := by
        rw [hc]
        simpa using hck.ne.1
      simp only [bind_apply, peek, get_apply, ok_bind, pure_apply, List.head?_cons, if_true, bump_cons,
        show '.'.utf8Size = 1 from rfl]
      rw [blanks_of_head (c := ⟨(keyText k).toList ++ y :: r', off + 1⟩) hk0, ok_bind, hkey, ok_bind,
        blanks_of_head (c := ⟨y :: r', off₁⟩) (by simpa using hy.2)]
      rfl

theorem toList_intercalate (sep k : String) (ks : List String) :
    (sep.intercalate (k :: ks)).toList = k.toList ++ ks.flatMap (fun k => sep.toList ++ k.toList) := by
  induction ks generalizing k with
  | nil => simp
  | cons k' ks ih => simp [String.intercalate_cons_cons, ih]

/-- A dotted path of keys, each in whichever form it was written, is read up
to what ends it. -/
theorem dottedKey_keyPath {path : List String} (hne : path ≠ []) {x : Char} (hx : KeyEnd x) (r : List Char)
    (off : Nat) :
    ∃ keys off', dottedKey ⟨(".".intercalate (path.map keyText)).toList ++ x :: r, off⟩ =
      .ok (keys, ⟨x :: r, off'⟩) ∧ names keys = path := by
  obtain ⟨k, ks, rfl⟩ := List.exists_cons_of_ne_nil hne
  obtain ⟨y, r', hyr, hy⟩ : ∃ y r', ks.flatMap (fun k => '.' :: (keyText k).toList) ++ x :: r = y :: r' ∧
      isBareChar y = false ∧ isBlankChar y = false := by
    cases ks with
    | nil => exact ⟨x, r, rfl, hx.1, hx.2.1⟩
    | cons k' ks' =>
      exact ⟨'.', (keyText k').toList ++ (ks'.flatMap (fun k => '.' :: (keyText k).toList) ++ x :: r),
        by simp, rfl, rfl⟩
  obtain ⟨sp, off₁, hkey⟩ := simpleKey_keyText k hy.1 r' off
  have hlen : ks.length ≤ (ks.flatMap fun k => '.' :: (keyText k).toList).length := by
    simp
  obtain ⟨keys, off', hmore, hnames⟩ := moreKeys_keyText hx r ks
    (((ks.flatMap fun k => '.' :: (keyText k).toList) ++ x :: r).length + 1) off₁
    (by simp only [List.length_append, List.length_cons]; omega)
  refine ⟨(k, sp) :: keys, off', ?_, by simp [names, ← hnames]⟩
  obtain ⟨c, cs, hc, hck⟩ := keyText_head k
  have hk0 : ∀ z ∈ ((keyText k).toList ++ y :: r').head?, isBlankChar z = false := by
    rw [hc]
    simpa using hck.ne.1
  have htext : (".".intercalate ((k :: ks).map keyText)).toList ++ x :: r =
      (keyText k).toList ++ y :: r' := by
    rw [List.map_cons, toList_intercalate, List.append_assoc, ← hyr, List.flatMap_map]
    rfl
  rw [htext]
  refine within_ok ?_
  simp only [bind_apply]
  rw [blanks_of_head (c := ⟨(keyText k).toList ++ y :: r', off⟩) hk0, ok_bind, hkey, ok_bind,
    blanks_of_head (c := ⟨y :: r', off₁⟩) (by simpa using hy.2), ok_bind]
  simp only [ahead, bind_apply, get_apply, ok_bind, ← hyr, hmore, pure_apply]

/-- A key before ` = `, after blanks, is read alone, with the blank after it. -/
theorem dottedKey_keyPair {lead : List Char} (hl : ∀ c ∈ lead, isBlankChar c = true) (k : String)
    (r : List Char) (off : Nat) :
    ∃ sp off', dottedKey ⟨lead ++ (keyText k).toList ++ ' ' :: '=' :: r, off⟩ = .ok ([(k, sp)], ⟨'=' :: r, off'⟩) := by
  obtain ⟨c, cs, hc, hck⟩ := keyText_head k
  have hk0 : ∀ z ∈ ((keyText k).toList ++ ' ' :: '=' :: r).head?, isBlankChar z = false := by
    rw [hc]
    simpa using hck.ne.1
  obtain ⟨off₀, hlead⟩ := blanks_lead hl hk0 off
  obtain ⟨sp, off₁, hkey⟩ := simpleKey_keyText k (x := ' ') rfl ('=' :: r) off₀
  obtain ⟨keys, off', hmore, hnames⟩ := moreKeys_keyText (x := '=') ⟨rfl, rfl, by decide⟩ r []
    (('=' :: r).length + 1) (off₁ + 1) (by simp)
  have hkeys : keys = [] := by simpa [names] using hnames
  subst hkeys
  rw [List.flatMap_nil, List.nil_append] at hmore
  refine ⟨sp, off', ?_⟩
  refine within_ok ?_
  simp only [bind_apply]
  rw [List.append_assoc, hlead, ok_bind, hkey, ok_bind, blanks_space (r := '=' :: r) (by simp [isBlankChar]), ok_bind]
  simp only [ahead, bind_apply, get_apply, ok_bind, hmore, pure_apply]


/-! ## Blank lines -/

/-- A character where blank lines stop: no blank, no comment and no line
break. -/
def LineFree (x : Char) : Prop := isBlankChar x = false ∧ x ≠ '#' ∧ x ≠ '\n' ∧ x ≠ '\r'

instance : DecidablePred LineFree := fun _ => inferInstanceAs (Decidable (_ ∧ _))

theorem comment?_of_ne {x : Char} (hx : x ≠ '#') (r : List Char) (off : Nat) :
    comment? ⟨x :: r, off⟩ = .ok (false, ⟨x :: r, off⟩) := by
  simp only [comment?, bind_apply, peek, get_apply, ok_bind, pure_apply, List.head?_cons, Option.some.injEq, hx,
    if_false]

theorem newline?_of_ne {x : Char} (h₁ : x ≠ '\n') (h₂ : x ≠ '\r') (r : List Char) (off : Nat) :
    newline? ⟨x :: r, off⟩ = .ok (false, ⟨x :: r, off⟩) := by
  simp only [newline?, bind_apply, ahead, get_apply, ok_bind, pure_apply]
  generalize hT : x :: r = T
  have hT' := hT
  split
  · exact absurd (List.cons.inj hT').1 h₁
  · exact absurd (List.cons.inj hT').1 h₂
  · rfl

theorem blankLinesFor_stay {x : Char} (hx : LineFree x) (r : List Char) (fuel off : Nat) :
    blankLinesFor fuel ⟨x :: r, off⟩ = .ok ((), ⟨x :: r, off⟩) := by
  cases fuel with
  | zero => rfl
  | succ fuel =>
    simp only [blankLinesFor, bind_apply, offset, get_apply, ok_bind, pure_apply,
      blanks_of_head (c := ⟨x :: r, off⟩) (by simpa using hx.1), comment?_of_ne hx.2.1,
      newline?_of_ne hx.2.2.1 hx.2.2.2, if_true]

theorem blankLines_stay {x : Char} (hx : LineFree x) (r : List Char) (off : Nat) :
    blankLines ⟨x :: r, off⟩ = .ok ((), ⟨x :: r, off⟩) := by
  simp only [blankLines, bind_apply, ahead, get_apply, ok_bind, pure_apply, blankLinesFor_stay hx]

theorem blankLines_space {x : Char} (hx : LineFree x) (r : List Char) (off : Nat) :
    blankLines ⟨' ' :: x :: r, off⟩ = .ok ((), ⟨x :: r, off + 1⟩) := by
  simp only [blankLines, bind_apply, ahead, get_apply, ok_bind, pure_apply, List.length_cons]
  rw [blankLinesFor]
  simp only [bind_apply, offset, get_apply, ok_bind, pure_apply, blanks_space (r := x :: r) (by simpa using hx.1),
    comment?_of_ne hx.2.1, newline?_of_ne hx.2.2.1 hx.2.2.2]
  rw [if_neg (by omega)]
  exact blankLinesFor_stay hx r _ _

/-! ## Where a value cannot start -/

/-- The value reader declines at blanks, comments, line breaks and the
characters that end a value. -/
theorem value_declines {x : Char} (hx : x = ' ' ∨ x = '\t' ∨ x = '#' ∨ x = '\n' ∨ x = '\r' ∨ x = ',' ∨ x = ']')
    (fuel : Nat) (r : List Char) (off : Nat) : Declines (value (fuel + 1)) ⟨x :: r, off⟩ := by
  rcases hx with rfl | rfl | rfl | rfl | rfl | rfl | rfl <;> exact ⟨_, rfl, rfl⟩

/-- A value read up to what ends it was written with a first character where
blank lines stop. -/
theorem value_head {fuel : Nat} {s t : List Char} {y : Char} (hy : EndChar y) {off : Nat} {p : Tree × Cursor}
    (h : value fuel ⟨s ++ y :: t, off⟩ = .ok p) : ∃ x r, s = x :: r ∧ LineFree x := by
  obtain ⟨f, rfl⟩ : ∃ f, fuel = f + 1 := by
    cases fuel with
    | zero =>
      have hzero : value 0 ⟨s ++ y :: t, off⟩ = .error ⟨off, none, [], none, false⟩ := rfl
      rw [hzero] at h
      cases h
    | succ f => exact ⟨f, rfl⟩
  have hend : y = ' ' ∨ y = '\t' ∨ y = '#' ∨ y = '\n' ∨ y = '\r' ∨ y = ',' ∨ y = ']' := by
    unfold EndChar at hy
    rcases hy with h | h | h | h <;> simp [h]
  cases s with
  | nil =>
    obtain ⟨e, he, -⟩ := value_declines hend f t off
    rw [List.nil_append, he] at h
    cases h
  | cons x r =>
    refine ⟨x, r, rfl, ?_⟩
    by_contra hfree
    have hx : x = ' ' ∨ x = '\t' ∨ x = '#' ∨ x = '\n' ∨ x = '\r' ∨ x = ',' ∨ x = ']' := by
      simp only [LineFree, isBlankChar, Bool.or_eq_false_iff, decide_eq_false_iff_not, ne_eq, not_and_or,
        not_not] at hfree
      tauto
    obtain ⟨e, he, -⟩ := value_declines hx f (r ++ y :: t) off
    rw [List.cons_append, he] at h
    cases h

theorem value_bracket (fuel : Nat) (r : List Char) (off : Nat) :
    value (fuel + 1) ⟨'[' :: r, off⟩ = array fuel ⟨'[' :: r, off⟩ := rfl

theorem value_brace (fuel : Nat) (r : List Char) (off : Nat) :
    value (fuel + 1) ⟨'\x7b' :: r, off⟩ = inlineTable fuel ⟨'\x7b' :: r, off⟩ := rfl

/-! ## Arrays -/

theorem array_empty (fuel : Nat) (t : List Char) (off : Nat) :
    array (fuel + 1 + 1) ⟨'[' :: ']' :: t, off⟩ = .ok (.array [] ⟨off, off + 1 + 1⟩, ⟨t, off + 1 + 1⟩) := by
  have hfree : LineFree ']' := by decide
  rw [array]
  simp only [bind_apply, offset, get_apply, ok_bind, pure_apply, bump_cons, show '['.utf8Size = 1 from rfl]
  rw [Declines.attempt ?first]
  · simp only [ok_bind, pure_apply, blankLines_stay hfree, peek, bind_apply, get_apply]
    rw [if_pos (show (']' :: t).head? = some ']' from rfl)]
    simp only [bind_apply, bump_cons, show ']'.utf8Size = 1 from rfl, ok_bind, get_apply, pure_apply]
  case first =>
    refine Declines.bind_ok (blankLines_stay hfree t (off + 1)) ?_
    exact (value_declines (by simp) fuel t (off + 1)).bind _

/-- An array with elements: the first read after the bracket, the others by
`moreItems`, then the closing bracket. -/
theorem array_items {fuel : Nat} {s rest t : List Char} {off o₁ o₂ : Nat} {tv : Tree} {trs : List Tree}
    (hs : ∃ x r, s = x :: r ∧ LineFree x) (hrest : ∃ x r, rest ++ ']' :: t = x :: r ∧ LineFree x)
    (hfirst : value fuel ⟨s ++ (rest ++ ']' :: t), off + 1⟩ = .ok (tv, ⟨rest ++ ']' :: t, o₁⟩))
    (hmore : moreItems fuel ⟨rest ++ ']' :: t, o₁⟩ = .ok (trs, ⟨']' :: t, o₂⟩)) :
    array (fuel + 1) ⟨'[' :: (s ++ (rest ++ ']' :: t)), off⟩ =
      .ok (.array (tv :: trs) ⟨off, o₂ + 1⟩, ⟨t, o₂ + 1⟩) := by
  obtain ⟨x, r, rfl, hx⟩ := hs
  obtain ⟨y, r', hyr, hy⟩ := hrest
  have hfree : LineFree ']' := by decide
  rw [array]
  simp only [bind_apply, offset, get_apply, ok_bind, pure_apply, bump_cons, show '['.utf8Size = 1 from rfl]
  rw [@attempt_ok _ _ _ ⟨rest ++ ']' :: t, o₁⟩ tv ?first]
  · simp only [ok_bind, hmore, peek, bind_apply, get_apply, pure_apply]
    rw [if_neg (show (']' :: t).head? ≠ some ',' from by simp)]
    simp only [bind_apply, pure_apply, ok_bind, blankLines_stay hfree, get_apply]
    rw [if_pos (show (']' :: t).head? = some ']' from rfl)]
    simp only [bind_apply, bump_cons, show ']'.utf8Size = 1 from rfl, ok_bind, get_apply, pure_apply]
  case first =>
    simp only [bind_apply, List.cons_append, blankLines_stay hx, ok_bind]
    rw [← List.cons_append, hfirst, ok_bind, hyr, blankLines_stay hy]
    rfl

theorem moreItems_close (fuel : Nat) (t : List Char) (off : Nat) :
    moreItems fuel ⟨']' :: t, off⟩ = .ok ([], ⟨']' :: t, off⟩) := by
  cases fuel <;> rfl

/-- One more element, after its comma and a blank. -/
theorem moreItems_cons {fuel : Nat} {s rest : List Char} {off o₁ : Nat} {tv : Tree} {trs : List Tree} {c : Cursor}
    (hs : ∃ x r, s = x :: r ∧ LineFree x) (hrest : ∃ x r, rest = x :: r ∧ LineFree x)
    (hv : value fuel ⟨s ++ rest, off + 1 + 1⟩ = .ok (tv, ⟨rest, o₁⟩))
    (hmore : moreItems fuel ⟨rest, o₁⟩ = .ok (trs, c)) :
    moreItems (fuel + 1) ⟨',' :: ' ' :: (s ++ rest), off⟩ = .ok (tv :: trs, c) := by
  obtain ⟨x, r, rfl, hx⟩ := hs
  obtain ⟨y, r', rfl, hy⟩ := hrest
  rw [moreItems, bind_apply, @attempt_ok _ _ _ ⟨y :: r', o₁⟩ tv ?item]
  · simp only [ok_bind, bind_apply, hmore, pure_apply]
  case item =>
    simp only [bind_apply, peek, get_apply, ok_bind, pure_apply]
    rw [if_pos (show (',' :: ' ' :: (x :: r ++ y :: r')).head? = some ',' from rfl)]
    simp only [bind_apply, bump_cons, show ','.utf8Size = 1 from rfl, ok_bind, List.cons_append, blankLines_space hx]
    rw [← List.cons_append, hv, ok_bind, blankLines_stay hy]
    rfl

/-! ## Inline tables -/

/-- Blanks are read up to the first character that is no blank. -/
theorem blanks_apply (r : List Char) (off : Nat) :
    blanks ⟨r, off⟩ = .ok ((), ⟨r.dropWhile isBlankChar, off + byteLength (r.takeWhile isBlankChar)⟩) := by
  have hdrop : r.drop (r.takeWhile isBlankChar).length = r.dropWhile isBlankChar :=
    (congrArg (List.drop (r.takeWhile isBlankChar).length) List.takeWhile_append_dropWhile).symm.trans
      List.drop_left
  simp only [blanks, takeWhile, bind_apply, ok_bind, pure_apply, hdrop]

/-- A pair of an inline table: blanks, its key, ` = `, its value and the
blanks after it. -/
theorem inlinePair_read {P : Tree → Prop} {fuel : Nat} {lead : List Char} (hl : ∀ c ∈ lead, isBlankChar c = true)
    (k : String) {s r : List Char} (hs : ∃ x r', s = x :: r' ∧ LineFree x)
    (hv : ∀ o, ∃ tv o', value fuel ⟨s ++ r, o⟩ = .ok (tv, ⟨r, o'⟩) ∧ P tv) (off : Nat) :
    ∃ sp tv off', inlinePair (fuel + 1) ⟨lead ++ (keyText k).toList ++ ' ' :: '=' :: ' ' :: (s ++ r), off⟩ =
      .ok (([(k, sp)], tv), ⟨r.dropWhile isBlankChar, off'⟩) ∧ P tv := by
  obtain ⟨x, r', rfl, hx⟩ := hs
  obtain ⟨sp, o₁, hkey⟩ := dottedKey_keyPair hl k (' ' :: (x :: r' ++ r)) off
  obtain ⟨tv, o₂, hval, hP⟩ := hv (o₁ + 1 + 1)
  refine ⟨sp, tv, o₂ + byteLength (r.takeWhile isBlankChar), ?_, hP⟩
  rw [inlinePair, bind_apply, hkey, ok_bind]
  refine commit_ok ?_
  simp only [bind_apply, peek, get_apply, ok_bind, pure_apply]
  rw [if_pos (show ('=' :: ' ' :: (x :: r' ++ r)).head? = some '=' from rfl)]
  simp only [bind_apply, bump_cons, show '='.utf8Size = 1 from rfl, ok_bind, List.cons_append,
    blanks_space (r := x :: (r' ++ r)) (by simpa using hx.1)]
  rw [← List.cons_append, hval, ok_bind, blanks_apply]
  rfl

theorem morePairs_close (fuel : Nat) (t : List Char) (off : Nat) :
    morePairs fuel ⟨'\x7d' :: t, off⟩ = .ok ([], ⟨'\x7d' :: t, off⟩) := by
  cases fuel <;> rfl

/-- One more pair, after its comma. -/
theorem morePairs_cons {fuel : Nat} {r : List Char} {off : Nat} {p : List (String × Span) × Tree}
    {ps : List (List (String × Span) × Tree)} {c₁ c₂ : Cursor}
    (hp : inlinePair fuel ⟨r, off + 1⟩ = .ok (p, c₁)) (hmore : morePairs fuel c₁ = .ok (ps, c₂)) :
    morePairs (fuel + 1) ⟨',' :: r, off⟩ = .ok (p :: ps, c₂) := by
  rw [morePairs, bind_apply, @attempt_ok _ _ _ c₁ p ?pair]
  · simp only [ok_bind, bind_apply, hmore, pure_apply]
  case pair =>
    simp only [bind_apply, peek, get_apply, ok_bind, pure_apply]
    rw [if_pos (show (',' :: r).head? = some ',' from rfl)]
    simp only [bind_apply, bump_cons, show ','.utf8Size = 1 from rfl, ok_bind, hp]

theorem inlineTable_empty (fuel : Nat) (t : List Char) (off : Nat) :
    inlineTable (fuel + 1 + 1) ⟨'\x7b' :: '\x7d' :: t, off⟩ =
      .ok (.table .inline [] (some ⟨off, off + 1 + 1⟩), ⟨t, off + 1 + 1⟩) := by
  rw [inlineTable]
  simp only [bind_apply, offset, get_apply, ok_bind, pure_apply, bump_cons, show '\x7b'.utf8Size = 1 from rfl]
  rw [Declines.attempt ⟨_, rfl, rfl⟩]
  simp only [ok_bind, pure_apply, bind_apply]
  rw [blanks_of_head (c := ⟨'\x7d' :: t, off + 1⟩) (by simp [isBlankChar])]
  simp only [ok_bind, List.foldlM_nil, show (pure [] : Except String (List Entry)) = .ok [] from rfl, peek,
    bind_apply, get_apply, pure_apply]
  rw [if_pos (show ('\x7d' :: t).head? = some '\x7d' from rfl)]
  simp only [bind_apply, bump_cons, show '\x7d'.utf8Size = 1 from rfl, ok_bind, get_apply, pure_apply]

/-- An inline table with pairs: the first read after the brace, the others by
`morePairs`, each added in turn, then the closing brace. -/
theorem inlineTable_pairs {fuel : Nat} {r t : List Char} {off o : Nat} {p : List (String × Span) × Tree}
    {ps : List (List (String × Span) × Tree)} {c₁ : Cursor} {E : List Entry}
    (hp : inlinePair fuel ⟨r, off + 1⟩ = .ok (p, c₁)) (hmore : morePairs fuel c₁ = .ok (ps, ⟨'\x7d' :: t, o⟩))
    (hfold : (p :: ps).foldlM addInlinePair [] = .ok E) :
    inlineTable (fuel + 1) ⟨'\x7b' :: r, off⟩ = .ok (.table .inline E (some ⟨off, o + 1⟩), ⟨t, o + 1⟩) := by
  rw [inlineTable]
  simp only [bind_apply, offset, get_apply, ok_bind, pure_apply, bump_cons, show '\x7b'.utf8Size = 1 from rfl]
  rw [attempt_ok hp]
  simp only [ok_bind, pure_apply, bind_apply, hmore]
  rw [blanks_of_head (c := ⟨'\x7d' :: t, o⟩) (by simp [isBlankChar])]
  simp only [ok_bind, hfold, peek, bind_apply, get_apply, pure_apply]
  rw [if_pos (show ('\x7d' :: t).head? = some '\x7d' from rfl)]
  simp only [bind_apply, bump_cons, show '\x7d'.utf8Size = 1 from rfl, ok_bind, get_apply, pure_apply]

theorem findEntry_append_of_ne {k : String} {E : List Entry} (h : findEntry k E = none) {k' : String}
    (hk : k' ≠ k) (ks : Span) (t : Tree) : findEntry k (E ++ [(k', ks, t)]) = none := by
  simp only [findEntry, Option.map_eq_none_iff, List.find?_eq_none, List.mem_append, List.mem_singleton] at h ⊢
  rintro e (he | rfl)
  · exact h e he
  · simpa using hk

/-- A pair under a single key that the table does not hold yet is added at its end. -/
theorem addInlinePair_single {E : List Entry} {k : String} (h : findEntry k E = none) (ks : Span) (t : Tree) :
    addInlinePair E ([(k, ks)], t) = .ok (E ++ [(k, ks, t)]) := by
  simp [addInlinePair, descend, TableKind.isDotted, h, Functor.map, Except.map]

/-- Pairs under single keys, each held once, are added in order. -/
theorem foldlM_addInlinePair_single : ∀ (qs E : List Entry), (qs.map (·.1)).Nodup →
    (∀ q ∈ qs, findEntry q.1 E = none) →
      (qs.map fun q => ([(q.1, q.2.1)], q.2.2)).foldlM addInlinePair E = .ok (E ++ qs)
  | [], E, _, _ => by rw [List.map_nil, List.foldlM_nil, List.append_nil]; rfl
  | (k, ks, t) :: qs, E, hnd, hfresh => by
    simp only [List.map_cons, List.nodup_cons, List.mem_map] at hnd
    have hE : findEntry k E = none := hfresh _ List.mem_cons_self
    rw [List.map_cons, List.foldlM_cons, addInlinePair_single hE]
    refine (foldlM_addInlinePair_single qs (E ++ [(k, ks, t)]) hnd.2 fun q hq => ?_).trans (by simp)
    refine findEntry_append_of_ne (hfresh q (List.mem_cons_of_mem _ hq)) ?_ ks t
    rintro rfl
    exact hnd.1 ⟨q, hq, rfl⟩

end Reader

/-! ## The texts of arrays and inline tables -/

/-- The text of an array element after the first: a comma, a blank and the
element. -/
def itemChunk (v : Value) : List Char := ',' :: ' ' :: (v.inlineText false).toList

/-- The text of a pair of an inline table after the first: a comma, a blank
and the pair. -/
def pairChunk (kv : String × Value) : List Char :=
  ',' :: ' ' :: ((keyText kv.1).toList ++ ' ' :: '=' :: ' ' :: (kv.2.inlineText false).toList)

theorem itemTexts_eq_map (spread : Bool) (items : List Value) :
    itemTexts spread items = items.map (Value.inlineText spread) := by
  induction items with
  | nil => rfl
  | cons v rest ih => simp [itemTexts, ih]

theorem pairTexts_eq_map (spread : Bool) (es : List (String × Value)) :
    pairTexts spread es = es.map fun kv => keyText kv.1 ++ " = " ++ kv.2.inlineText spread := by
  induction es with
  | nil => rfl
  | cons e rest ih =>
    obtain ⟨k, v⟩ := e
    simp [pairTexts, ih]

theorem inlineText_array_cons (v : Value) (vs : List Value) :
    ((Value.array (v :: vs)).inlineText false).toList =
      '[' :: ((v.inlineText false).toList ++ (vs.flatMap itemChunk ++ [']'])) := by
  have h : (Value.array (v :: vs)).inlineText false =
      "[" ++ ", ".intercalate ((v :: vs).map (Value.inlineText false)) ++ "]" := by
    simp only [Value.inlineText, arrayText, itemTexts_eq_map, Bool.false_and, Bool.false_eq_true, if_false]
  rw [h, String.toList_append, String.toList_append, List.map_cons, toList_intercalate, List.flatMap_map]
  simp only [List.append_assoc]
  rfl

theorem inlineText_table_cons (k : String) (v : Value) (es : List (String × Value)) :
    ((Value.table ((k, v) :: es)).inlineText false).toList =
      '\x7b' :: ' ' :: ((keyText k).toList ++ ' ' :: '=' :: ' ' ::
        ((v.inlineText false).toList ++ (es.flatMap pairChunk ++ [' ', '\x7d']))) := by
  have h : (Value.table ((k, v) :: es)).inlineText false =
      "\x7b " ++ ", ".intercalate (((k, v) :: es).map fun kv => keyText kv.1 ++ " = " ++ kv.2.inlineText false) ++
        " \x7d" := by
    simp only [Value.inlineText, inlineTableText, pairTexts_eq_map, List.map_cons, List.isEmpty_cons,
      Bool.false_eq_true, if_false]
  rw [h, String.toList_append, String.toList_append, List.map_cons, toList_intercalate, List.flatMap_map]
  simp [String.toList_append]
  rfl

theorem Tree.EntriesReadAs.keys {E : List Entry} {es : List (String × Value)} (h : Tree.EntriesReadAs E es) :
    E.map (·.1) = es.map (·.1) := by
  simpa [List.map_map, Function.comp_def] using congrArg (List.map Prod.fst) h.1

namespace Reader

/-- What may follow a value written inline: a character that ends it, and no
digit after a blank, which would go on a date-time. -/
def ValueEnd (y : Char) (t : List Char) : Prop := EndChar y ∧ (y = ' ' → ∀ z ∈ t.head?, z.isDigit = false)

/-- After an element of an array comes the next one or the closing bracket. -/
theorem itemsRest (vs : List Value) (t : List Char) :
    ∃ y r, vs.flatMap itemChunk ++ ']' :: t = y :: r ∧ ValueEnd y r ∧ LineFree y := by
  cases vs with
  | nil => exact ⟨']', t, rfl, ⟨Or.inr (Or.inr (Or.inl rfl)), fun h => absurd h (by decide)⟩, by decide⟩
  | cons v vs =>
    exact ⟨',', ' ' :: ((v.inlineText false).toList ++ (vs.flatMap itemChunk ++ ']' :: t)), by simp [itemChunk],
      ⟨Or.inr (Or.inl rfl), fun h => absurd h (by decide)⟩, by decide⟩

/-- After a pair of an inline table comes the next one, or a blank and the
closing brace. -/
theorem pairsRest (es : List (String × Value)) (t : List Char) :
    ∃ y r, es.flatMap pairChunk ++ ' ' :: '\x7d' :: t = y :: r ∧ ValueEnd y r := by
  cases es with
  | nil =>
    refine ⟨' ', '\x7d' :: t, rfl, Or.inr (Or.inr (Or.inr rfl)), fun _ z hz => ?_⟩
    rw [List.head?_cons, Option.mem_def, Option.some.injEq] at hz
    subst hz
    rfl
  | cons e es =>
    exact ⟨',', ' ' :: ((keyText e.1).toList ++ ' ' :: '=' :: ' ' ::
      ((e.2.inlineText false).toList ++ (es.flatMap pairChunk ++ ' ' :: '\x7d' :: t))), by simp [pairChunk],
      Or.inr (Or.inl rfl), fun h => absurd h (by decide)⟩

mutual

/-- A readable value whose tables hold each key once is read back from its
inline text, up to what ends it, with fuel above the length of the text. -/
theorem value_readBack : ∀ (v : Value), v.Readable → v.Distinct → ∀ (fuel : Nat) (y : Char) (t : List Char),
    ValueEnd y t → (v.inlineText false).toList.length < fuel → ∀ off : Nat,
      ∃ tr off', value fuel ⟨(v.inlineText false).toList ++ y :: t, off⟩ = .ok (tr, ⟨y :: t, off'⟩) ∧ tr.ReadsAs v
  | .string s, _, _, fuel, y, t, hy, hlen, off => by
    obtain ⟨f, rfl⟩ : ∃ f, fuel = f + 1 := ⟨fuel - 1, by omega⟩
    obtain ⟨off', h⟩ := value_string s f hy.1 t off
    exact ⟨_, off', h, Tree.readsAs_scalar rfl _⟩
  | .integer i, hr, _, fuel, y, t, hy, hlen, off => by
    obtain ⟨f, rfl⟩ : ∃ f, fuel = f + 1 := ⟨fuel - 1, by omega⟩
    obtain ⟨off', h⟩ := value_integer hr.1 hr.2 f hy.1 t off
    exact ⟨_, off', h, Tree.readsAs_scalar rfl _⟩
  | .float g, _, _, fuel, y, t, hy, hlen, off => by
    obtain ⟨f, rfl⟩ : ∃ f, fuel = f + 1 := ⟨fuel - 1, by omega⟩
    obtain ⟨g', off', h⟩ := value_floatText g f hy.1 t off
    exact ⟨_, off', h, Tree.readsAs_float g g' _⟩
  | .boolean b, _, _, fuel, y, t, _, hlen, off => by
    obtain ⟨f, rfl⟩ : ∃ f, fuel = f + 1 := ⟨fuel - 1, by omega⟩
    obtain ⟨off', h⟩ := value_boolean b f (y :: t) off
    exact ⟨_, off', h, Tree.readsAs_scalar rfl _⟩
  | .datetime d, hr, _, fuel, y, t, hy, hlen, off => by
    obtain ⟨f, rfl⟩ : ∃ f, fuel = f + 1 := ⟨fuel - 1, by omega⟩
    obtain ⟨off', h⟩ := value_datetime hr f hy.1 t hy.2 off
    exact ⟨_, off', h, Tree.readsAs_scalar rfl _⟩
  | .array [], _, _, fuel, y, t, _, hlen, off => by
    have htext : ((Value.array []).inlineText false).toList = ['[', ']'] := rfl
    rw [htext] at hlen ⊢
    obtain ⟨f, rfl⟩ : ∃ f, fuel = f + 1 + 1 + 1 := ⟨fuel - 3, by simp at hlen; omega⟩
    exact ⟨_, _, (value_bracket _ _ _).trans (array_empty f (y :: t) off),
      Tree.readsAs_array Tree.itemsReadAs_nil _⟩
  | .array (v :: vs), hr, hd, fuel, y, t, hy, hlen, off => by
    simp only [Value.readable_array, Value.distinct_array, List.mem_cons, forall_eq_or_imp] at hr hd
    rw [inlineText_array_cons] at hlen ⊢
    simp only [List.length_cons, List.length_append] at hlen
    obtain ⟨f, rfl⟩ : ∃ f, fuel = f + 1 + 1 := ⟨fuel - 2, by omega⟩
    obtain ⟨y', r, hrest, hy', hfree⟩ := itemsRest vs (y :: t)
    obtain ⟨tv, o₁, hv, htv⟩ := value_readBack v hr.1 hd.1 f y' r hy' (by omega) (off + 1)
    obtain ⟨trs, o₂, hmore, htrs⟩ := moreItems_readBack vs hr.2 hd.2 f (y :: t) o₁ (by omega)
    refine ⟨_, o₂ + 1, ?_, Tree.readsAs_array (htrs.cons htv) ⟨off, o₂ + 1⟩⟩
    simp only [List.cons_append, List.append_assoc, List.nil_append]
    rw [value_bracket]
    refine array_items (value_head hy'.1 hv) ⟨y', r, hrest, hfree⟩ ?_ hmore
    rw [hrest]
    exact hv
  | .table [], _, _, fuel, y, t, _, hlen, off => by
    have htext : ((Value.table []).inlineText false).toList = ['\x7b', '\x7d'] := rfl
    rw [htext] at hlen ⊢
    obtain ⟨f, rfl⟩ : ∃ f, fuel = f + 1 + 1 + 1 := ⟨fuel - 3, by simp at hlen; omega⟩
    exact ⟨_, _, (value_brace _ _ _).trans (inlineTable_empty f (y :: t) off),
      Tree.readsAs_table Tree.entriesReadAs_nil _ _⟩
  | .table ((k, v) :: es), hr, hd, fuel, y, t, hy, hlen, off => by
    simp only [Value.readable_table, Value.distinct_table, List.mem_cons, forall_eq_or_imp] at hr hd
    rw [inlineText_table_cons] at hlen ⊢
    simp only [List.length_cons, List.length_append] at hlen
    obtain ⟨f, rfl⟩ : ∃ f, fuel = f + 1 + 1 + 1 := ⟨fuel - 3, by omega⟩
    obtain ⟨y', r, hrest, hy'⟩ := pairsRest es (y :: t)
    have hv : ∀ o, ∃ tv o', value f ⟨(v.inlineText false).toList ++ (es.flatMap pairChunk ++ ' ' :: '\x7d' :: y :: t), o⟩ =
        .ok (tv, ⟨es.flatMap pairChunk ++ ' ' :: '\x7d' :: y :: t, o'⟩) ∧ tv.ReadsAs v := by
      intro o
      rw [hrest]
      exact value_readBack v hr.1 hd.2.1 f y' r hy' (by omega) o
    obtain ⟨tv₀, o₀, hv₀, -⟩ := value_readBack v hr.1 hd.2.1 f y' r hy' (by omega) 0
    obtain ⟨sp, tv, o₁, hpair, htv⟩ := @inlinePair_read _ _ [' '] (by simp [isBlankChar]) k _ _
      (value_head hy'.1 hv₀) hv (off + 1)
    obtain ⟨qs, o₂, hmore, hqs⟩ := morePairs_readBack es hr.2 hd.2.2 (f + 1) (y :: t) o₁ (by omega)
    have hnodup : (((k, sp, tv) :: qs).map (·.1)).Nodup := by
      rw [List.map_cons, hqs.keys]
      exact hd.1
    have hfold := foldlM_addInlinePair_single ((k, sp, tv) :: qs) [] hnodup (by simp [findEntry])
    rw [List.nil_append] at hfold
    refine ⟨.table .inline ((k, sp, tv) :: qs) (some ⟨off, o₂ + 1⟩), o₂ + 1, ?_, Tree.readsAs_table (hqs.cons htv) _ _⟩
    simp only [List.cons_append, List.append_assoc, List.nil_append]
    rw [value_brace]
    refine inlineTable_pairs ?_ hmore hfold
    simpa only [List.cons_append, List.append_assoc, List.nil_append, List.singleton_append] using hpair

/-- The elements of an array after the first are read back, each after its
comma, up to the closing bracket. -/
theorem moreItems_readBack : ∀ (vs : List Value), (∀ v ∈ vs, v.Readable) → (∀ v ∈ vs, v.Distinct) →
    ∀ (fuel : Nat) (t : List Char) (off : Nat), (vs.flatMap itemChunk).length ≤ fuel →
      ∃ trs off', moreItems fuel ⟨vs.flatMap itemChunk ++ ']' :: t, off⟩ = .ok (trs, ⟨']' :: t, off'⟩) ∧
        Tree.ItemsReadAs trs vs
  | [], _, _, fuel, t, off, _ => ⟨[], off, moreItems_close fuel t off, Tree.itemsReadAs_nil⟩
  | v :: vs, hr, hd, fuel, t, off, hlen => by
    simp only [List.mem_cons, forall_eq_or_imp] at hr hd
    simp only [List.flatMap_cons, itemChunk, List.length_append, List.length_cons] at hlen
    obtain ⟨f, rfl⟩ : ∃ f, fuel = f + 1 := ⟨fuel - 1, by omega⟩
    obtain ⟨y', r, hrest, hy', hfree⟩ := itemsRest vs t
    obtain ⟨tv, o₁, hv, htv⟩ := value_readBack v hr.1 hd.1 f y' r hy' (by omega) (off + 1 + 1)
    obtain ⟨trs, o₂, hmore, htrs⟩ := moreItems_readBack vs hr.2 hd.2 f t o₁ (by omega)
    refine ⟨tv :: trs, o₂, ?_, htrs.cons htv⟩
    simp only [List.flatMap_cons, itemChunk, List.cons_append, List.append_assoc]
    rw [hrest] at hmore ⊢
    exact moreItems_cons (value_head hy'.1 hv) ⟨y', r, rfl, hfree⟩ hv hmore

/-- The pairs of an inline table after the first are read back, each after
its comma, up to the closing brace. -/
theorem morePairs_readBack : ∀ (es : List (String × Value)), (∀ kv ∈ es, kv.2.Readable) →
    (∀ kv ∈ es, kv.2.Distinct) → ∀ (fuel : Nat) (t : List Char) (off : Nat), (es.flatMap pairChunk).length ≤ fuel →
      ∃ qs off', morePairs fuel ⟨(es.flatMap pairChunk ++ ' ' :: '\x7d' :: t).dropWhile isBlankChar, off⟩ =
        .ok (qs.map fun q => ([(q.1, q.2.1)], q.2.2), ⟨'\x7d' :: t, off'⟩) ∧ Tree.EntriesReadAs qs es
  | [], _, _, fuel, t, off, _ => by
    refine ⟨[], off, ?_, Tree.entriesReadAs_nil⟩
    rw [List.flatMap_nil, List.nil_append, List.dropWhile_cons_of_pos rfl,
      List.dropWhile_cons_of_neg (by decide)]
    exact morePairs_close fuel t off
  | (k, v) :: es, hr, hd, fuel, t, off, hlen => by
    simp only [List.mem_cons, forall_eq_or_imp] at hr hd
    simp only [List.flatMap_cons, pairChunk, List.length_append, List.length_cons] at hlen
    obtain ⟨f, rfl⟩ : ∃ f, fuel = f + 1 + 1 := ⟨fuel - 2, by omega⟩
    obtain ⟨y', r, hrest, hy'⟩ := pairsRest es t
    have hv : ∀ o, ∃ tv o', value f ⟨(v.inlineText false).toList ++ (es.flatMap pairChunk ++ ' ' :: '\x7d' :: t), o⟩ =
        .ok (tv, ⟨es.flatMap pairChunk ++ ' ' :: '\x7d' :: t, o'⟩) ∧ tv.ReadsAs v := by
      intro o
      rw [hrest]
      exact value_readBack v hr.1 hd.1 f y' r hy' (by omega) o
    obtain ⟨tv₀, o₀, hv₀, -⟩ := value_readBack v hr.1 hd.1 f y' r hy' (by omega) 0
    obtain ⟨sp, tv, o₁, hpair, htv⟩ := @inlinePair_read _ _ [' '] (by simp [isBlankChar]) k _ _
      (value_head hy'.1 hv₀) hv (off + 1)
    obtain ⟨qs, o₂, hmore, hqs⟩ := morePairs_readBack es hr.2 hd.2 (f + 1) t o₁ (by omega)
    refine ⟨(k, sp, tv) :: qs, o₂, ?_, hqs.cons htv⟩
    simp only [List.flatMap_cons, pairChunk, List.cons_append, List.append_assoc, List.map_cons]
    rw [List.dropWhile_cons_of_neg (by decide)]
    refine morePairs_cons ?_ hmore
    simpa only [List.cons_append, List.append_assoc, List.nil_append, List.singleton_append] using hpair

end

end Reader

end LotBridge.Toml
