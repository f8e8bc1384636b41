import LotBridge.Proofs.TomlTables

/-!
# Documents of plain tables read back

The document writer (`documentText`) puts the scalar entries of a table on
key-value lines, and each table below it under a header of its own, its lines
first and its own tables after them; a table with tables and no lines gets no
header, as the header of its first table makes it. The reader reads such a
document line by line: a header opens an empty table at its path, and a
key-value line adds its pair to the table the last header opened
(`Builder.Holds`).

`Reader.Reads s doc path doc' path'` says what reading the lines of a text
does: it takes a builder holding `doc`, filling the table at `path`, to one
holding `doc'` at `path'`. Texts read one after the other compose
(`Reader.Reads.append`), and the tables of a document are read by induction
along the recursion of the writer (`sectionsRead`).

A document reads back to the entries it was written from, laid out as the
writer lays them out: in each table its lines before its tables.

## Main definitions

* `Value.Plain`, `PlainTable`: scalars, and tables of them with bare keys,
  each key once.
* `lineEntries`, `sectionEntries`: the entries of a table in the order its
  document gives them.
* `Reader.Reads`: what reading the lines of a text does to the document read.

## Main statements

* `Reader.lines_pair`, `Reader.lines_header`: one line of each kind.
* `sectionsRead`: the tables of a table, read below its path.
* `parse_documentText`: a plain table's document reads back.
-/

namespace LotBridge.Toml

open Reader

/-! ## Plain tables -/

mutual

/-- A value written on lines that read back: a scalar, or a table of plain
entries. -/
def Value.Plain : Value → Prop
  | .table es => PlainTable es
  | v => v.IsScalar

/-- Table entries with bare keys, each key once, and plain values. -/
def PlainTable : List (String × Value) → Prop
  | [] => True
  | (k, v) :: rest => BareKey k ∧ lookup k rest = none ∧ v.Plain ∧ PlainTable rest

end

/-- The entries of a table written as key-value lines under its header. -/
def lineEntries (es : List (String × Value)) : List (String × Value) :=
  es.filter fun (_, v) => !v.isSection

/-- The tables among a table's entries, each with its key-value lines first
and its own tables after them. -/
def sectionEntries : List (String × Value) → List (String × Value)
  | [] => []
  | (k, .table inner) :: rest => (k, .table (lineEntries inner ++ sectionEntries inner)) :: sectionEntries rest
  | _ :: rest => sectionEntries rest

/-- The key-value line of an entry. -/
def lineText (spread : Bool) : String × Value → String
  | (k, v) => keyText k ++ " = " ++ v.inlineText spread ++ "\n"

/-- A text that starts a line as the document reader starts one: with no
blank and no byte order mark. -/
def LineStart (s : List Char) : Prop := ∀ x ∈ s.head?, isBlankChar x = false ∧ x ≠ '\uFEFF'

/-! ## Keys of plain tables -/

theorem lookup_eq_none_iff {k : String} {es : List (String × Value)} :
    lookup k es = none ↔ ∀ kv ∈ es, kv.1 ≠ k := by
  simp [lookup, List.find?_eq_none]

theorem Value.Plain.isScalar {v : Value} (hv : v.Plain) (hsec : v.isSection = false) : v.IsScalar := by
  cases v <;> simp_all [Value.Plain, Value.isSection, Value.isTable, Value.isTableArray]

theorem Value.Plain.table_of_isSection {v : Value} (hv : v.Plain) (hsec : v.isSection = true) :
    ∃ inner, v = .table inner ∧ PlainTable inner := by
  cases v <;> simp_all [Value.Plain, Value.isSection, Value.isTable, Value.isTableArray, Value.IsScalar]

theorem lineEntries_cons (k : String) (v : Value) (rest : List (String × Value)) :
    lineEntries ((k, v) :: rest) = if v.isSection then lineEntries rest else (k, v) :: lineEntries rest := by
  cases h : v.isSection <;> simp [lineEntries, h]

theorem mem_of_mem_lineEntries {kv : String × Value} {es : List (String × Value)} (h : kv ∈ lineEntries es) :
    kv ∈ es :=
  (List.mem_filter.1 h).1

theorem sectionEntries_of_isScalar {v : Value} (hv : v.IsScalar) (k : String) (rest : List (String × Value)) :
    sectionEntries ((k, v) :: rest) = sectionEntries rest := by
  cases v <;> simp_all [sectionEntries, Value.IsScalar]

theorem key_of_mem_sectionEntries_cons {kv : String × Value} {k : String} {v : Value}
    {rest : List (String × Value)} (h : kv ∈ sectionEntries ((k, v) :: rest)) :
    kv.1 = k ∨ kv ∈ sectionEntries rest := by
  cases v with
  | table inner =>
    rw [sectionEntries] at h
    rcases List.mem_cons.1 h with rfl | h
    · exact Or.inl rfl
    · exact Or.inr h
  | _ => exact Or.inr (by simpa [sectionEntries] using h)

/-- The tables among entries have keys of the entries. -/
theorem key_ne_of_mem_sectionEntries {k : String} {es : List (String × Value)} (h : lookup k es = none) :
    ∀ kv ∈ sectionEntries es, kv.1 ≠ k := by
  induction es with
  | nil => simp [sectionEntries]
  | cons e rest ih =>
    obtain ⟨k', v⟩ := e
    rw [lookup_cons] at h
    split_ifs at h with hk'
    intro kv hkv
    rcases key_of_mem_sectionEntries_cons hkv with hkv | hkv
    · rw [hkv]
      exact hk'
    · exact ih h kv hkv

/-- No table of a plain table has the key of one of its lines. -/
theorem sectionEntries_fresh_lines : ∀ {es : List (String × Value)}, PlainTable es →
    ∀ kv ∈ sectionEntries es, lookup kv.1 (lineEntries es) = none
  | [], _ => by simp [sectionEntries]
  | (k, v) :: rest, ⟨_, hkr, hv, hrest⟩ => by
    intro kv hkv
    rw [lineEntries_cons]
    cases hsec : v.isSection
    · rw [sectionEntries_of_isScalar (hv.isScalar hsec)] at hkv
      simp only [Bool.false_eq_true, if_false, lookup_cons,
        if_neg (key_ne_of_mem_sectionEntries hkr kv hkv).symm]
      exact sectionEntries_fresh_lines hrest kv hkv
    · simp only [if_true]
      rcases key_of_mem_sectionEntries_cons hkv with hkv | hkv
      · rw [hkv, lookup_eq_none_iff]
        exact fun kv' hkv' => (lookup_eq_none_iff.1 hkr kv' (mem_of_mem_lineEntries hkv'))
      · exact sectionEntries_fresh_lines hrest kv hkv

/-- A plain table with neither lines nor tables is empty. -/
theorem eq_nil_of_lines_sections : ∀ {es : List (String × Value)}, PlainTable es → lineEntries es = [] →
    sectionEntries es = [] → es = []
  | [], _, _, _ => rfl
  | (k, v) :: rest, ⟨_, _, hv, hrest⟩, hl, hs => by
    rw [lineEntries_cons] at hl
    cases hsec : v.isSection
    · simp [hsec] at hl
    · cases v <;> simp_all [sectionEntries, Value.isSection, Value.isTable, Value.isTableArray, Value.Plain,
        Value.IsScalar]

/-! ## Sorted tables and tables of scalars -/

theorem sortKeys_of_isScalar {v : Value} (hv : v.IsScalar) : v.sortKeys = v := by
  cases v <;> simp_all [Value.sortKeys, Value.IsScalar]

/-- Entries whose keys increase, their values sorted already, are sorted. -/
theorem sortEntries_of_sorted : ∀ {es : List (String × Value)}, es.Pairwise (fun a b => a.1 < b.1) →
    (∀ kv ∈ es, kv.2.sortKeys = kv.2) → Value.sortEntries es = es
  | [], _, _ => rfl
  | (k, v) :: rest, hs, hv => by
    rw [List.pairwise_cons] at hs
    rw [Value.sortEntries, hv (k, v) List.mem_cons_self,
      sortEntries_of_sorted hs.2 fun kv h => hv kv (List.mem_cons_of_mem _ h)]
    cases rest with
    | nil => rfl
    | cons kw rest =>
      simp [insertSorted, hs.1 kw List.mem_cons_self]

theorem plainTable_iff {es : List (String × Value)} :
    PlainTable es ↔ (es.map Prod.fst).Nodup ∧ ∀ kv ∈ es, BareKey kv.1 ∧ kv.2.Plain := by
  induction es with
  | nil => simp [PlainTable]
  | cons e rest ih =>
    obtain ⟨k, v⟩ := e
    simp only [PlainTable, ih, lookup_eq_none_iff, List.map_cons, List.nodup_cons, List.mem_map, List.mem_cons,
      forall_eq_or_imp]
    constructor
    · rintro ⟨hk, hfresh, hv, hnd, hall⟩
      exact ⟨⟨fun ⟨kv, hkv, he⟩ => hfresh kv hkv he, hnd⟩, ⟨hk, hv⟩, hall⟩
    · rintro ⟨⟨hfresh, hnd⟩, ⟨hk, hv⟩, hall⟩
      exact ⟨hk, fun kv hkv he => hfresh ⟨kv, hkv, he⟩, hv, hnd, hall⟩

/-- Entries with increasing bare keys and plain values make a plain table. -/
theorem plainTable_of_sorted {es : List (String × Value)} (hs : es.Pairwise (fun a b => a.1 < b.1))
    (h : ∀ kv ∈ es, BareKey kv.1 ∧ kv.2.Plain) : PlainTable es := by
  refine plainTable_iff.2 ⟨?_, h⟩
  rw [List.Nodup, List.pairwise_map]
  exact hs.imp ne_of_lt

theorem Value.Plain.of_isScalar {v : Value} (h : v.IsScalar) : v.Plain := by
  cases v <;> simp_all [Value.Plain, Value.IsScalar]

/-- A table with the given increasing bare keys and plain values is plain. -/
theorem plainTable_of_keys {es : List (String × Value)} (keys : List String) (hk : es.map Prod.fst = keys)
    (hs : keys.Pairwise (· < ·)) (hb : ∀ k ∈ keys, BareKey k) (hv : ∀ kv ∈ es, kv.2.Plain) : PlainTable es :=
  plainTable_of_sorted (List.pairwise_map.1 (hk ▸ hs)) fun kv hkv =>
    ⟨hb kv.1 (hk ▸ List.mem_map_of_mem hkv), hv kv hkv⟩

theorem isScalar_natCast {n : Nat} (h : n ≤ 9223372036854775807) : (Value.integer n).IsScalar := by
  simp only [Value.IsScalar, int64Min, int64Max]
  omega

theorem lineEntries_nil : lineEntries [] = [] := rfl

theorem lineEntries_of_scalars {es : List (String × Value)} (h : ∀ kv ∈ es, kv.2.IsScalar) :
    lineEntries es = es := by
  refine List.filter_eq_self.2 fun kv hkv => ?_
  obtain ⟨k, v⟩ := kv
  cases v <;> simp_all [Value.isSection, Value.isTable, Value.isTableArray, Value.IsScalar]
  all_goals exact (h _ _ hkv).elim

theorem sectionEntries_of_scalars {es : List (String × Value)} (h : ∀ kv ∈ es, kv.2.IsScalar) :
    sectionEntries es = [] := by
  induction es with
  | nil => simp [sectionEntries]
  | cons e rest ih =>
    obtain ⟨k, v⟩ := e
    rw [sectionEntries_of_isScalar (h (k, v) List.mem_cons_self)]
    exact ih fun kv hkv => h kv (List.mem_cons_of_mem _ hkv)

/-! ## The writer's text, unfolded -/

theorem sectionsText_table (spread : Bool) (path : List String) (k : String) (inner rest : List (String × Value))
    (first : Bool) : ∃ f₁ f₂, (sectionsText spread path ((k, .table inner) :: rest) first).1 =
      (headAndValues spread (path ++ [k]) false inner first).1 ++
        (sectionsText spread (path ++ [k]) inner f₁).1 ++ (sectionsText spread path rest f₂).1 := by
  rw [sectionsText]
  exact ⟨_, _, rfl⟩

theorem sectionsText_of_isScalar (spread : Bool) (path : List String) {v : Value} (hv : v.IsScalar) (k : String)
    (rest : List (String × Value)) (first : Bool) :
    sectionsText spread path ((k, v) :: rest) first = sectionsText spread path rest first := by
  cases v <;> simp_all [sectionsText, Value.IsScalar]

/-- The head of a table: its lines, under its header unless it is the root or
has tables and no lines. -/
theorem headAndValues_eq (spread : Bool) (path : List String) (es : List (String × Value)) (first : Bool) :
    headAndValues spread path false es first =
      if path.isEmpty then (String.join ((lineEntries es).map (lineText spread)), first && (lineEntries es).isEmpty)
      else if !(lineEntries es).isEmpty || es.isEmpty then
        (headerText path false first ++ String.join ((lineEntries es).map (lineText spread)), false)
      else (String.join ((lineEntries es).map (lineText spread)), first) :=
  rfl

theorem documentText_eq (spread : Bool) (es : List (String × Value)) : ∃ first,
    documentText spread es = String.join ((lineEntries es).map (lineText spread)) ++
      (sectionsText spread [] es first).1 :=
  ⟨_, rfl⟩

theorem toList_headerText {path : List String} (hp : ∀ x ∈ path, BareKey x) (first : Bool) :
    (headerText path false first).toList =
      (if first then [] else ['\n']) ++ '[' :: ((".".intercalate path).toList ++ [']', '\n']) := by
  have hmap : path.map keyText = path := by
    rw [List.map_congr_left fun x hx => keyText_bare (hp x hx), List.map_id']
  cases first <;> simp [headerText, hmap]

namespace Reader

/-! ## One line -/

theorem lines_end (fuel : Nat) (b : Builder) (off : Nat) : lines (fuel + 1) b ⟨[], off⟩ = .ok (b, ⟨[], off⟩) :=
  rfl

theorem lineTrailing_newline (rest : List Char) (off : Nat) :
    lineTrailing ⟨'\n' :: rest, off⟩ = .ok ((), ⟨rest, off + 1⟩) := rfl

theorem lines_newline {rest : List Char} (hrest : ∀ x ∈ rest.head?, isBlankChar x = false) (fuel : Nat)
    (b : Builder) (off : Nat) : lines (fuel + 1) b ⟨'\n' :: rest, off⟩ = lines fuel b ⟨rest, off + 1⟩ := by
  simp only [lines, bind_apply, ahead, get_apply, ok_bind, pure_apply, bump_cons]
  rw [blanks_of_head (c := ⟨rest, off + '\n'.utf8Size⟩) hrest]
  rfl

theorem bare_ne {c : Char} (h : isBareChar c = true) : c ≠ '#' ∧ c ≠ '[' ∧ c ≠ '\n' ∧ c ≠ '\r' := by
  refine ⟨?_, ?_, ?_, ?_⟩ <;> rintro rfl <;> revert h <;> decide

/-- A written scalar starts with a quote, a sign, a digit or a letter: no
blank. -/
theorem inlineText_head {v : Value} (hv : v.IsScalar) (spread : Bool) :
    ∃ x r, (v.inlineText spread).toList = x :: r ∧ isBlankChar x = false := by
  cases v with
  | string s =>
    obtain ⟨q, r, hqr, hq⟩ := quoteString_head s
    exact ⟨q, r, hqr, by rcases hq with rfl | rfl <;> rfl⟩
  | integer i =>
    obtain ⟨d, ds, hdd, hd⟩ := (leadingDigits_toDigits i.natAbs).head
    simp only [Value.inlineText, toList_toString_int, hdd]
    cases decide (i < 0)
    · refine ⟨d, ds, rfl, ?_⟩
      rw [char_isDigit_iff] at hd
      simp only [isBlankChar, Bool.or_eq_false_iff, decide_eq_false_iff_not, char_eq_iff, Char.reduceToNat]
      omega
    · exact ⟨'-', d :: ds, rfl, rfl⟩
  | boolean b =>
    simp only [Value.inlineText]
    cases b
    · exact ⟨'f', ['a', 'l', 's', 'e'], rfl, rfl⟩
    · exact ⟨'t', ['r', 'u', 'e'], rfl, rfl⟩
  | float | datetime | array | table => exact hv.elim

/-- A key-value line adds its pair to the table being filled. -/
theorem lines_pair {b : Builder} {doc : List (String × Value)} {path : List String} (h : b.Holds doc path)
    {k : String} (hk : BareKey k) (hfresh : lookup k (tableAt path doc) = none) {v : Value}
    (hv : v.IsScalar) (spread : Bool) {rest : List Char} (hrest : ∀ x ∈ rest.head?, isBlankChar x = false)
    (fuel : Nat) (off : Nat) :
    ∃ b' off', b'.Holds (appendAt path [(k, v)] doc) path ∧
      lines (fuel + 1 + 1) b ⟨(lineText spread (k, v)).toList ++ rest, off⟩ = lines (fuel + 1) b' ⟨rest, off'⟩ := by
  obtain ⟨x, r, hxr, hx⟩ := inlineText_head hv spread
  obtain ⟨sp, off₁, hkey⟩ := dottedKey_pair hk (' ' :: ((v.inlineText spread).toList ++ '\n' :: rest)) off
  obtain ⟨off₂, hval⟩ := value_inlineText hv spread fuel (Or.inl rfl) rest (off₁ + 1 + 1)
  obtain ⟨b', hadd, hb'⟩ := h.addPair hfresh sp (t := .scalar v ⟨off₁ + 1 + 1, off₂⟩) hv
  refine ⟨b', off₂ + 1, hb', ?_⟩
  have htext : (lineText spread (k, v)).toList ++ rest =
      k.toList ++ ' ' :: '=' :: ' ' :: ((v.inlineText spread).toList ++ '\n' :: rest) := by
    simp [lineText, keyText_bare hk]
  obtain ⟨c, cs, hc⟩ := List.exists_cons_of_ne_nil hk.1
  have hcb := hk.2 c (by simp [hc])
  rw [htext]
  rw [lines]
  simp only [bind_apply, ahead, get_apply, ok_bind, pure_apply]
  generalize hT : k.toList ++ ' ' :: '=' :: ' ' :: ((v.inlineText spread).toList ++ '\n' :: rest) = T
  have hT' := hT
  rw [hc, List.cons_append] at hT'
  obtain ⟨h1, h2, h3, h4⟩ := bare_ne hcb
  split
  · exact absurd hT' (List.cons_ne_nil _ _)
  · exact absurd (List.cons.inj hT').1 h1
  · exact absurd (List.cons.inj hT').1 h2
  · exact absurd (List.cons.inj hT').1 h3
  · exact absurd (List.cons.inj hT').1 h4
  · exact absurd (List.cons.inj hT').1 h4
  · subst hT
    have hv0 : ∀ y ∈ ((v.inlineText spread).toList ++ '\n' :: rest).head?, isBlankChar y = false := by
      simpa [hxr] using hx
    rw [bind_apply, pairLine]
    simp only [bind_apply, offset, get_apply, ok_bind, pure_apply, commit_ok hkey, peek]
    -- the condition is rewritten as written: reducing `head?` first would leave its instance behind
    rw [if_pos (show ('=' :: ' ' :: ((v.inlineText spread).toList ++ '\n' :: rest)).head? = some '=' from rfl)]
    simp only [bind_apply, ok_bind, pure_apply, bump_cons, show '='.utf8Size = 1 from rfl, blanks_space hv0,
      commit_ok hval, lineTrailing_newline, hadd]
    rw [blanks_of_head (c := ⟨rest, off₂ + 1⟩) hrest]
    rfl

/-- A header line opens an empty table at its path. -/
theorem lines_header {b : Builder} {doc : List (String × Value)} {path : List String} (h : b.Holds doc path)
    {init : List String} {k : String} (hp : ∀ x ∈ init ++ [k], BareKey x) (hopen : PathOpen init doc)
    (hk : lookup k (tableAt init doc) = none) {rest : List Char}
    (hrest : ∀ x ∈ rest.head?, isBlankChar x = false) (fuel off : Nat) :
    ∃ b' off', b'.Holds (appendAt init [(k, .table [])] doc) (init ++ [k]) ∧
      lines (fuel + 1) b ⟨'[' :: ((".".intercalate (init ++ [k])).toList ++ ']' :: '\n' :: rest), off⟩ =
        lines fuel b' ⟨rest, off'⟩ := by
  obtain ⟨keys, off₁, hkey, hnames⟩ := dottedKey_path hp (by simp) (x := ']') ⟨rfl, rfl, by decide⟩
    ('\n' :: rest) (off + 1)
  obtain ⟨b', hopen', hb'⟩ := h.openTable hnames hopen hk ⟨off, off₁ + 1⟩
  refine ⟨b', off₁ + 1 + 1, hb', ?_⟩
  have hhead : header b ⟨'[' :: ((".".intercalate (init ++ [k])).toList ++ ']' :: '\n' :: rest), off⟩ =
      .ok (b', ⟨rest, off₁ + 1 + 1⟩) := by
    rw [header]
    refine within_ok ?_
    simp only [bind_apply, offset, ahead, get_apply, ok_bind, pure_apply]
    obtain ⟨c, cs, hcs, hc⟩ : ∃ c cs, (".".intercalate (init ++ [k])).toList = c :: cs ∧ isBareChar c = true := by
      obtain ⟨k₀, ks, hks⟩ := List.exists_cons_of_ne_nil (show init ++ [k] ≠ [] by simp)
      have hk₀ := hp k₀ (by simp [hks])
      obtain ⟨c, cs, hc⟩ := List.exists_cons_of_ne_nil hk₀.1
      exact ⟨c, cs ++ ks.flatMap (fun k => '.' :: k.toList),
        by rw [hks, toList_intercalate_dot, hc, List.cons_append], hk₀.2 c (by simp [hc])⟩
    generalize hT : '[' :: ((".".intercalate (init ++ [k])).toList ++ ']' :: '\n' :: rest) = T
    have hT' := hT
    rw [hcs, List.cons_append] at hT'
    split
    · exact absurd (List.cons.inj hT').2 (List.cons_ne_nil _ _)
    · exact absurd (List.cons.inj (List.cons.inj hT').2).1 (bare_ne hc).2.1
    · subst hT
      simp only [bind_apply, bump_cons, show '['.utf8Size = 1 from rfl, ok_bind, commit_ok hkey, peek,
        get_apply, pure_apply]
      rw [if_pos (show (']' :: '\n' :: rest).head? = some ']' from rfl)]
      simp only [bind_apply, bump_cons, show ']'.utf8Size = 1 from rfl, ok_bind, get_apply, pure_apply,
        lineTrailing_newline, hopen']
  rw [lines]
  simp only [bind_apply, ahead, get_apply, ok_bind, pure_apply, hhead]
  rw [blanks_of_head (c := ⟨rest, off₁ + 1 + 1⟩) hrest]
  rfl

/-! ## Lines one after the other -/

/-- Reading the lines of `s`, followed by any text that starts with no blank,
takes a builder holding `doc` with `path` open to one holding `doc'` with
`path'` open, in at most one step of fuel per character of `s`. -/
def Reads (s : List Char) (doc : List (String × Value)) (path : List String)
    (doc' : List (String × Value)) (path' : List String) : Prop :=
  LineStart s ∧ ∃ n ≤ s.length, ∀ b, b.Holds doc path → ∀ rest, (∀ x ∈ rest.head?, isBlankChar x = false) →
    ∀ fuel off, ∃ b' off', b'.Holds doc' path' ∧
      lines (fuel + 1 + n) b ⟨s ++ rest, off⟩ = lines (fuel + 1) b' ⟨rest, off'⟩

theorem reads_nil (doc : List (String × Value)) (path : List String) : Reads [] doc path doc path :=
  ⟨by simp [LineStart], 0, le_refl _, fun b h _ _ _ off => ⟨b, off, h, rfl⟩⟩

/-- Nothing read leaves the table being filled as it is. -/
theorem reads_stay (doc : List (String × Value)) (path : List String) :
    Reads [] doc path (appendAt path [] doc) path :=
  ⟨by simp [LineStart], 0, le_refl _, fun b h _ _ _ off => ⟨b, off, by rwa [h.appendAt_nil], rfl⟩⟩

theorem lineStart_append {s t : List Char} (hs : LineStart s) (ht : LineStart t) : LineStart (s ++ t) := by
  cases s with
  | nil => simpa using ht
  | cons x s => simpa [LineStart] using hs

theorem blankFree_append {s t : List Char} (hs : LineStart s) (ht : ∀ x ∈ t.head?, isBlankChar x = false) :
    ∀ x ∈ (s ++ t).head?, isBlankChar x = false := by
  cases s with
  | nil => simpa using ht
  | cons x s =>
    simp only [LineStart, List.head?_cons, Option.mem_def, Option.some.injEq, forall_eq'] at hs
    simpa using hs.1

/-- Reading two texts one after the other. -/
theorem Reads.append {s t : List Char} {doc₁ doc₂ doc₃ : List (String × Value)}
    {path₁ path₂ path₃ : List String} (h₁ : Reads s doc₁ path₁ doc₂ path₂) (h₂ : Reads t doc₂ path₂ doc₃ path₃) :
    Reads (s ++ t) doc₁ path₁ doc₃ path₃ := by
  obtain ⟨hs, n₁, hn₁, run₁⟩ := h₁
  obtain ⟨ht, n₂, hn₂, run₂⟩ := h₂
  refine ⟨lineStart_append hs ht, n₁ + n₂, by simp only [List.length_append]; omega,
    fun b hb rest hrest fuel off => ?_⟩
  obtain ⟨b₁, off₁, hb₁, hrun₁⟩ := run₁ b hb (t ++ rest) (blankFree_append ht hrest) (fuel + n₂) off
  obtain ⟨b₂, off₂, hb₂, hrun₂⟩ := run₂ b₁ hb₁ rest hrest fuel off₁
  refine ⟨b₂, off₂, hb₂, ?_⟩
  calc lines (fuel + 1 + (n₁ + n₂)) b ⟨s ++ t ++ rest, off⟩
      = lines (fuel + n₂ + 1 + n₁) b ⟨s ++ (t ++ rest), off⟩ := by
        rw [List.append_assoc, show fuel + 1 + (n₁ + n₂) = fuel + n₂ + 1 + n₁ by omega]
    _ = lines (fuel + 1 + n₂) b₁ ⟨t ++ rest, off₁⟩ := by
        rw [hrun₁, show fuel + n₂ + 1 = fuel + 1 + n₂ by omega]
    _ = lines (fuel + 1) b₂ ⟨rest, off₂⟩ := hrun₂

theorem reads_newline (doc : List (String × Value)) (path : List String) : Reads ['\n'] doc path doc path :=
  ⟨by simp [LineStart, isBlankChar], 1, le_refl _, fun b h _ hrest fuel off =>
    ⟨b, off + 1, h, lines_newline hrest (fuel + 1) b off⟩⟩

/-- A key-value line adds its pair to the table being filled. -/
theorem reads_pair {doc : List (String × Value)} {path : List String} {k : String} (hk : BareKey k)
    (hfresh : lookup k (tableAt path doc) = none) {v : Value} (hv : v.IsScalar) (spread : Bool) :
    Reads (lineText spread (k, v)).toList doc path (appendAt path [(k, v)] doc) path := by
  obtain ⟨c, cs, hc⟩ := List.exists_cons_of_ne_nil hk.1
  have hcb := hk.2 c (by simp [hc])
  have htext : (lineText spread (k, v)).toList =
      c :: (cs ++ ' ' :: '=' :: ' ' :: ((v.inlineText spread).toList ++ ['\n'])) := by
    simp [lineText, keyText_bare hk, hc]
  refine ⟨?_, 1, by simp [htext], fun b h rest hrest fuel off => ?_⟩
  · rw [htext]
    simp only [LineStart, List.head?_cons, Option.mem_def, Option.some.injEq, forall_eq']
    exact ⟨blank_of_bare hcb, by rintro rfl; revert hcb; decide⟩
  · exact lines_pair h hk hfresh hv spread hrest fuel off

/-- A header opens an empty table at its path, after a blank line unless it is
the first line. -/
theorem reads_headerText {doc : List (String × Value)} {q init : List String} {k : String}
    (hp : ∀ x ∈ init ++ [k], BareKey x) (hopen : PathOpen init doc) (hk : lookup k (tableAt init doc) = none)
    (first : Bool) :
    Reads (headerText (init ++ [k]) false first).toList doc q (appendAt init [(k, .table [])] doc) (init ++ [k]) := by
  have hline : Reads ('[' :: ((".".intercalate (init ++ [k])).toList ++ [']', '\n'])) doc q
      (appendAt init [(k, .table [])] doc) (init ++ [k]) := by
    refine ⟨by simp [LineStart, isBlankChar], 1, by simp, fun b h rest hrest fuel off => ?_⟩
    obtain ⟨b', off', hb', hrun⟩ := lines_header h hp hopen hk hrest (fuel + 1) off
    exact ⟨b', off', hb', by simpa using hrun⟩
  rw [toList_headerText hp]
  cases first with
  | true => simpa using hline
  | false => exact (reads_newline doc q).append hline

end Reader

/-! ## Reading a document back -/

/-- The key-value lines of a table add its line entries to the table being
filled. -/
theorem reads_body (spread : Bool) {path : List String} {es : List (String × Value)} (hes : PlainTable es)
    {doc : List (String × Value)} (hopen : PathOpen path doc)
    (hfresh : ∀ kv ∈ lineEntries es, lookup kv.1 (tableAt path doc) = none) :
    Reads (String.join ((lineEntries es).map (lineText spread))).toList doc path
      (appendAt path (lineEntries es) doc) path := by
  induction es generalizing doc with
  | nil => simpa [lineEntries] using reads_stay doc path
  | cons e rest ih =>
    obtain ⟨k, v⟩ := e
    obtain ⟨hk, hkr, hv, hrest⟩ := hes
    rw [lineEntries_cons] at hfresh ⊢
    cases hsec : v.isSection
    · simp only [hsec, Bool.false_eq_true, if_false] at hfresh ⊢
      have hk0 := hfresh (k, v) List.mem_cons_self
      -- the keys after `k` are not `k`, and were not at the path before
      have hfresh' : ∀ kv ∈ lineEntries rest, lookup kv.1 (tableAt path (appendAt path [(k, v)] doc)) = none := by
        intro kv hkv
        rw [tableAt_appendAt hopen, lookup_append_of_none (hfresh kv (List.mem_cons_of_mem _ hkv)), lookup_cons,
          if_neg ((lookup_eq_none_iff.1 hkr kv (mem_of_mem_lineEntries hkv)).symm)]
        rfl
      have hread := (reads_pair hk hk0 (hv.isScalar hsec) spread).append
        (ih hrest (pathOpen_appendAt hopen _) hfresh')
      rw [appendAt_appendAt, List.singleton_append] at hread
      simpa using hread
    · simp only [hsec, if_true] at hfresh ⊢
      exact ih hrest hopen hfresh

/-! ## The tables of a document -/

/-- The tables among `es`, written below `path`, read from a document that has
`path` open and none of their keys there: they are added at `path` in the
order of `sectionEntries`, whichever table was being filled before. Where
nothing is added, `path` must be in the document already. -/
def SectionsRead (spread : Bool) (path : List String) (es : List (String × Value)) : Prop :=
  ∀ doc, PathOpen path doc → (sectionEntries es = [] → appendAt path [] doc = doc) →
    (∀ kv ∈ sectionEntries es, lookup kv.1 (tableAt path doc) = none) →
    ∀ first q, ∃ q', Reads (sectionsText spread path es first).1.toList doc q
      (appendAt path (sectionEntries es) doc) q'

theorem sectionsRead_nil (spread : Bool) (path : List String) : SectionsRead spread path [] := by
  intro doc _ hmade _ first q
  simp only [sectionEntries, forall_const] at hmade ⊢
  rw [hmade]
  exact ⟨q, by simpa [sectionsText] using reads_nil doc q⟩

theorem sectionsRead_of_isScalar {spread : Bool} {path : List String} {v : Value} (hv : v.IsScalar) (k : String)
    {rest : List (String × Value)} (h : SectionsRead spread path rest) :
    SectionsRead spread path ((k, v) :: rest) := by
  intro doc hopen hmade hfresh first q
  simp only [sectionEntries_of_isScalar hv] at hmade hfresh ⊢
  rw [sectionsText_of_isScalar spread path hv]
  exact h doc hopen hmade hfresh first q

/-- A table below `path` under a fresh key: its header, unless it has tables
and no lines, then its lines, then its tables. -/
theorem reads_tableSection {spread : Bool} {path : List String} {k : String} (hp : ∀ x ∈ path ++ [k], BareKey x)
    {inner : List (String × Value)} (hinner : PlainTable inner) (hbelow : SectionsRead spread (path ++ [k]) inner)
    {doc : List (String × Value)} (hopen : PathOpen path doc) (hk : lookup k (tableAt path doc) = none)
    (first f : Bool) (q : List String) :
    ∃ q', Reads ((headAndValues spread (path ++ [k]) false inner first).1 ++
      (sectionsText spread (path ++ [k]) inner f).1).toList doc q
      (appendAt path [(k, .table (lineEntries inner ++ sectionEntries inner))] doc) q' := by
  rw [headAndValues_eq, if_neg (by simp)]
  split_ifs with hw
  · -- the header opens the table, its lines fill it, its tables follow
    have hbody := reads_body spread hinner (pathOpen_made hopen hk [])
      (fun kv _ => by rw [tableAt_made hopen hk]; rfl)
    rw [appendAt_made hk, List.nil_append] at hbody
    obtain ⟨q', hsec⟩ := hbelow _ (pathOpen_made hopen hk _) (fun _ => by rw [appendAt_made hk, List.append_nil])
      (fun kv hkv => by rw [tableAt_made hopen hk]; exact sectionEntries_fresh_lines hinner kv hkv) f (path ++ [k])
    rw [appendAt_made hk] at hsec
    exact ⟨q', by simpa using ((reads_headerText hp hopen hk first).append hbody).append hsec⟩
  · -- no header: the first of its tables makes it
    simp only [Bool.or_eq_true, Bool.not_eq_eq_eq_not, Bool.not_true, List.isEmpty_eq_false_iff, ne_eq,
      List.isEmpty_iff, not_or, Decidable.not_not] at hw
    have hsne : sectionEntries inner ≠ [] := fun h => hw.2 (eq_nil_of_lines_sections hinner hw.1 h)
    obtain ⟨q', hsec⟩ := hbelow doc (pathOpen_fresh hopen hk) (fun h => absurd h hsne)
      (fun kv _ => by rw [tableAt_fresh hk]; rfl) f q
    rw [appendAt_fresh hk] at hsec
    exact ⟨q', by simpa [hw.1] using hsec⟩

theorem sectionsRead_table {spread : Bool} {path : List String} {k : String} (hp : ∀ x ∈ path ++ [k], BareKey x)
    {inner rest : List (String × Value)} (hkr : lookup k rest = none) (hinner : PlainTable inner)
    (hbelow : SectionsRead spread (path ++ [k]) inner) (hmore : SectionsRead spread path rest) :
    SectionsRead spread path ((k, .table inner) :: rest) := by
  intro doc hopen _ hfresh first q
  rw [sectionEntries] at hfresh ⊢
  have hk : lookup k (tableAt path doc) = none := hfresh _ List.mem_cons_self
  obtain ⟨f₁, f₂, htext⟩ := sectionsText_table spread path k inner rest first
  obtain ⟨q₁, hhead⟩ := reads_tableSection hp hinner hbelow hopen hk first f₁ q
  -- the tables after this one have other keys, not yet at the path
  have hfresh' : ∀ kv ∈ sectionEntries rest, lookup kv.1
      (tableAt path (appendAt path [(k, .table (lineEntries inner ++ sectionEntries inner))] doc)) = none := by
    intro kv hkv
    rw [tableAt_appendAt hopen, lookup_append_of_none (hfresh kv (List.mem_cons_of_mem _ hkv)), lookup_cons,
      if_neg (key_ne_of_mem_sectionEntries hkr kv hkv).symm]
    rfl
  obtain ⟨q₂, hrest⟩ := hmore _ (pathOpen_appendAt hopen _) (fun _ => by rw [appendAt_appendAt, List.append_nil])
    hfresh' f₂ q₁
  rw [appendAt_appendAt] at hrest
  exact ⟨q₂, by simpa [htext] using hhead.append hrest⟩

/-- Every plain table's tables read back below a path of bare keys. -/
theorem sectionsRead (spread : Bool) : ∀ (es : List (String × Value)) (path : List String), PlainTable es →
    (∀ x ∈ path, BareKey x) → SectionsRead spread path es
  | [], path, _, _ => sectionsRead_nil spread path
  | (k, v) :: rest, path, ⟨hk, hkr, hv, hrest⟩, hp => by
    cases hsec : v.isSection
    · exact sectionsRead_of_isScalar (hv.isScalar hsec) k (sectionsRead spread rest path hrest hp)
    · obtain ⟨inner, rfl, hinner⟩ := hv.table_of_isSection hsec
      have hp' : ∀ x ∈ path ++ [k], BareKey x := by
        simpa [or_imp, forall_and] using And.intro hp hk
      exact sectionsRead_table hp' hkr hinner (sectionsRead spread inner (path ++ [k]) hinner hp')
        (sectionsRead spread rest path hrest hp)
termination_by es => sizeOf es

/-- A plain table's document reads back, line by line, into its entries: the
lines of the root first, then its tables, each laid out the same way. -/
theorem reads_documentText {es : List (String × Value)} (hes : PlainTable es) (spread : Bool) :
    ∃ q, Reads (documentText spread es).toList [] [] (lineEntries es ++ sectionEntries es) q := by
  obtain ⟨first, htext⟩ := documentText_eq spread es
  have hbody := @reads_body spread [] es hes [] trivial (fun kv _ => rfl)
  obtain ⟨q, hsec⟩ := sectionsRead spread es [] hes (by simp) (lineEntries es) trivial
    (fun _ => by simp [appendAt, modifyAt]) (sectionEntries_fresh_lines hes) first []
  refine ⟨q, ?_⟩
  rw [htext, String.toList_append]
  simpa [appendAt, modifyAt] using hbody.append hsec

/-- Reading a plain table's document gives back its entries, laid out as
`lineEntries` and `sectionEntries` say, in a tree of plain tables. -/
theorem parse_documentText {es : List (String × Value)} (hes : PlainTable es) (spread : Bool) :
    ∃ root, Tree.parse (documentText spread es) = .ok (.table .header root none) ∧ Tree.PlainEntries root ∧
      Tree.entryValues root = lineEntries es ++ sectionEntries es := by
  obtain ⟨q, hs, n, hn, run⟩ := reads_documentText hes spread
  obtain ⟨b, off, hb, hrun⟩ := run Builder.empty Builder.holds_empty [] (by simp)
    ((documentText spread es).toList.length + 1 - n) 0
  obtain ⟨b₀, hfin, hroot, hplain⟩ := hb.finish_ok
  refine ⟨b₀.root, ?_, hplain, hroot⟩
  rw [List.append_nil, show (documentText spread es).toList.length + 1 - n + 1 + n =
    (documentText spread es).toList.length + 2 by omega] at hrun
  have hbom : (documentText spread es).toList.head? ≠ some '\uFEFF' := fun h => (hs _ h).2 rfl
  have hblank : ∀ x ∈ (documentText spread es).toList.head?, isBlankChar x = false := fun x h => (hs x h).1
  simp only [Tree.parse, StateT.run, bind_apply, peek, get_apply, ok_bind, pure_apply]
  rw [if_neg hbom, bind_apply, blanks_of_head (c := ⟨(documentText spread es).toList, 0⟩) hblank, ok_bind, hrun, lines_end]
  simp only [hfin]

end LotBridge.Toml
