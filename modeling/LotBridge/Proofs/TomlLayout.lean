import LotBridge.Proofs.TomlSections

/-!
# Documents read back

The document writer (`documentText`) puts the values of a table on key-value
lines, each key in whichever form `keyText` gives it and each value in its
inline form, and every table below it under a header with its full path: a
table under `[path]`, unless it has tables and no values, in which case the
header of its first table makes it; an array of tables under one `[[path]]`
per element, each element's values and tables following its header.

Every readable table whose tables hold each key once, at any depth, reads back
from its document (`documentText_readBack`): the same entries, floats forgotten,
laid out as the writer lays them out (`layoutEntries`), in each table its
values before its tables. The reader builds it line by line: a header opens a
table, or a new element of an array of tables, and a key-value line adds its
pair to the table being filled (`Builder.Fills`). Texts read one after the
other compose (`Reader.ReadsLines.append`), and the tables of a document are
read by induction along the recursion of the writer (`tablesRead`,
`elementsRead`).

## Main definitions

* `sectionLayout`, `arrayLayout`, `layoutEntries`: the entries of a table in
  the order its document gives them.
* `Reader.ReadsLines`: what reading the lines of a text does to the document
  read.
* `TablesRead`, `ElementsRead`: what reading the tables below a path adds.

## Main statements

* `Reader.lines_pairLine`, `Reader.lines_tableHeader`,
  `Reader.lines_arrayHeader`: one line of each kind.
* `tablesRead`, `elementsRead`: the tables of a table, and of an array of
  tables, read below their path.
* `distinct_layoutEntries`: a layout keeps each key of every table once.
* `documentText_readBack`: a table's document reads back.
-/

namespace LotBridge.Toml

open Reader

/-! ## The layout of a document -/

mutual

/-- The tables among a table's entries, laid out as a document writes them: a
table with its values before its own tables, an array of tables element by
element. -/
def sectionLayout : List (String × Value) → List (String × Value)
  | [] => []
  | (k, .table inner) :: rest => (k, .table (lineEntries inner ++ sectionLayout inner)) :: sectionLayout rest
  | (k, .array items) :: rest =>
    if (Value.array items).isTableArray then (k, .array (arrayLayout items)) :: sectionLayout rest
    else sectionLayout rest
  | _ :: rest => sectionLayout rest

/-- The tables of an array of tables, laid out. -/
def arrayLayout : List Value → List Value
  | [] => []
  | .table inner :: rest => .table (lineEntries inner ++ sectionLayout inner) :: arrayLayout rest
  | _ :: rest => arrayLayout rest

end

/-- A table's entries in the order its document gives them: its values, then
its tables, laid out. -/
def layoutEntries (es : List (String × Value)) : List (String × Value) :=
  lineEntries es ++ sectionLayout es

/-! ### Keys of a layout -/

theorem mem_lineEntries {kv : String × Value} {es : List (String × Value)} (h : kv ∈ lineEntries es) :
    kv ∈ es ∧ kv.2.isSection = false := by
  simpa [lineEntries] using h

/-- The tables of a layout are tables among the entries, under their keys. -/
theorem mem_sectionLayout {kv : String × Value} :
    ∀ {es : List (String × Value)}, kv ∈ sectionLayout es → ∃ v, (kv.1, v) ∈ es ∧ v.isSection = true
  | [], h => by simp [sectionLayout] at h
  | (k, v) :: rest, h => by
    have hrest : kv ∈ sectionLayout rest → ∃ w, (kv.1, w) ∈ (k, v) :: rest ∧ w.isSection = true := fun h' => by
      obtain ⟨w, hw, hs⟩ := mem_sectionLayout h'
      exact ⟨w, List.mem_cons_of_mem _ hw, hs⟩
    cases v with
    | table inner =>
      rcases List.mem_cons.1 (by simpa [sectionLayout] using h) with rfl | h
      · exact ⟨.table inner, List.mem_cons_self, rfl⟩
      · exact hrest h
    | array items =>
      by_cases harr : (Value.array items).isTableArray = true
      · rw [sectionLayout, if_pos harr] at h
        rcases List.mem_cons.1 h with rfl | h
        · exact ⟨.array items, List.mem_cons_self, by simp [Value.isSection, harr]⟩
        · exact hrest h
      · rw [sectionLayout, if_neg harr] at h
        exact hrest h
    | string | integer | float | boolean | datetime => exact hrest (by simpa [sectionLayout] using h)

/-- Under keys that appear once, no table of a table shares its key with one of
its values. -/
theorem sectionLayout_fresh_lines {es : List (String × Value)} (hk : (es.map Prod.fst).Nodup) :
    ∀ kv ∈ sectionLayout es, lookup kv.1 (lineEntries es) = none := by
  intro kv hkv
  obtain ⟨v, hv, hsec⟩ := mem_sectionLayout hkv
  rw [lookup_eq_none_iff]
  intro kw hkw heq
  obtain ⟨hkw, hsec'⟩ := mem_lineEntries hkw
  have hsame : kw = (kv.1, v) := List.inj_on_of_nodup_map hk hkw hv heq
  rw [hsame] at hsec'
  rw [hsec] at hsec'
  cases hsec'

theorem key_ne_of_mem_lineEntries {k : String} {rest : List (String × Value)} (h : lookup k rest = none)
    {kv : String × Value} (hkv : kv ∈ lineEntries rest) : kv.1 ≠ k :=
  lookup_eq_none_iff.1 h _ (mem_lineEntries hkv).1

theorem key_ne_of_mem_sectionLayout {k : String} {rest : List (String × Value)} (h : lookup k rest = none)
    {kv : String × Value} (hkv : kv ∈ sectionLayout rest) : kv.1 ≠ k := by
  obtain ⟨v, hv, -⟩ := mem_sectionLayout hkv
  exact (lookup_eq_none_iff.1 h _ hv).symm ∘ Eq.symm

theorem sectionLayout_skip (k : String) {v : Value} (h : v.isSection = false) (rest : List (String × Value)) :
    sectionLayout ((k, v) :: rest) = sectionLayout rest := by
  cases v with
  | table => cases h
  | array items =>
    have harr : (Value.array items).isTableArray = false := by simpa [Value.isSection, Value.isTable] using h
    rw [sectionLayout, if_neg (by simp [harr])]
  | string | integer | float | boolean | datetime => simp [sectionLayout]

theorem keys_sectionLayout (es : List (String × Value)) :
    ((sectionLayout es).map Prod.fst).Sublist (es.map Prod.fst) := by
  induction es with
  | nil => simp [sectionLayout]
  | cons e rest ih =>
    obtain ⟨k, v⟩ := e
    cases v with
    | table inner => simpa [sectionLayout] using ih.cons_cons k
    | array items =>
      by_cases harr : (Value.array items).isTableArray = true
      · simpa [sectionLayout, harr] using ih.cons_cons k
      · simpa [sectionLayout, harr] using ih.cons k
    | string | integer | float | boolean | datetime => simpa [sectionLayout] using ih.cons k

/-- A layout keeps the keys of a table, each once when they were. -/
theorem nodup_keys_layoutEntries {es : List (String × Value)} (hk : (es.map Prod.fst).Nodup) :
    ((layoutEntries es).map Prod.fst).Nodup := by
  rw [layoutEntries, List.map_append, List.nodup_append]
  refine ⟨hk.sublist ((List.filter_sublist).map _), hk.sublist (keys_sectionLayout es), ?_⟩
  intro a ha b hb hab
  obtain ⟨kv, hkv, rfl⟩ := List.mem_map.1 hb
  obtain ⟨kw, hkw, rfl⟩ := List.mem_map.1 ha
  exact lookup_eq_none_iff.1 (sectionLayout_fresh_lines hk kv hkv) kw hkw hab

/-- A table laid out with its tables laid out keeps its keys distinct. -/
theorem distinct_laidTable {inner : List (String × Value)} (hv : (Value.table inner).Distinct)
    (hsec : ∀ kv ∈ sectionLayout inner, kv.2.Distinct) :
    (Value.table (lineEntries inner ++ sectionLayout inner)).Distinct := by
  rw [Value.distinct_table] at hv ⊢
  refine ⟨nodup_keys_layoutEntries hv.1, fun kv hkv => ?_⟩
  rcases List.mem_append.1 hkv with hkv | hkv
  · exact hv.2 kv (mem_lineEntries hkv).1
  · exact hsec kv hkv

mutual

/-- The tables of a layout hold each key once, at any depth, when the table's
values do. -/
theorem distinct_sectionLayout : ∀ (es : List (String × Value)), (∀ kv ∈ es, kv.2.Distinct) →
    ∀ kv ∈ sectionLayout es, kv.2.Distinct
  | [], _ => by simp [sectionLayout]
  | (k, v) :: rest, h => by
    have hrest := distinct_sectionLayout rest fun kv hkv => h kv (List.mem_cons_of_mem _ hkv)
    have hv : v.Distinct := h (k, v) List.mem_cons_self
    cases v with
    | table inner =>
      simp only [sectionLayout, List.mem_cons, forall_eq_or_imp]
      exact ⟨distinct_laidTable hv (distinct_sectionLayout inner ((Value.distinct_table inner).1 hv).2), hrest⟩
    | array items =>
      by_cases harr : (Value.array items).isTableArray = true
      · simp only [sectionLayout, if_pos harr, List.mem_cons, forall_eq_or_imp, Value.distinct_array]
        exact ⟨distinct_arrayLayout items ((Value.distinct_array items).1 hv), hrest⟩
      · simpa [sectionLayout, harr] using hrest
    | string | integer | float | boolean | datetime => simpa [sectionLayout] using hrest
termination_by es => sizeOf es

/-- The tables of an array of tables, laid out, hold each key once. -/
theorem distinct_arrayLayout : ∀ (items : List Value), (∀ v ∈ items, v.Distinct) → ∀ v ∈ arrayLayout items, v.Distinct
  | [], _ => by simp [arrayLayout]
  | v :: rest, h => by
    have hrest := distinct_arrayLayout rest fun w hw => h w (List.mem_cons_of_mem _ hw)
    have hv : v.Distinct := h v List.mem_cons_self
    cases v with
    | table inner =>
      simp only [arrayLayout, List.mem_cons, forall_eq_or_imp]
      exact ⟨distinct_laidTable hv (distinct_sectionLayout inner ((Value.distinct_table inner).1 hv).2), hrest⟩
    | string | integer | float | boolean | datetime | array => simpa [arrayLayout] using hrest
termination_by items => sizeOf items

end

/-- Laying a table out keeps its keys, and those of every table in it,
distinct. -/
theorem distinct_layoutEntries {es : List (String × Value)} (h : (Value.table es).Distinct) :
    (Value.table (layoutEntries es)).Distinct :=
  distinct_laidTable h (distinct_sectionLayout es ((Value.distinct_table es).1 h).2)

/-- A table with entries but no values has tables. -/
theorem sectionLayout_ne_nil {es : List (String × Value)} (hne : es ≠ []) (hl : lineEntries es = []) :
    sectionLayout es ≠ [] := by
  obtain ⟨⟨k, v⟩, rest, rfl⟩ := List.exists_cons_of_ne_nil hne
  cases hsec : v.isSection
  · rw [lineEntries_cons, hsec] at hl
    cases hl
  · cases v with
    | table inner => simp [sectionLayout]
    | array items =>
      have harr : (Value.array items).isTableArray = true := by simpa [Value.isSection, Value.isTable] using hsec
      simp [sectionLayout, harr]
    | string | integer | float | boolean | datetime => cases hsec

theorem arrayLayout_ne_nil {items : List Value} (h : (Value.array items).isTableArray = true) :
    arrayLayout items ≠ [] := by
  obtain ⟨hne, hall⟩ := (Value.isTableArray_iff items).1 h
  obtain ⟨v, rest, rfl⟩ := List.exists_cons_of_ne_nil hne
  cases v with
  | table inner => simp [arrayLayout]
  | string | integer | float | boolean | datetime | array => cases hall _ List.mem_cons_self

theorem Value.blurEntries_append (es fs : List (String × Value)) :
    Value.blurEntries (es ++ fs) = Value.blurEntries es ++ Value.blurEntries fs := by
  simp [Value.blurEntries_eq_map]

theorem lookup_blurEntries (k : String) (es : List (String × Value)) :
    lookup k (Value.blurEntries es) = (lookup k es).map Value.blur := by
  induction es with
  | nil => rfl
  | cons e rest ih =>
    obtain ⟨k', v⟩ := e
    rw [Value.blurEntries, lookup_cons, lookup_cons]
    split_ifs
    · rfl
    · exact ih

/-! ## Arrays of tables below a path -/

section Elements

variable {path : List String} {k : String} {doc : List (String × Value)}

/-- Tables pushed under a fresh key make the array. -/
theorem pushTables_fresh (h : lookup k (sectionAt path doc) = none) (ts : List Value) :
    alterAt (pushTables k ts) path doc = extendAt path [(k, .array ts)] doc := by
  apply alterAt_congr
  simp [pushTables, h]

theorem alterAt_pushTables_pushTables (hslot : TablesSlot k (sectionAt path doc)) (ts us : List Value) :
    alterAt (pushTables k us) path (alterAt (pushTables k ts) path doc) =
      alterAt (pushTables k (ts ++ us)) path doc := by
  rw [alterAt_alterAt]
  exact alterAt_congr path doc (pushTables_pushTables hslot ts us)

/-- Entries appended below an array of tables go into the table last pushed. -/
theorem extendAt_pushed (hslot : TablesSlot k (sectionAt path doc)) (ys xs : List (String × Value)) :
    extendAt (path ++ [k]) xs (alterAt (pushTables k [.table ys]) path doc) =
      alterAt (pushTables k [.table (ys ++ xs)]) path doc := by
  unfold extendAt
  rw [alterAt_append, alterAt_alterAt]
  exact alterAt_congr path doc (alterAt_pushTables _ hslot ys)

theorem sectionAt_pushed (hopen : SectionOpen path doc) (hslot : TablesSlot k (sectionAt path doc))
    (ys : List (String × Value)) : sectionAt (path ++ [k]) (alterAt (pushTables k [.table ys]) path doc) = ys := by
  obtain ⟨items, hl, hall⟩ := lookup_pushTables hslot [.table ys]
  rw [sectionAt_append, sectionAt_alterAt _ hopen, sectionAt_cons_some hl (section?_push hall ys)]
  rfl

theorem sectionOpen_pushed (hopen : SectionOpen path doc) (hslot : TablesSlot k (sectionAt path doc))
    (ys : List (String × Value)) : SectionOpen (path ++ [k]) (alterAt (pushTables k [.table ys]) path doc) := by
  obtain ⟨items, hl, hall⟩ := lookup_pushTables hslot [.table ys]
  rw [sectionOpen_append, sectionAt_alterAt _ hopen]
  refine ⟨sectionOpen_alterAt _ hopen, ?_⟩
  simp only [SectionOpen, hl, section?_push hall]

/-- After a table is pushed, the next `[[...]]` header has an array of tables
to add to. -/
theorem arrayOpen_pushed (hopen : SectionOpen path doc) (hslot : TablesSlot k (sectionAt path doc))
    (ys : List (String × Value)) : ArrayOpen k (sectionAt path (alterAt (pushTables k [.table ys]) path doc)) := by
  obtain ⟨items, hl, hall⟩ := lookup_pushTables hslot [.table ys]
  rw [sectionAt_alterAt _ hopen]
  refine Or.inr ⟨_, hl, (Value.isTableArray_iff _).2 ⟨by simp, fun v hv => ?_⟩⟩
  rcases List.mem_append.1 hv with hv | hv
  · exact hall v hv
  · simp only [List.mem_singleton] at hv
    rw [hv]
    rfl

end Elements

/-! ## The writer's text, unfolded -/

theorem sectionsText_array (path : List String) (k : String) {items : List Value}
    (h : (Value.array items).isTableArray = true) (rest : List (String × Value)) (first : Bool) :
    ∃ f, (sectionsText false path ((k, .array items) :: rest) first).1 =
      (tableArrayText false (path ++ [k]) items first).1 ++ (sectionsText false path rest f).1 := by
  rw [sectionsText, if_pos h]
  exact ⟨_, rfl⟩

/-- Values written on lines of their own add nothing below a table. -/
theorem sectionsText_skip (path : List String) (k : String) {v : Value} (h : v.isSection = false)
    (rest : List (String × Value)) (first : Bool) :
    sectionsText false path ((k, v) :: rest) first = sectionsText false path rest first := by
  cases v with
  | table => cases h
  | array items =>
    have harr : (Value.array items).isTableArray = false := by simpa [Value.isSection, Value.isTable] using h
    rw [sectionsText, if_neg (by simp [harr])]
  | string | integer | float | boolean | datetime => simp [sectionsText]

theorem tableArrayText_table (path : List String) (inner : List (String × Value)) (rest : List Value)
    (first : Bool) : ∃ f₁ f₂, (tableArrayText false path (.table inner :: rest) first).1 =
      (headAndValues false path true inner first).1 ++ (sectionsText false path inner f₁).1 ++
        (tableArrayText false path rest f₂).1 := by
  rw [tableArrayText]
  exact ⟨_, _, rfl⟩

theorem tableArrayText_skip (path : List String) {v : Value} (h : v.isTable = false) (rest : List Value)
    (first : Bool) : tableArrayText false path (v :: rest) first = tableArrayText false path rest first := by
  cases v with
  | table => cases h
  | string | integer | float | boolean | datetime | array => simp [tableArrayText]

/-- Every element of an array of tables has its header. -/
theorem headAndValues_element {path : List String} (hp : path ≠ []) (es : List (String × Value)) (first : Bool) :
    headAndValues false path true es first =
      (headerText path true first ++ String.join ((lineEntries es).map (lineText false)), false) := by
  have hpe : path.isEmpty = false := List.isEmpty_eq_false_iff.2 hp
  unfold headAndValues
  simp only [hpe, Bool.true_or, if_true, Bool.false_eq_true, if_false]
  rfl

namespace Reader

/-! ## One line -/

theorem value_text_head {v : Value} (hr : v.Readable) (hd : v.Distinct) (rest : List Char) :
    ∃ x r, (v.inlineText false).toList = x :: r ∧ LineFree x := by
  obtain ⟨tr, off', hval, -⟩ := value_readBack v hr hd ((v.inlineText false).toList.length + 1) '\n' rest
    ⟨Or.inl rfl, by simp⟩ (by omega) 0
  exact value_head (Or.inl rfl) hval

/-- A key-value line adds its pair to the table being filled, its key in
whichever form it was written and its value read back, floats forgotten. -/
theorem lines_pairLine {b : Builder} {doc : List (String × Value)} {path : List String} {arr : Bool}
    (h : b.Fills doc path arr) {k : String} (hfresh : lookup k (sectionAt path doc) = none) {v : Value}
    (hr : v.Readable) (hd : v.Distinct) (hsec : v.isSection = false) {rest : List Char}
    (hrest : ∀ x ∈ rest.head?, isBlankChar x = false) {fuel : Nat}
    (hfuel : (v.inlineText false).toList.length < fuel) (off : Nat) :
    ∃ b' off', b'.Fills (extendAt path [(k, v.blur)] doc) path arr ∧
      lines (fuel + 1) b ⟨(lineText false (k, v)).toList ++ rest, off⟩ = lines fuel b' ⟨rest, off'⟩ := by
  obtain ⟨sp, off₁, hkey⟩ := @dottedKey_keyPair [] (by simp) k
    (' ' :: ((v.inlineText false).toList ++ '\n' :: rest)) off
  rw [List.nil_append] at hkey
  obtain ⟨tr, off₂, hval, htr⟩ := value_readBack v hr hd fuel '\n' rest ⟨Or.inl rfl, by simp⟩ hfuel (off₁ + 1 + 1)
  obtain ⟨x, r, hxr, hx⟩ := value_text_head hr hd rest
  obtain ⟨b', hadd, hb'⟩ := h.addPair hfresh sp (htr.laid hsec)
  refine ⟨b', off₂ + 1, by rwa [htr.1] at hb', ?_⟩
  have htext : (lineText false (k, v)).toList ++ rest =
      (keyText k).toList ++ ' ' :: '=' :: ' ' :: ((v.inlineText false).toList ++ '\n' :: rest) := by
    simp [lineText]
  obtain ⟨c, cs, hc, hck⟩ := keyText_head k
  obtain ⟨h1, h2, h3, h4, h5, -⟩ := hck.ne
  rw [htext, lines]
  simp only [bind_apply, ahead, get_apply, ok_bind, pure_apply]
  generalize hT : (keyText k).toList ++ ' ' :: '=' :: ' ' :: ((v.inlineText false).toList ++ '\n' :: rest) = T
  have hT' := hT
  rw [hc, List.cons_append] at hT'
  split
  · exact absurd hT' (List.cons_ne_nil _ _)
  · exact absurd (List.cons.inj hT').1 h2
  · exact absurd (List.cons.inj hT').1 h3
  · exact absurd (List.cons.inj hT').1 h4
  · exact absurd (List.cons.inj hT').1 h5
  · exact absurd (List.cons.inj hT').1 h5
  · subst hT
    have hv0 : ∀ y ∈ ((v.inlineText false).toList ++ '\n' :: rest).head?, isBlankChar y = false := by
      simpa [hxr] using hx.1
    rw [bind_apply, pairLine]
    simp only [bind_apply, offset, get_apply, ok_bind, pure_apply, commit_ok hkey, peek]
    -- the condition is rewritten as written: reducing `head?` first would leave its instance behind
    rw [if_pos (show ('=' :: ' ' :: ((v.inlineText false).toList ++ '\n' :: rest)).head? = some '=' from rfl)]
    simp only [bind_apply, ok_bind, pure_apply, bump_cons, show '='.utf8Size = 1 from rfl, blanks_space hv0,
      commit_ok hval, lineTrailing_newline, hadd]
    rw [blanks_of_head (c := ⟨rest, off₂ + 1⟩) hrest]
    rfl

/-- The name of a header: its keys, each in whichever form `keyText` gives it,
joined by dots. -/
theorem keyPath_head {path : List String} (hne : path ≠ []) :
    ∃ c cs, (".".intercalate (path.map keyText)).toList = c :: cs ∧ KeyStart c := by
  obtain ⟨k₀, ks, rfl⟩ := List.exists_cons_of_ne_nil hne
  obtain ⟨c, cs, hc, hck⟩ := keyText_head k₀
  refine ⟨c, cs ++ ks.flatMap (fun k => '.' :: (keyText k).toList), ?_, hck⟩
  rw [List.map_cons, toList_intercalate, hc, List.cons_append, List.flatMap_map]
  rfl

/-- A header `[path]` opens an empty table at its path. -/
theorem lines_tableHeader {b : Builder} {doc : List (String × Value)} {path : List String} {arr : Bool}
    (h : b.Fills doc path arr) {init : List String} {k : String} (hopen : SectionOpen init doc)
    (hk : lookup k (sectionAt init doc) = none) {rest : List Char}
    (hrest : ∀ x ∈ rest.head?, isBlankChar x = false) (fuel off : Nat) :
    ∃ b' off', b'.Fills (extendAt init [(k, .table [])] doc) (init ++ [k]) false ∧
      lines (fuel + 1) b ⟨'[' :: ((".".intercalate ((init ++ [k]).map keyText)).toList ++ ']' :: '\n' :: rest), off⟩ =
        lines fuel b' ⟨rest, off'⟩ := by
  obtain ⟨keys, off₁, hkey, hnames⟩ := @dottedKey_keyPath (init ++ [k]) (by simp) ']' ⟨rfl, rfl, by decide⟩
    ('\n' :: rest) (off + 1)
  obtain ⟨b', hopen', hb'⟩ := h.openTable hnames hopen hk ⟨off, off₁ + 1⟩
  refine ⟨b', off₁ + 1 + 1, hb', ?_⟩
  obtain ⟨c, cs, hcs, hc⟩ := @keyPath_head (init ++ [k]) (by simp)
  have hhead : header b ⟨'[' :: ((".".intercalate ((init ++ [k]).map keyText)).toList ++ ']' :: '\n' :: rest), off⟩ =
      .ok (b', ⟨rest, off₁ + 1 + 1⟩) := by
    rw [header]
    refine within_ok ?_
    simp only [bind_apply, offset, ahead, get_apply, ok_bind, pure_apply]
    generalize hT : '[' :: ((".".intercalate ((init ++ [k]).map keyText)).toList ++ ']' :: '\n' :: rest) = T
    have hT' := hT
    rw [hcs, List.cons_append] at hT'
    split
    · exact absurd (List.cons.inj hT').2 (List.cons_ne_nil _ _)
    · exact absurd (List.cons.inj (List.cons.inj hT').2).1 hc.ne.2.2.1
    · subst hT
      simp only [bind_apply, bump_cons, show '['.utf8Size = 1 from rfl, ok_bind, commit_ok hkey, peek,
        get_apply, pure_apply]
      rw [if_pos (show (']' :: '\n' :: rest).head? = some ']' from rfl)]
      simp only [bind_apply, bump_cons, show ']'.utf8Size = 1 from rfl, ok_bind, get_apply, pure_apply,
        lineTrailing_newline, hopen']
  rw [lines]
  simp only [bind_apply, ahead, get_apply, ok_bind, pure_apply, hhead]
  rw [blanks_of_head (c := ⟨rest, off₁ + 1 + 1⟩) hrest]
  rfl

theorem skip_two (x y : Char) (r : List Char) (off : Nat) :
    skip 2 ⟨x :: y :: r, off⟩ = .ok ((), ⟨r, off + byteLength [x, y]⟩) := rfl

/-- A header `[[path]]` opens a new table at the end of the array of tables at
its path. -/
theorem lines_arrayHeader {b : Builder} {doc : List (String × Value)} {path : List String} {arr : Bool}
    (h : b.Fills doc path arr) {init : List String} {k : String} (hopen : SectionOpen init doc)
    (hslot : ArrayOpen k (sectionAt init doc)) {rest : List Char}
    (hrest : ∀ x ∈ rest.head?, isBlankChar x = false) (fuel off : Nat) :
    ∃ b' off', b'.Fills (alterAt (pushTables k [.table []]) init doc) (init ++ [k]) true ∧
      lines (fuel + 1) b
        ⟨'[' :: '[' :: ((".".intercalate ((init ++ [k]).map keyText)).toList ++ ']' :: ']' :: '\n' :: rest), off⟩ =
        lines fuel b' ⟨rest, off'⟩ := by
  obtain ⟨keys, off₁, hkey, hnames⟩ := @dottedKey_keyPath (init ++ [k]) (by simp) ']' ⟨rfl, rfl, by decide⟩
    (']' :: '\n' :: rest) (off + byteLength ['[', '['])
  obtain ⟨b', hopen', hb'⟩ := h.openArrayTable hnames hopen hslot ⟨off, off₁ + byteLength [']', ']']⟩
  refine ⟨b', off₁ + byteLength [']', ']'] + 1, hb', ?_⟩
  have hhead : header b
      ⟨'[' :: '[' :: ((".".intercalate ((init ++ [k]).map keyText)).toList ++ ']' :: ']' :: '\n' :: rest), off⟩ =
      .ok (b', ⟨rest, off₁ + byteLength [']', ']'] + 1⟩) := by
    rw [header]
    refine within_ok ?_
    simp only [bind_apply, offset, ahead, get_apply, ok_bind, pure_apply, skip_two, commit_ok hkey,
      startsWith_apply]
    rw [if_pos (show "]]".toList.isPrefixOf (']' :: ']' :: '\n' :: rest) = true from rfl)]
    simp only [bind_apply, skip_two, ok_bind, get_apply, pure_apply, lineTrailing_newline, hopen']
  rw [lines]
  simp only [bind_apply, ahead, get_apply, ok_bind, pure_apply, hhead]
  rw [blanks_of_head (c := ⟨rest, off₁ + byteLength [']', ']'] + 1⟩) hrest]
  rfl

/-! ## Lines one after the other -/

/-- Reading the lines of `s`, followed by any text that starts with no blank,
takes a builder filling `doc` at `path` to one filling `doc'` at `path'`, in
at most one step of fuel per character of `s`, given at least as much fuel as
`s` has characters. -/
def ReadsLines (s : List Char) (doc : List (String × Value)) (path : List String) (arr : Bool)
    (doc' : List (String × Value)) (path' : List String) (arr' : Bool) : Prop :=
  LineStart s ∧ ∃ n ≤ s.length, ∀ b, b.Fills doc path arr → ∀ rest, (∀ x ∈ rest.head?, isBlankChar x = false) →
    ∀ fuel, s.length ≤ fuel + n → ∀ off, ∃ b' off', b'.Fills doc' path' arr' ∧
      lines (fuel + n) b ⟨s ++ rest, off⟩ = lines fuel b' ⟨rest, off'⟩

section Lines

variable {doc doc₁ doc₂ doc₃ : List (String × Value)} {path path₁ path₂ path₃ : List String}
  {arr arr₁ arr₂ arr₃ : Bool}

theorem readsLines_nil (doc : List (String × Value)) (path : List String) (arr : Bool) :
    ReadsLines [] doc path arr doc path arr :=
  ⟨by simp [LineStart], 0, le_refl _, fun b h _ _ _ _ off => ⟨b, off, h, rfl⟩⟩

/-- Nothing read leaves the table being filled as it is. -/
theorem readsLines_stay (doc : List (String × Value)) (path : List String) (arr : Bool) :
    ReadsLines [] doc path arr (extendAt path [] doc) path arr :=
  ⟨by simp [LineStart], 0, le_refl _, fun b h _ _ _ _ off => ⟨b, off, by rwa [h.extendAt_nil], rfl⟩⟩

/-- Reading two texts one after the other. -/
theorem ReadsLines.append {s t : List Char} (h₁ : ReadsLines s doc₁ path₁ arr₁ doc₂ path₂ arr₂)
    (h₂ : ReadsLines t doc₂ path₂ arr₂ doc₃ path₃ arr₃) : ReadsLines (s ++ t) doc₁ path₁ arr₁ doc₃ path₃ arr₃ := by
  obtain ⟨hs, n₁, hn₁, run₁⟩ := h₁
  obtain ⟨ht, n₂, hn₂, run₂⟩ := h₂
  refine ⟨lineStart_append hs ht, n₁ + n₂, by simp only [List.length_append]; omega,
    fun b hb rest hrest fuel hfuel off => ?_⟩
  rw [List.length_append] at hfuel
  obtain ⟨b₁, off₁, hb₁, hrun₁⟩ := run₁ b hb (t ++ rest) (blankFree_append ht hrest) (fuel + n₂) (by omega) off
  obtain ⟨b₂, off₂, hb₂, hrun₂⟩ := run₂ b₁ hb₁ rest hrest fuel (by omega) off₁
  refine ⟨b₂, off₂, hb₂, ?_⟩
  calc lines (fuel + (n₁ + n₂)) b ⟨s ++ t ++ rest, off⟩
      = lines (fuel + n₂ + n₁) b ⟨s ++ (t ++ rest), off⟩ := by
        rw [List.append_assoc, show fuel + (n₁ + n₂) = fuel + n₂ + n₁ by omega]
    _ = lines (fuel + n₂) b₁ ⟨t ++ rest, off₁⟩ := hrun₁
    _ = lines fuel b₂ ⟨rest, off₂⟩ := hrun₂

theorem readsLines_newline (doc : List (String × Value)) (path : List String) (arr : Bool) :
    ReadsLines ['\n'] doc path arr doc path arr :=
  ⟨by simp [LineStart, isBlankChar], 1, le_refl _, fun b h _ hrest fuel _ off =>
    ⟨b, off + 1, h, lines_newline hrest fuel b off⟩⟩

/-- A key-value line adds its pair to the table being filled. -/
theorem readsLines_pair {k : String} (hfresh : lookup k (sectionAt path doc) = none) {v : Value}
    (hr : v.Readable) (hd : v.Distinct) (hsec : v.isSection = false) :
    ReadsLines (lineText false (k, v)).toList doc path arr (extendAt path [(k, v.blur)] doc) path arr := by
  obtain ⟨c, cs, hc, hck⟩ := keyText_head k
  have htext : (lineText false (k, v)).toList =
      c :: (cs ++ ' ' :: '=' :: ' ' :: ((v.inlineText false).toList ++ ['\n'])) := by
    simp [lineText, hc]
  refine ⟨?_, 1, by simp [htext], fun b h rest hrest fuel hfuel off => ?_⟩
  · rw [htext]
    simp only [LineStart, List.head?_cons, Option.mem_def, Option.some.injEq, forall_eq']
    refine ⟨hck.ne.1, ?_⟩
    rintro rfl
    rcases hck with h | h | h <;> revert h <;> decide
  · obtain ⟨f, rfl⟩ : ∃ f, fuel = f + 1 := ⟨fuel - 1, by rw [htext] at hfuel; simp at hfuel; omega⟩
    have hlen : (v.inlineText false).toList.length < f + 1 := by
      rw [htext] at hfuel
      simp only [List.length_cons, List.length_append, List.length_nil] at hfuel
      omega
    obtain ⟨b', off', hb', hrun⟩ := lines_pairLine h hfresh hr hd hsec hrest hlen off
    exact ⟨b', off', hb', hrun⟩

theorem toList_headerText_keyText (path : List String) (arr first : Bool) :
    (headerText path arr first).toList = (if first then [] else ['\n']) ++
      (if arr then '[' :: '[' :: ((".".intercalate (path.map keyText)).toList ++ [']', ']', '\n'])
       else '[' :: ((".".intercalate (path.map keyText)).toList ++ [']', '\n'])) := by
  cases first <;> cases arr <;> simp [headerText]

/-- A header `[path]` opens an empty table at its path, after a blank line
unless it is the first line. -/
theorem readsLines_tableHeader {init : List String} {k : String} (hopen : SectionOpen init doc)
    (hk : lookup k (sectionAt init doc) = none) (first : Bool) (path : List String) (arr : Bool) :
    ReadsLines (headerText (init ++ [k]) false first).toList doc path arr
      (extendAt init [(k, .table [])] doc) (init ++ [k]) false := by
  have hline : ReadsLines ('[' :: ((".".intercalate ((init ++ [k]).map keyText)).toList ++ [']', '\n'])) doc path arr
      (extendAt init [(k, .table [])] doc) (init ++ [k]) false := by
    refine ⟨by simp [LineStart, isBlankChar], 1, by simp, fun b h rest hrest fuel _ off => ?_⟩
    obtain ⟨b', off', hb', hrun⟩ := lines_tableHeader h hopen hk hrest fuel off
    exact ⟨b', off', hb', by simpa using hrun⟩
  rw [toList_headerText_keyText, if_neg Bool.false_ne_true]
  cases first with
  | true => simpa using hline
  | false => exact (readsLines_newline doc path arr).append hline

/-- A header `[[path]]` opens a new table at the end of the array of tables at
its path, after a blank line unless it is the first line. -/
theorem readsLines_arrayHeader {init : List String} {k : String} (hopen : SectionOpen init doc)
    (hslot : ArrayOpen k (sectionAt init doc)) (first : Bool) (path : List String) (arr : Bool) :
    ReadsLines (headerText (init ++ [k]) true first).toList doc path arr
      (alterAt (pushTables k [.table []]) init doc) (init ++ [k]) true := by
  have hline : ReadsLines ('[' :: '[' :: ((".".intercalate ((init ++ [k]).map keyText)).toList ++ [']', ']', '\n']))
      doc path arr (alterAt (pushTables k [.table []]) init doc) (init ++ [k]) true := by
    refine ⟨by simp [LineStart, isBlankChar], 1, by simp, fun b h rest hrest fuel _ off => ?_⟩
    obtain ⟨b', off', hb', hrun⟩ := lines_arrayHeader h hopen hslot hrest fuel off
    exact ⟨b', off', hb', by simpa using hrun⟩
  rw [toList_headerText_keyText, if_pos rfl]
  cases first with
  | true => simpa using hline
  | false => exact (readsLines_newline doc path arr).append hline

end Lines

end Reader

/-! ## The values of a table -/

/-- The key-value lines of a table add its values, floats forgotten, to the
table being filled. -/
theorem readsLines_body {es : List (String × Value)} (hr : ∀ kv ∈ es, kv.2.Readable)
    (hd : ∀ kv ∈ es, kv.2.Distinct) (hk : (es.map Prod.fst).Nodup) {doc : List (String × Value)}
    {path : List String} (arr : Bool) (hopen : SectionOpen path doc)
    (hfresh : ∀ kv ∈ lineEntries es, lookup kv.1 (sectionAt path doc) = none) :
    ReadsLines (String.join ((lineEntries es).map (lineText false))).toList doc path arr
      (extendAt path (Value.blurEntries (lineEntries es)) doc) path arr := by
  induction es generalizing doc with
  | nil => simpa [lineEntries, Value.blurEntries] using readsLines_stay doc path arr
  | cons e rest ih =>
    obtain ⟨k, v⟩ := e
    simp only [List.map_cons, List.nodup_cons, List.mem_map] at hk
    have hkr : lookup k rest = none := lookup_eq_none_iff.2 fun kv hkv heq => hk.1 ⟨kv, hkv, heq⟩
    have hr' := fun kv hkv => hr kv (List.mem_cons_of_mem _ hkv)
    have hd' := fun kv hkv => hd kv (List.mem_cons_of_mem _ hkv)
    rw [lineEntries_cons] at hfresh ⊢
    cases hsec : v.isSection
    · simp only [hsec, Bool.false_eq_true, if_false] at hfresh ⊢
      have hk0 := hfresh (k, v) List.mem_cons_self
      -- the keys after `k` are not `k`, and were not at the path before
      have hfresh' : ∀ kv ∈ lineEntries rest,
          lookup kv.1 (sectionAt path (extendAt path [(k, v.blur)] doc)) = none := by
        intro kv hkv
        rw [sectionAt_extendAt hopen, lookup_append_of_none (hfresh kv (List.mem_cons_of_mem _ hkv)),
          lookup_cons, if_neg (key_ne_of_mem_lineEntries hkr hkv).symm]
        rfl
      have hread := (readsLines_pair hk0 (hr _ List.mem_cons_self) (hd _ List.mem_cons_self) hsec).append
        (ih hr' hd' hk.2 (sectionOpen_extendAt hopen _) hfresh')
      rw [extendAt_extendAt, List.singleton_append] at hread
      simpa [Value.blurEntries] using hread
    · simp only [hsec, if_true] at hfresh ⊢
      exact ih hr' hd' hk.2 hopen hfresh

/-! ## The tables of a document -/

/-- The tables among `es`, written below `path`, read from a document that has
`path` open and none of their keys there: they are added at `path` as
`sectionLayout` lays them out, whichever table was being filled before. Where
nothing is added, `path` must be in the document already. -/
def TablesRead (path : List String) (es : List (String × Value)) : Prop :=
  ∀ doc, SectionOpen path doc → (sectionLayout es = [] → extendAt path [] doc = doc) →
    (∀ kv ∈ sectionLayout es, lookup kv.1 (sectionAt path doc) = none) →
    ∀ first q a, ∃ q' a', ReadsLines (sectionsText false path es first).1.toList doc q a
      (extendAt path (Value.blurEntries (sectionLayout es)) doc) q' a'

/-- The tables of an array under `k`, written below `path`, read from a
document where `k` at `path` is free or holds an array of tables: they are
pushed onto it, laid out. Where nothing is pushed, the array must be there
already. -/
def ElementsRead (path : List String) (k : String) (items : List Value) : Prop :=
  ∀ doc, SectionOpen path doc → ArrayOpen k (sectionAt path doc) →
    (arrayLayout items = [] → alterAt (pushTables k []) path doc = doc) →
    ∀ first q a, ∃ q' a', ReadsLines (tableArrayText false (path ++ [k]) items first).1.toList doc q a
      (alterAt (pushTables k ((arrayLayout items).map Value.blur)) path doc) q' a'

section Tables

variable {path : List String}

theorem tablesRead_nil (path : List String) : TablesRead path [] := by
  intro doc _ hmade _ first q a
  simp only [sectionLayout, forall_const] at hmade ⊢
  rw [Value.blurEntries, hmade]
  exact ⟨q, a, by simpa [sectionsText] using readsLines_nil doc q a⟩

theorem tablesRead_skip (k : String) {v : Value} (h : v.isSection = false) {rest : List (String × Value)}
    (hmore : TablesRead path rest) : TablesRead path ((k, v) :: rest) := by
  intro doc hopen hmade hfresh first q a
  rw [sectionLayout_skip k h] at hmade hfresh ⊢
  rw [sectionsText_skip path k h]
  exact hmore doc hopen hmade hfresh first q a

/-- One table under a fresh key, then the tables after it: what the first
adds, the others find at the path with their keys still free. -/
theorem tablesRead_cons {k : String} {v w : Value} {rest : List (String × Value)} (hkr : lookup k rest = none)
    (hlay : sectionLayout ((k, v) :: rest) = (k, w) :: sectionLayout rest)
    (hfirst : ∀ doc, SectionOpen path doc → lookup k (sectionAt path doc) = none → ∀ first q a,
      ∃ head f q' a', (sectionsText false path ((k, v) :: rest) first).1 = head ++ (sectionsText false path rest f).1 ∧
        ReadsLines head.toList doc q a (extendAt path [(k, w.blur)] doc) q' a')
    (hmore : TablesRead path rest) : TablesRead path ((k, v) :: rest) := by
  intro doc hopen _ hfresh first q a
  rw [hlay] at hfresh ⊢
  obtain ⟨head, f, q₁, a₁, htext, hhead⟩ := hfirst doc hopen (hfresh _ List.mem_cons_self) first q a
  have hfresh' : ∀ kv ∈ sectionLayout rest,
      lookup kv.1 (sectionAt path (extendAt path [(k, w.blur)] doc)) = none := by
    intro kv hkv
    rw [sectionAt_extendAt hopen, lookup_append_of_none (hfresh kv (List.mem_cons_of_mem _ hkv)), lookup_cons,
      if_neg (key_ne_of_mem_sectionLayout hkr hkv).symm]
    rfl
  obtain ⟨q₂, a₂, hrest⟩ := hmore _ (sectionOpen_extendAt hopen _)
    (fun _ => by rw [extendAt_extendAt, List.append_nil]) hfresh' f q₁ a₁
  rw [extendAt_extendAt] at hrest
  refine ⟨q₂, a₂, ?_⟩
  rw [htext, String.toList_append]
  simpa only [Value.blurEntries, List.singleton_append] using hhead.append hrest

/-- A table below `path` under a fresh key: its header, unless it has tables
and no values, then its values, then its tables. -/
theorem readsLines_tableSection {k : String} {inner : List (String × Value)} (hr : (Value.table inner).Readable)
    (hd : (Value.table inner).Distinct) (hbelow : TablesRead (path ++ [k]) inner) {doc : List (String × Value)}
    (hopen : SectionOpen path doc) (hk : lookup k (sectionAt path doc) = none) (first f : Bool)
    (q : List String) (a : Bool) :
    ∃ q' a', ReadsLines ((headAndValues false (path ++ [k]) false inner first).1 ++
      (sectionsText false (path ++ [k]) inner f).1).toList doc q a
      (extendAt path [(k, (Value.table (lineEntries inner ++ sectionLayout inner)).blur)] doc) q' a' := by
  rw [Value.readable_table] at hr
  rw [Value.distinct_table] at hd
  have hblur : (Value.table (lineEntries inner ++ sectionLayout inner)).blur =
      .table (Value.blurEntries (lineEntries inner) ++ Value.blurEntries (sectionLayout inner)) := by
    rw [← Value.blurEntries_append]
    rfl
  rw [headAndValues_eq, if_neg (by simp), hblur]
  split_ifs with hw
  · -- the header opens the table, its values fill it, its tables follow
    have hbody := readsLines_body hr hd.2 hd.1 false (sectionOpen_made hopen hk [])
      (fun kv _ => by rw [sectionAt_made hopen hk]; rfl)
    rw [extendAt_made hk, List.nil_append] at hbody
    obtain ⟨q', a', hsec⟩ := hbelow _ (sectionOpen_made hopen hk _)
      (fun _ => by rw [extendAt_made hk, List.append_nil])
      (fun kv hkv => by
        rw [sectionAt_made hopen hk, lookup_blurEntries, sectionLayout_fresh_lines hd.1 kv hkv]
        rfl) f (path ++ [k]) false
    rw [extendAt_made hk] at hsec
    refine ⟨q', a', ?_⟩
    simpa only [String.toList_append, List.append_assoc] using
      ((readsLines_tableHeader hopen hk first q a).append hbody).append hsec
  · -- no header: the first of its tables makes it
    simp only [Bool.or_eq_true, Bool.not_eq_eq_eq_not, Bool.not_true, List.isEmpty_eq_false_iff, ne_eq,
      List.isEmpty_iff, not_or, Decidable.not_not] at hw
    obtain ⟨q', a', hsec⟩ := hbelow doc (sectionOpen_fresh hopen hk)
      (fun h => absurd h (sectionLayout_ne_nil hw.2 hw.1)) (fun kv _ => by rw [sectionAt_fresh hk]; rfl) f q a
    rw [extendAt_fresh hk] at hsec
    refine ⟨q', a', ?_⟩
    simpa [hw.1, Value.blurEntries] using hsec

theorem tablesRead_table {k : String} {inner rest : List (String × Value)} (hkr : lookup k rest = none)
    (hr : (Value.table inner).Readable) (hd : (Value.table inner).Distinct)
    (hbelow : TablesRead (path ++ [k]) inner) (hmore : TablesRead path rest) :
    TablesRead path ((k, .table inner) :: rest) := by
  refine tablesRead_cons hkr (by rw [sectionLayout]) (fun doc hopen hk first q a => ?_) hmore
  obtain ⟨f₁, f₂, htext⟩ := sectionsText_table false path k inner rest first
  obtain ⟨q', a', hread⟩ := readsLines_tableSection hr hd hbelow hopen hk first f₁ q a
  exact ⟨_, f₂, q', a', htext, hread⟩

theorem tablesRead_array {k : String} {items : List Value} {rest : List (String × Value)}
    (hkr : lookup k rest = none) (harr : (Value.array items).isTableArray = true)
    (hbelow : ElementsRead path k items) (hmore : TablesRead path rest) :
    TablesRead path ((k, .array items) :: rest) := by
  refine tablesRead_cons hkr (by rw [sectionLayout, if_pos harr]) (fun doc hopen hk first q a => ?_) hmore
  obtain ⟨f, htext⟩ := sectionsText_array path k harr rest first
  obtain ⟨q', a', hread⟩ := hbelow doc hopen (Or.inl hk) (fun h => absurd h (arrayLayout_ne_nil harr)) first q a
  rw [pushTables_fresh hk] at hread
  exact ⟨_, f, q', a', htext, by simpa using hread⟩

end Tables

section Elements

variable {path : List String} {k : String}

theorem elementsRead_nil (path : List String) (k : String) : ElementsRead path k [] := by
  intro doc _ _ hmade first q a
  simp only [arrayLayout, List.map_nil, forall_const] at hmade ⊢
  rw [hmade]
  exact ⟨q, a, by simpa [tableArrayText] using readsLines_nil doc q a⟩

theorem elementsRead_skip {v : Value} (h : v.isTable = false) {rest : List Value}
    (hmore : ElementsRead path k rest) : ElementsRead path k (v :: rest) := by
  have hlay : arrayLayout (v :: rest) = arrayLayout rest := by
    cases v with
    | table => cases h
    | string | integer | float | boolean | datetime | array => simp [arrayLayout]
  intro doc hopen hslot hmade first q a
  rw [hlay] at hmade ⊢
  rw [tableArrayText_skip _ h]
  exact hmore doc hopen hslot hmade first q a

/-- One element of an array of tables: its header pushes a table, its values
fill it, its tables go below it; the elements after it push theirs after
it. -/
theorem elementsRead_table {inner : List (String × Value)} {rest : List Value}
    (hr : (Value.table inner).Readable) (hd : (Value.table inner).Distinct)
    (hbelow : TablesRead (path ++ [k]) inner) (hmore : ElementsRead path k rest) :
    ElementsRead path k (.table inner :: rest) := by
  intro doc hopen hslot _ first q a
  rw [Value.readable_table] at hr
  rw [Value.distinct_table] at hd
  have hts := hslot.tablesSlot
  obtain ⟨f₁, f₂, htext⟩ := tableArrayText_table (path ++ [k]) inner rest first
  have hbody := readsLines_body hr hd.2 hd.1 true (sectionOpen_pushed hopen hts [])
    (fun kv _ => by rw [sectionAt_pushed hopen hts]; rfl)
  rw [extendAt_pushed hts, List.nil_append] at hbody
  obtain ⟨q₁, a₁, hsec⟩ := hbelow _ (sectionOpen_pushed hopen hts _)
    (fun _ => by rw [extendAt_pushed hts, List.append_nil])
    (fun kv hkv => by
      rw [sectionAt_pushed hopen hts, lookup_blurEntries, sectionLayout_fresh_lines hd.1 kv hkv]
      rfl) f₁ (path ++ [k]) true
  rw [extendAt_pushed hts] at hsec
  -- the elements after it find the array with this table last
  obtain ⟨q₂, a₂, hrest⟩ := hmore _ (sectionOpen_alterAt _ hopen) (arrayOpen_pushed hopen hts _)
    (fun _ => by rw [alterAt_pushTables_pushTables hts, List.append_nil]) f₂ q₁ a₁
  rw [alterAt_pushTables_pushTables hts] at hrest
  have hblur : (Value.table (lineEntries inner ++ sectionLayout inner)).blur =
      .table (Value.blurEntries (lineEntries inner) ++ Value.blurEntries (sectionLayout inner)) := by
    rw [← Value.blurEntries_append]
    rfl
  refine ⟨q₂, a₂, ?_⟩
  rw [htext, headAndValues_element (by simp), arrayLayout, List.map_cons, hblur]
  simpa only [String.toList_append, List.append_assoc, List.singleton_append] using
    (((readsLines_arrayHeader hopen hslot first q a).append hbody).append hsec).append hrest

end Elements

mutual

/-- The tables of every readable table whose tables hold each key once read
back below any path. -/
theorem tablesRead : ∀ (path : List String) (es : List (String × Value)), (Value.table es).Readable →
    (Value.table es).Distinct → TablesRead path es
  | path, [], _, _ => tablesRead_nil path
  | path, (k, v) :: rest, hr, hd => by
    obtain ⟨hv, hrest⟩ : v.Readable ∧ (Value.table rest).Readable := hr
    obtain ⟨hk, hvd, hrestd⟩ : (k :: rest.map Prod.fst).Nodup ∧ v.Distinct ∧ Value.EntriesDistinct rest := hd
    have hkr : lookup k rest = none :=
      lookup_eq_none_iff.2 fun kv hkv heq => (List.nodup_cons.1 hk).1 (List.mem_map.2 ⟨kv, hkv, heq⟩)
    have hmore := tablesRead path rest hrest ⟨(List.nodup_cons.1 hk).2, hrestd⟩
    cases v with
    | table inner => exact tablesRead_table hkr hv hvd (tablesRead (path ++ [k]) inner hv hvd) hmore
    | array items =>
      cases harr : (Value.array items).isTableArray
      · exact tablesRead_skip k (by simpa [Value.isSection, Value.isTable] using harr) hmore
      · exact tablesRead_array hkr harr (elementsRead path k items hv hvd) hmore
    | string | integer | float | boolean | datetime => exact tablesRead_skip k rfl hmore
termination_by _ es => sizeOf es

/-- The tables of every readable array whose tables hold each key once read
back as an array of tables below any path. -/
theorem elementsRead : ∀ (path : List String) (k : String) (items : List Value), (Value.array items).Readable →
    (Value.array items).Distinct → ElementsRead path k items
  | path, k, [], _, _ => elementsRead_nil path k
  | path, k, v :: rest, hr, hd => by
    obtain ⟨hv, hrest⟩ : v.Readable ∧ (Value.array rest).Readable := hr
    obtain ⟨hvd, hrestd⟩ : v.Distinct ∧ (Value.array rest).Distinct := hd
    have hmore := elementsRead path k rest hrest hrestd
    cases v with
    | table inner => exact elementsRead_table hv hvd (tablesRead (path ++ [k]) inner hv hvd) hmore
    | string | integer | float | boolean | datetime | array => exact elementsRead_skip rfl hmore
termination_by _ _ items => sizeOf items

end

/-! ## A document read back -/

/-- A table's document reads back, line by line, into its entries, floats
forgotten: the values of the root first, then its tables, each laid out the
same way. -/
theorem readsLines_documentText {es : List (String × Value)} (hr : (Value.table es).Readable)
    (hd : (Value.table es).Distinct) :
    ∃ q a, ReadsLines (documentText false es).toList [] [] false (Value.blurEntries (layoutEntries es)) q a := by
  obtain ⟨first, htext⟩ := documentText_eq false es
  have hr' := (Value.readable_table es).1 hr
  have hd' := (Value.distinct_table es).1 hd
  have hbody := @readsLines_body es hr' hd'.2 hd'.1 [] [] false trivial (fun _ _ => rfl)
  -- the tables find the root's values, none under their keys
  obtain ⟨q, a, hsec⟩ := tablesRead [] es hr hd _ trivial (fun _ => by simp [extendAt, alterAt])
    (fun kv hkv => by
      show lookup kv.1 (Value.blurEntries (lineEntries es)) = none
      rw [lookup_blurEntries, sectionLayout_fresh_lines hd'.1 kv hkv]
      rfl) first [] false
  refine ⟨q, a, ?_⟩
  rw [htext, String.toList_append, layoutEntries, Value.blurEntries_append]
  simpa [extendAt, alterAt] using hbody.append hsec

/-- Reading a table's document gives back its entries, floats forgotten, laid
out as `layoutEntries` says, in a tree the builder lays out. -/
theorem documentText_readBack {es : List (String × Value)} (hr : (Value.table es).Readable)
    (hd : (Value.table es).Distinct) :
    ∃ root, Tree.parse (documentText false es) = .ok (.table .header root none) ∧ Tree.LaidEntries root ∧
      Tree.view root = Value.blurEntries (layoutEntries es) := by
  obtain ⟨q, a, hs, n, hn, run⟩ := readsLines_documentText hr hd
  obtain ⟨b, off, hb, hrun⟩ := run Builder.empty Builder.fills_empty [] (by simp)
    ((documentText false es).toList.length + 2 - n) (by omega) 0
  obtain ⟨b₀, hfin, hroot, hlaid⟩ := hb.finish_ok
  refine ⟨b₀.root, ?_, hlaid, hroot⟩
  rw [List.append_nil, show (documentText false es).toList.length + 2 - n + n =
    (documentText false es).toList.length + 2 by omega,
    show (documentText false es).toList.length + 2 - n = (documentText false es).toList.length + 1 - n + 1 by omega]
    at hrun
  have hbom : (documentText false es).toList.head? ≠ some '﻿' := fun h => (hs _ h).2 rfl
  have hblank : ∀ x ∈ (documentText false es).toList.head?, isBlankChar x = false := fun x h => (hs x h).1
  simp only [Tree.parse, StateT.run, bind_apply, peek, get_apply, ok_bind, pure_apply]
  rw [if_neg hbom, bind_apply, blanks_of_head (c := ⟨(documentText false es).toList, 0⟩) hblank, ok_bind, hrun,
    lines_end]
  simp only [hfin]

end LotBridge.Toml
