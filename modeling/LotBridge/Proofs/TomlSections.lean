import LotBridge.Proofs.TomlInlineValues

/-!
# The tables a document reader builds, arrays of tables included

A header names a path of keys, and the reader goes down it table by table; at
an array of tables it goes into the last table, the one the latest `[[...]]`
header opened. Seen through the values of the trees, floats forgotten, going
down a path and changing the table there is `alterAt`, and the table there is
`sectionAt`. The generalisation of `modifyAt` to arrays of tables.

The trees under headers are `Tree.Laid`: tables that are not inline, arrays of
tables, and values read inline that a document would not put under a header.
On such trees the reader's walk down a path (`descend`) is `alterAt`
(`descend_laid`), and the builder of a document keeps the document it holds
(`Builder.Fills`) through each step: a header opens a table, or a new table at
the end of an array of tables, and a key-value line adds its pair to the table
being filled.

## Main definitions

* `Value.section?`, `Value.withSection`: the table a header goes into at a
  value.
* `alterAt`, `sectionAt`, `SectionOpen`, `extendAt`, `pushTables`: tables at
  a path, through arrays of tables.
* `Tree.view`, `Tree.Laid`, `Tree.sectionTrees`: trees under headers.
* `Builder.Fills`: the document a builder holds.

## Main statements

* `alterAt_alterAt`, `sectionAt_alterAt`: changes at a path.
* `descend_laid`: going down a path of tables and arrays of tables.
* `Builder.Fills.finish_ok`, `Builder.Fills.openTable`,
  `Builder.Fills.openArrayTable`, `Builder.Fills.addPair`: the steps of the
  builder on the document.
-/

namespace LotBridge.Toml

open Reader

/-! ## The table a header goes into -/

namespace Value

/-- The entries of the table a header goes into at a value: the value itself
when it is a table, the last element of an array of tables. -/
def section? : Value → Option (List (String × Value))
  | .table es => some es
  | .array items =>
    match items.reverse with
    | .table es :: _ => if (Value.array items).isTableArray then some es else none
    | _ => none
  | _ => none

/-- The value with the table a header goes into replaced by a table of
`es`. -/
def withSection (es : List (String × Value)) : Value → Value
  | .array items =>
    match items.reverse with
    | [] => .array []
    | _ :: earlier => .array ((.table es :: earlier).reverse)
  | _ => .table es

theorem isTableArray_iff (items : List Value) :
    (Value.array items).isTableArray = true ↔ items ≠ [] ∧ ∀ v ∈ items, v.isTable = true := by
  simp [isTableArray]

@[simp] theorem section?_table (es : List (String × Value)) : (Value.table es).section? = some es := rfl

@[simp] theorem withSection_table (es fs : List (String × Value)) :
    (Value.table fs).withSection es = .table es := rfl

/-- The last table of an array of tables. -/
theorem section?_array_reverse (es : List (String × Value)) (earlier : List Value)
    (h : ∀ v ∈ earlier, v.isTable = true) :
    (Value.array ((.table es :: earlier).reverse)).section? = some es := by
  have harr : (Value.array ((.table es :: earlier).reverse)).isTableArray = true := by
    rw [isTableArray_iff]
    refine ⟨by simp, fun v hv => ?_⟩
    rcases List.mem_cons.1 (List.mem_reverse.1 hv) with rfl | hv
    · rfl
    · exact h v hv
  simp only [section?, List.reverse_reverse, harr, if_true]

theorem withSection_array_reverse (es : List (String × Value)) (v : Value) (earlier : List Value) :
    (Value.array ((v :: earlier).reverse)).withSection es = .array ((.table es :: earlier).reverse) := by
  simp only [withSection, List.reverse_reverse]

theorem withSection_withSection (v : Value) (es fs : List (String × Value)) :
    (v.withSection es).withSection fs = v.withSection fs := by
  cases v with
  | array items =>
    cases h : items.reverse with
    | nil => simp only [withSection, h, List.reverse_nil]
    | cons x earlier => simp only [withSection, h, List.reverse_reverse]
  | string | integer | float | boolean | datetime | table => rfl

/-- What a header goes into keeps being there when it is replaced. -/
theorem section?_withSection {v : Value} {inner : List (String × Value)} (h : v.section? = some inner)
    (es : List (String × Value)) : (v.withSection es).section? = some es := by
  cases v with
  | table => rfl
  | array items =>
    simp only [section?] at h
    split at h
    · rename_i inner' earlier hrev
      split_ifs at h with harr
      have hall := ((isTableArray_iff items).1 harr).2
      have hitems : items = (.table inner' :: earlier).reverse := by
        rw [← hrev, List.reverse_reverse]
      rw [hitems, withSection_array_reverse]
      exact section?_array_reverse es earlier fun w hw => hall w (by simp [hitems, hw])
    · cases h
  | string | integer | float | boolean | datetime => cases h

end Value

/-! ## Tables at a path, through arrays of tables -/

/-- Changes with `g` the table at a path below a table's entries, going into
the last table of an array of tables on the way and making the tables that
are missing at the end of their parents; a path through any other value
changes nothing. -/
def alterAt (g : List (String × Value) → List (String × Value)) :
    List String → List (String × Value) → List (String × Value)
  | [], es => g es
  | k :: p, es =>
    match lookup k es with
    | none => es ++ [(k, .table (alterAt g p []))]
    | some v =>
      match v.section? with
      | some inner => replaceValue k (v.withSection (alterAt g p inner)) es
      | none => es

/-- The entries of the table at a path, through the last table of each array
of tables; none where it is missing. -/
def sectionAt : List String → List (String × Value) → List (String × Value)
  | [], es => es
  | k :: p, es =>
    match (lookup k es).bind Value.section? with
    | some inner => sectionAt p inner
    | none => []

/-- A path through tables and arrays of tables, as far as it exists. -/
def SectionOpen : List String → List (String × Value) → Prop
  | [], _ => True
  | k :: p, es =>
    match lookup k es with
    | none => True
    | some v =>
      match v.section? with
      | some inner => SectionOpen p inner
      | none => False

/-- Appends entries to the table at a path. -/
def extendAt (p : List String) (xs : List (String × Value)) (es : List (String × Value)) :
    List (String × Value) :=
  alterAt (· ++ xs) p es

/-- Adds tables at the end of the array of tables under a key, making the
array when the key is missing. -/
def pushTables (k : String) (ts : List Value) (es : List (String × Value)) : List (String × Value) :=
  match lookup k es with
  | some (.array items) => replaceValue k (.array (items ++ ts)) es
  | _ => es ++ [(k, .array ts)]

section Paths

variable (g : List (String × Value) → List (String × Value))

theorem sectionAt_nil (p : List String) : sectionAt p [] = [] := by
  cases p <;> rfl

theorem sectionOpen_nil (p : List String) : SectionOpen p [] := by
  cases p <;> trivial

theorem sectionAt_cons_none {k : String} {es : List (String × Value)} (h : lookup k es = none) (p : List String) :
    sectionAt (k :: p) es = [] := by
  simp [sectionAt, h]

theorem sectionAt_cons_some {k : String} {es : List (String × Value)} {v : Value}
    (h : lookup k es = some v) {inner : List (String × Value)} (hv : v.section? = some inner) (p : List String) :
    sectionAt (k :: p) es = sectionAt p inner := by
  simp [sectionAt, h, hv]

theorem sectionAt_append (p q : List String) (es : List (String × Value)) :
    sectionAt (p ++ q) es = sectionAt q (sectionAt p es) := by
  induction p generalizing es with
  | nil => rfl
  | cons k p ih =>
    simp only [List.cons_append, sectionAt]
    split
    · exact ih _
    · exact (sectionAt_nil q).symm

theorem sectionOpen_append (p q : List String) (es : List (String × Value)) :
    SectionOpen (p ++ q) es ↔ SectionOpen p es ∧ SectionOpen q (sectionAt p es) := by
  induction p generalizing es with
  | nil => simp [SectionOpen, sectionAt]
  | cons k p ih =>
    rcases hk : lookup k es with _ | v
    · simp [SectionOpen, sectionAt_cons_none hk, hk, sectionOpen_nil]
    · rcases hv : v.section? with _ | inner
      · simp [SectionOpen, hk, hv]
      · simp only [List.cons_append, SectionOpen, hk, hv, sectionAt_cons_some hk hv]
        exact ih inner

theorem alterAt_append (p q : List String) (es : List (String × Value)) :
    alterAt g (p ++ q) es = alterAt (alterAt g q) p es := by
  induction p generalizing es with
  | nil => rfl
  | cons k p ih =>
    simp only [List.cons_append, alterAt]
    split
    · rw [ih]
    · split
      · rw [ih]
      · rfl

/-- Two changes at one path are one change: a table the first makes is where
the second finds it. -/
theorem alterAt_alterAt (h : List (String × Value) → List (String × Value)) (p : List String)
    (es : List (String × Value)) : alterAt g p (alterAt h p es) = alterAt (g ∘ h) p es := by
  induction p generalizing es with
  | nil => rfl
  | cons k p ih =>
    rcases hk : lookup k es with _ | v
    · -- the first change makes the table, at the end
      simp only [alterAt, hk, lookup_append_of_none hk, lookup_cons, if_true, Value.section?_table,
        Value.withSection_table, replaceValue_append_of_none hk, ih]
    · rcases hv : v.section? with _ | inner
      · simp only [alterAt, hk, hv]
      · have hk' := lookup_replaceValue hk (v.withSection (alterAt h p inner))
        simp only [alterAt, hk, hv, hk', Value.section?_withSection hv, replaceValue_replaceValue,
          Value.withSection_withSection, ih]

/-- A change at a path depends only on what it does to the table there. -/
theorem alterAt_congr {g h : List (String × Value) → List (String × Value)} (p : List String)
    (es : List (String × Value)) (hgh : g (sectionAt p es) = h (sectionAt p es)) :
    alterAt g p es = alterAt h p es := by
  induction p generalizing es with
  | nil => exact hgh
  | cons k p ih =>
    rcases hk : lookup k es with _ | v
    · rw [sectionAt_cons_none hk] at hgh
      simp only [alterAt, hk, ih [] (by simpa [sectionAt_nil] using hgh)]
    · rcases hv : v.section? with _ | inner
      · simp only [alterAt, hk, hv]
      · rw [sectionAt_cons_some hk hv] at hgh
        simp only [alterAt, hk, hv, ih inner hgh]

/-- Along an open path, the table a change leaves is the change of the table
that was there. -/
theorem sectionAt_alterAt {p : List String} {es : List (String × Value)} (h : SectionOpen p es) :
    sectionAt p (alterAt g p es) = g (sectionAt p es) := by
  induction p generalizing es with
  | nil => rfl
  | cons k p ih =>
    rcases hk : lookup k es with _ | v
    · have hnew : lookup k (es ++ [(k, .table (alterAt g p []))]) = some (.table (alterAt g p [])) := by
        rw [lookup_append_of_none hk, lookup_cons, if_pos rfl]
      simp only [alterAt, hk, sectionAt_cons_some hnew (Value.section?_table _), sectionAt_cons_none hk,
        ih (sectionOpen_nil p), sectionAt_nil]
    · rcases hv : v.section? with _ | inner
      · simp [SectionOpen, hk, hv] at h
      · simp only [SectionOpen, hk, hv] at h
        have hk' := lookup_replaceValue hk (v.withSection (alterAt g p inner))
        simp only [alterAt, hk, hv, sectionAt_cons_some hk' (Value.section?_withSection hv _),
          sectionAt_cons_some hk hv, ih h]

theorem sectionOpen_alterAt {p : List String} {es : List (String × Value)} (h : SectionOpen p es) :
    SectionOpen p (alterAt g p es) := by
  induction p generalizing es with
  | nil => trivial
  | cons k p ih =>
    rcases hk : lookup k es with _ | v
    · simp only [alterAt, SectionOpen, hk, lookup_append_of_none hk, lookup_cons, if_true,
        Value.section?_table]
      exact ih (sectionOpen_nil p)
    · rcases hv : v.section? with _ | inner
      · simp [SectionOpen, hk, hv] at h
      · simp only [SectionOpen, hk, hv] at h
        have hk' := lookup_replaceValue hk (v.withSection (alterAt g p inner))
        simp only [alterAt, SectionOpen, hk, hv, hk', Value.section?_withSection hv]
        exact ih h

theorem extendAt_extendAt (p : List String) (xs ys es : List (String × Value)) :
    extendAt p xs (extendAt p ys es) = extendAt p (ys ++ xs) es := by
  unfold extendAt
  rw [alterAt_alterAt]
  congr 1
  funext E
  simp

/-- Entries appended under a fresh key make its table. -/
theorem extendAt_fresh {p : List String} {k : String} {es : List (String × Value)}
    (h : lookup k (sectionAt p es) = none) (xs : List (String × Value)) :
    extendAt (p ++ [k]) xs es = extendAt p [(k, .table xs)] es := by
  unfold extendAt
  rw [alterAt_append]
  apply alterAt_congr
  simp [alterAt, h]

/-- Entries appended to a table just made go at its end. -/
theorem extendAt_made {p : List String} {k : String} {es : List (String × Value)}
    (h : lookup k (sectionAt p es) = none) (xs ys : List (String × Value)) :
    extendAt (p ++ [k]) xs (extendAt p [(k, .table ys)] es) = extendAt p [(k, .table (ys ++ xs))] es := by
  unfold extendAt
  rw [alterAt_append, alterAt_alterAt]
  apply alterAt_congr
  simp only [Function.comp, alterAt, lookup_append_of_none h, lookup_cons, if_true, Value.section?_table,
    Value.withSection_table, replaceValue_append_of_none h]

theorem sectionAt_extendAt {p : List String} {es : List (String × Value)} (h : SectionOpen p es)
    (xs : List (String × Value)) : sectionAt p (extendAt p xs es) = sectionAt p es ++ xs :=
  sectionAt_alterAt _ h

theorem sectionOpen_extendAt {p : List String} {es : List (String × Value)} (h : SectionOpen p es)
    (xs : List (String × Value)) : SectionOpen p (extendAt p xs es) :=
  sectionOpen_alterAt _ h

/-- Below a fresh key there is no table yet. -/
theorem sectionAt_fresh {p : List String} {k : String} {es : List (String × Value)}
    (h : lookup k (sectionAt p es) = none) : sectionAt (p ++ [k]) es = [] := by
  rw [sectionAt_append, sectionAt_cons_none h]

theorem sectionOpen_fresh {p : List String} {k : String} {es : List (String × Value)} (hp : SectionOpen p es)
    (h : lookup k (sectionAt p es) = none) : SectionOpen (p ++ [k]) es := by
  rw [sectionOpen_append]
  exact ⟨hp, by simp [SectionOpen, h]⟩

theorem lookup_made {k : String} {es : List (String × Value)} (h : lookup k es = none) (v : Value) :
    lookup k (es ++ [(k, v)]) = some v := by
  rw [lookup_append_of_none h, lookup_cons, if_pos rfl]

/-- A table made under a fresh key holds what it was made with. -/
theorem sectionAt_made {p : List String} {k : String} {es : List (String × Value)} (hp : SectionOpen p es)
    (h : lookup k (sectionAt p es) = none) (ys : List (String × Value)) :
    sectionAt (p ++ [k]) (extendAt p [(k, .table ys)] es) = ys := by
  rw [sectionAt_append, sectionAt_extendAt hp, sectionAt_cons_some (lookup_made h _) (Value.section?_table ys)]
  rfl

theorem sectionOpen_made {p : List String} {k : String} {es : List (String × Value)} (hp : SectionOpen p es)
    (h : lookup k (sectionAt p es) = none) (ys : List (String × Value)) :
    SectionOpen (p ++ [k]) (extendAt p [(k, .table ys)] es) := by
  rw [sectionOpen_append, sectionAt_extendAt hp]
  refine ⟨sectionOpen_extendAt hp _, ?_⟩
  simp only [SectionOpen, lookup_made h, Value.section?_table]

/-! ## Arrays of tables at a path -/

/-- Under a key where an array of tables may go: nothing yet, or an array of
tables. -/
def TablesSlot (k : String) (es : List (String × Value)) : Prop :=
  lookup k es = none ∨ ∃ items, lookup k es = some (.array items) ∧ ∀ v ∈ items, v.isTable = true

/-- Under a key where a header `[[...]]` adds a table: nothing yet, or an
array of tables that is not empty. -/
def ArrayOpen (k : String) (es : List (String × Value)) : Prop :=
  lookup k es = none ∨ ∃ items, lookup k es = some (.array items) ∧ (Value.array items).isTableArray = true

theorem ArrayOpen.tablesSlot {k : String} {es : List (String × Value)} (h : ArrayOpen k es) : TablesSlot k es := by
  rcases h with h | ⟨items, h, harr⟩
  · exact Or.inl h
  · exact Or.inr ⟨items, h, ((Value.isTableArray_iff items).1 harr).2⟩

theorem lookup_pushTables {k : String} {es : List (String × Value)} (h : TablesSlot k es) (ts : List Value) :
    ∃ items, lookup k (pushTables k ts es) = some (.array (items ++ ts)) ∧ ∀ v ∈ items, v.isTable = true := by
  rcases h with h | ⟨items, h, hall⟩
  · exact ⟨[], by simp [pushTables, h, lookup_made h], by simp⟩
  · exact ⟨items, by simp only [pushTables, h, lookup_replaceValue h], hall⟩

theorem pushTables_pushTables {k : String} {es : List (String × Value)} (h : TablesSlot k es) (ts us : List Value) :
    pushTables k us (pushTables k ts es) = pushTables k (ts ++ us) es := by
  rcases h with h | ⟨items, h, -⟩
  · simp [pushTables, h, lookup_made h, replaceValue_append_of_none h]
  · simp [pushTables, h, lookup_replaceValue h, replaceValue_replaceValue]

/-- The table a header goes into below an array of tables is its last
element. -/
theorem section?_push {items : List Value} (hall : ∀ v ∈ items, v.isTable = true) (ys : List (String × Value)) :
    (Value.array (items ++ [.table ys])).section? = some ys := by
  have h := Value.section?_array_reverse ys items.reverse (by simpa using hall)
  rwa [List.reverse_cons, List.reverse_reverse] at h

theorem withSection_push (items : List Value) (ys zs : List (String × Value)) :
    (Value.array (items ++ [.table ys])).withSection zs = .array (items ++ [.table zs]) := by
  have h := Value.withSection_array_reverse zs (.table ys) items.reverse
  rwa [List.reverse_cons, List.reverse_cons, List.reverse_reverse] at h

/-- A change below the key of an array of tables, just after a table was
added to it, changes that table. -/
theorem alterAt_pushTables {k : String} {es : List (String × Value)} (h : TablesSlot k es)
    (ys : List (String × Value)) : alterAt g [k] (pushTables k [.table ys] es) = pushTables k [.table (g ys)] es := by
  rcases h with h | ⟨items, h, hall⟩
  · have hsec := @section?_push [] (by simp) ys
    have hput := withSection_push [] ys (g ys)
    rw [List.nil_append] at hsec hput
    simp only [pushTables, h, alterAt, lookup_made h, hsec, hput, replaceValue_append_of_none h]
    rfl
  · simp only [pushTables, h, alterAt, lookup_replaceValue h, section?_push hall, withSection_push,
      replaceValue_replaceValue]

end Paths


/-! ## Trees under headers -/

namespace Value

theorem isTable_blur (v : Value) : v.blur.isTable = v.isTable := by
  cases v <;> simp [blur, isTable]

theorem isTableArray_blur (items : List Value) :
    (Value.array (items.map blur)).isTableArray = (Value.array items).isTableArray := by
  simp [isTableArray, isTable_blur, Function.comp_def]

theorem isSection_blur (v : Value) : v.blur.isSection = v.isSection := by
  cases v with
  | array items => simp only [blur_array, isSection, isTable, isTableArray_blur, Bool.false_or]
  | table es => simp [isSection, isTable]
  | string | integer | float | boolean | datetime => rfl

theorem section?_of_not_isTableArray {items : List Value} (h : (Value.array items).isTableArray = false) :
    (Value.array items).section? = none := by
  simp only [section?, h]
  split <;> simp

end Value

namespace Tree

/-- The entries of trees as values, floats forgotten. -/
def view (E : List Entry) : List (String × Value) := E.map fun e => (e.1, e.2.2.toValue.blur)

@[simp] theorem view_nil : view [] = [] := rfl

theorem view_cons (k : String) (ks : Span) (t : Tree) (E : List Entry) :
    view ((k, ks, t) :: E) = (k, t.toValue.blur) :: view E := rfl

theorem view_append (E F : List Entry) : view (E ++ F) = view E ++ view F :=
  List.map_append ..

theorem lookup_view (k : String) (E : List Entry) :
    lookup k (view E) = (findEntry k E).map fun t => t.toValue.blur := by
  induction E with
  | nil => rfl
  | cons e E ih =>
    obtain ⟨k', s, t⟩ := e
    rw [view_cons, lookup_cons]
    by_cases hk : k' = k
    · simp [findEntry, hk]
    · rw [if_neg hk, ih]
      simp [findEntry, hk]

theorem view_replaceEntry (k : String) (t : Tree) (E : List Entry) :
    view (replaceEntry k t E) = replaceValue k t.toValue.blur (view E) := by
  induction E with
  | nil => rfl
  | cons e E ih =>
    obtain ⟨k', s, u⟩ := e
    by_cases hk : k' = k
    · simp [replaceEntry, replaceValue, view_cons, hk]
    · simp [replaceEntry, replaceValue, view_cons, hk, ih]

theorem findEntry_replaceEntry {k : String} {E : List Entry} {u : Tree} (h : findEntry k E = some u) (t : Tree) :
    findEntry k (replaceEntry k t E) = some t := by
  induction E with
  | nil => simp [findEntry] at h
  | cons e E ih =>
    obtain ⟨k', s, w⟩ := e
    by_cases hk : k' = k
    · simp [replaceEntry, findEntry, hk]
    · have h' : findEntry k E = some u := by simpa [findEntry, hk] using h
      simpa [replaceEntry, findEntry, hk] using ih h'

theorem findEntry_made {k : String} {E : List Entry} (h : findEntry k E = none) (ks : Span) (t : Tree) :
    findEntry k (E ++ [(k, ks, t)]) = some t := by
  simp only [findEntry, Option.map_eq_none_iff, List.find?_eq_none] at h
  simp [findEntry, List.find?_append, List.find?_eq_none.2 h]

@[simp] theorem blur_toValue_table (kind : TableKind) (E : List Entry) (sp : Option Span) :
    (Tree.table kind E sp).toValue.blur = .table (view E) := by
  simp [view, Function.comp_def]

@[simp] theorem blur_toValue_tables (items : List Tree) :
    (Tree.tables items).toValue.blur = .array (items.map fun t => t.toValue.blur) := by
  simp [Function.comp_def]

mutual

/-- A tree as the document reader builds it under headers: a table that is
not inline, an array of tables, or a value read inline that a document would
not write under a header. -/
def Laid : Tree → Prop
  | .scalar v _ => v.isLeaf = true
  | .array items _ => RegularItems items ∧ (Value.array (itemValues items)).isTableArray = false
  | .table kind E _ => kind.isInline = false ∧ LaidEntries E
  | .tables items => LaidTables items

/-- The elements of an array of tables: tables of laid trees. -/
def LaidTables : List Tree → Prop
  | [] => True
  | .table _ E _ :: rest => LaidEntries E ∧ LaidTables rest
  | _ :: _ => False

/-- Entries holding laid trees. -/
def LaidEntries : List Entry → Prop
  | [] => True
  | (_, _, t) :: rest => t.Laid ∧ LaidEntries rest

end

theorem laidEntries_iff {E : List Entry} : LaidEntries E ↔ ∀ e ∈ E, e.2.2.Laid := by
  induction E with
  | nil => simp [LaidEntries]
  | cons e rest ih =>
    obtain ⟨k, ks, t⟩ := e
    simp [LaidEntries, ih]

theorem laidTables_iff {items : List Tree} :
    LaidTables items ↔ ∀ t ∈ items, ∃ kind E sp, t = .table kind E sp ∧ LaidEntries E := by
  induction items with
  | nil => simp [LaidTables]
  | cons t rest ih =>
    cases t with
    | table kind E sp => simp [LaidTables, ih]
    | scalar | array | tables => simp [LaidTables]

theorem LaidEntries.append {E F : List Entry} (hE : LaidEntries E) (hF : LaidEntries F) :
    LaidEntries (E ++ F) := by
  rw [laidEntries_iff] at hE hF ⊢
  intro e he
  exact (List.mem_append.1 he).elim (hE e) (hF e)

theorem laidEntries_singleton {k : String} {ks : Span} {t : Tree} (ht : t.Laid) : LaidEntries [(k, ks, t)] :=
  ⟨ht, trivial⟩

theorem LaidEntries.replaceEntry {E : List Entry} (hE : LaidEntries E) (k : String) {t : Tree} (ht : t.Laid) :
    LaidEntries (Reader.replaceEntry k t E) := by
  induction E with
  | nil => trivial
  | cons e E ih =>
    obtain ⟨k', s, u⟩ := e
    simp only [Reader.replaceEntry]
    split_ifs
    · exact ⟨ht, hE.2⟩
    · exact ⟨hE.1, ih hE.2⟩

theorem LaidEntries.findEntry {E : List Entry} (hE : LaidEntries E) {k : String} {t : Tree}
    (h : Toml.findEntry k E = some t) : t.Laid := by
  induction E with
  | nil => simp [Toml.findEntry] at h
  | cons e E ih =>
    obtain ⟨k', s, u⟩ := e
    by_cases hk : k' = k
    · simp [Toml.findEntry, hk] at h
      exact h ▸ hE.1
    · exact ih hE.2 (by simpa [Toml.findEntry, hk] using h)

/-- A value read inline that a document writes on a key-value line is a laid
tree. -/
theorem ReadsAs.laid {t : Tree} {v : Value} (ht : t.ReadsAs v) (hsec : v.isSection = false) : t.Laid := by
  have hsec' : t.toValue.isSection = false := by
    rw [← Value.isSection_blur, ht.1, Value.isSection_blur, hsec]
  cases t with
  | scalar w sp => exact ht.2
  | array items sp =>
    refine ⟨ht.2, ?_⟩
    simpa [Value.isSection, Value.isTable, itemValues_eq_map] using hsec'
  | table kind E sp => simp [Value.isSection, Value.isTable] at hsec'
  | tables items => exact absurd ht.2 (not_regular_tables items)

/-- The entries a header goes into at a tree, as the reader finds them: those
of a table, or of the last table of an array of tables. -/
def sectionEntries? : Tree → Option (List Entry)
  | .table _ inner _ => some inner
  | .tables items =>
    match items.reverse with
    | .table _ inner _ :: _ => some inner
    | _ => none
  | _ => none

/-- The entries of the table at a path, as the reader goes down it; none where
it is missing. -/
def sectionTrees : List String → List Entry → List Entry
  | [], E => E
  | k :: p, E =>
    match (Toml.findEntry k E).bind sectionEntries? with
    | some inner => sectionTrees p inner
    | none => []

theorem sectionTrees_nil (p : List String) : sectionTrees p [] = [] := by
  cases p <;> rfl

theorem laidTables_reverse_cons {items : List Tree} (h : LaidTables items) {x : Tree} {earlier : List Tree}
    (hrev : items.reverse = x :: earlier) :
    ∃ kind E sp, x = .table kind E sp ∧ LaidEntries E ∧ ∀ y ∈ earlier, ∃ kind E sp, y = .table kind E sp ∧ LaidEntries E := by
  have hitems : items = (x :: earlier).reverse := by rw [← hrev, List.reverse_reverse]
  have hall := laidTables_iff.1 h
  obtain ⟨kind, E, sp, rfl, hE⟩ := hall x (by simp [hitems])
  exact ⟨kind, E, sp, rfl, hE, fun y hy => hall y (by simp [hitems, hy])⟩

/-- An array of tables that a header goes on through ends in a table; the
header goes into its entries. -/
theorem section?_tables {items : List Tree} {kind : TableKind} {E : List Entry} {sp : Option Span}
    {earlier : List Tree} (hrev : items.reverse = .table kind E sp :: earlier)
    (hearlier : ∀ y ∈ earlier, ∃ kind E sp, y = .table kind E sp) :
    (Tree.tables items).toValue.blur.section? = some (view E) := by
  have hitems : items = (.table kind E sp :: earlier).reverse := by rw [← hrev, List.reverse_reverse]
  rw [blur_toValue_tables, hitems, List.map_reverse, List.map_cons, blur_toValue_table]
  refine Value.section?_array_reverse _ _ fun v hv => ?_
  obtain ⟨y, hy, rfl⟩ := List.mem_map.1 hv
  obtain ⟨kind', E', sp', rfl⟩ := hearlier y hy
  simp [Value.isTable]

theorem blur_toValue_tables_withSection (kind : TableKind) (E E' : List Entry) (sp : Option Span)
    (earlier : List Tree) :
    (Tree.tables ((.table kind E' sp :: earlier).reverse)).toValue.blur =
      (Tree.tables ((.table kind E sp :: earlier).reverse)).toValue.blur.withSection (view E') := by
  simp only [blur_toValue_tables, List.map_reverse, List.map_cons, Value.withSection_array_reverse,
    blur_toValue_table]

/-- At a laid tree, the table a header goes into is the one the reader goes
into, seen as values. -/
theorem Laid.section? {t : Tree} (ht : t.Laid) :
    t.toValue.blur.section? = t.sectionEntries?.map view ∧ ∀ inner, t.sectionEntries? = some inner → LaidEntries inner := by
  cases t with
  | scalar v sp =>
    refine ⟨?_, by simp [sectionEntries?]⟩
    cases v <;> simp_all [Tree.toValue, Laid, Value.isLeaf, Value.blur, Value.section?, sectionEntries?]
  | array items sp =>
    have hnot : (Value.array (items.map fun t => t.toValue.blur)).isTableArray = false := by
      have h := Value.isTableArray_blur (items.map Tree.toValue)
      simp only [List.map_map, Function.comp_def] at h
      rw [h]
      simpa [Tree.itemValues_eq_map] using ht.2
    refine ⟨?_, by simp [sectionEntries?]⟩
    simp [Value.section?_of_not_isTableArray hnot, Function.comp_def, sectionEntries?]
  | table tk inner sp =>
    exact ⟨by simp only [blur_toValue_table, Value.section?_table, sectionEntries?, Option.map_some],
      fun _ h => by cases h; exact ht.2⟩
  | tables items =>
    cases hrev : items.reverse with
    | nil =>
      rw [List.reverse_eq_nil_iff.1 hrev]
      exact ⟨by simp [Value.section?, sectionEntries?], by simp [sectionEntries?]⟩
    | cons x earlier =>
      obtain ⟨tk, inner, sp, rfl, hin, hearlier⟩ := laidTables_reverse_cons ht hrev
      have hsec := section?_tables hrev fun y hy => by
        obtain ⟨kind', E', sp', hy', -⟩ := hearlier y hy
        exact ⟨kind', E', sp', hy'⟩
      refine ⟨by rw [hsec]; simp [sectionEntries?, hrev], fun _ h => ?_⟩
      simp only [sectionEntries?, hrev, Option.some.injEq] at h
      exact h ▸ hin

/-- Going down a path of laid trees finds the table there, seen as values. -/
theorem view_sectionTrees : ∀ (p : List String) {E : List Entry}, LaidEntries E →
    view (sectionTrees p E) = sectionAt p (view E) ∧ LaidEntries (sectionTrees p E)
  | [], _, hE => ⟨rfl, hE⟩
  | k :: p, E, hE => by
    have hl := lookup_view k E
    cases hk : Toml.findEntry k E with
    | none =>
      rw [hk, Option.map_none] at hl
      simp only [sectionTrees, hk, Option.bind_none, sectionAt_cons_none hl]
      exact ⟨rfl, trivial⟩
    | some t =>
      rw [hk, Option.map_some] at hl
      obtain ⟨hsec, hin⟩ := (hE.findEntry hk).section?
      cases hs : t.sectionEntries? with
      | none =>
        rw [hs, Option.map_none] at hsec
        simp only [sectionTrees, hk, Option.bind_some, hs, sectionAt, hl, hsec]
        exact ⟨rfl, trivial⟩
      | some inner =>
        rw [hs, Option.map_some] at hsec
        simp only [sectionTrees, hk, Option.bind_some, hs, sectionAt_cons_some hl hsec]
        exact view_sectionTrees p (hin inner hs)

end Tree

namespace Reader

@[simp] theorem names_cons (k : String) (ks : Span) (more : List (String × Span)) :
    names ((k, ks) :: more) = k :: names more := rfl

end Reader

/-! ## Going down a path of tables -/

/-- Going down a path of tables and arrays of tables, `descend` changes the
table at its end as `f` changes it, making the tables that are missing; a
later walk down the path finds there what `f` left. -/
theorem descend_laid {α : Type} {made : TableKind} (hmade : made.isInline = false)
    (f : TableKind → List Entry → Except String (List Entry × α))
    (g : List (String × Value) → List (String × Value)) (a : α) (Q : List Entry → Prop) :
    ∀ (path : List (String × Span)) (seen : List String) (kind : TableKind) (E : List Entry),
      Tree.LaidEntries E → SectionOpen (names path) (Tree.view E) →
      (∀ kind' E', Tree.LaidEntries E' → E' = Tree.sectionTrees (names path) E →
        Tree.view E' = sectionAt (names path) (Tree.view E) →
        ∃ E'', f kind' E' = .ok (E'', a) ∧ Tree.view E'' = g (Tree.view E') ∧ Tree.LaidEntries E'' ∧ Q E'') →
      ∃ E', descend false false made f seen kind path E = .ok (E', a) ∧
        Tree.view E' = alterAt g (names path) (Tree.view E) ∧ Tree.LaidEntries E' ∧
        Q (Tree.sectionTrees (names path) E')
  | [], seen, kind, E, hE, _, hf => by
    obtain ⟨E', hf', hv, hp, hq⟩ := hf kind E hE rfl rfl
    exact ⟨E', by rw [descend]; exact hf', hv, hp, hq⟩
  | (k, ks) :: more, seen, kind, E, hE, hopen, hf => by
    have hl := Tree.lookup_view k E
    rw [names_cons] at hopen hf ⊢
    cases hk : findEntry k E with
    | none =>
      -- a missing table is made, and the rest of the path goes down into it
      rw [hk, Option.map_none] at hl
      obtain ⟨inner, hd, hv, hp, hq⟩ := descend_laid hmade f g a Q more (seen ++ [k]) made [] trivial
        (sectionOpen_nil _) fun kind' E' h1 h2 h3 => hf kind' E' h1
          (by simp only [Tree.sectionTrees, hk, Option.bind_none]; rw [h2, Tree.sectionTrees_nil])
          (by rw [sectionAt_cons_none hl, h3, Tree.view_nil, sectionAt_nil])
      refine ⟨E ++ [(k, ks, .table made inner none)], ?_, ?_, ?_, ?_⟩
      · simp only [descend, hk, hd]
        rfl
      · simp only [Tree.view_append, Tree.view_cons, Tree.view_nil, Tree.blur_toValue_table, hv, alterAt, hl]
      · exact hE.append (Tree.laidEntries_singleton ⟨hmade, hp⟩)
      · simpa [Tree.sectionTrees, Tree.findEntry_made hk, Tree.sectionEntries?] using hq
    | some t =>
      rw [hk, Option.map_some] at hl
      have ht := hE.findEntry hk
      -- the path goes on only through a table or an array of tables
      obtain ⟨inner, hsec, hopen'⟩ : ∃ inner, t.toValue.blur.section? = some inner ∧
          SectionOpen (names more) inner := by
        rcases hs : t.toValue.blur.section? with _ | inner
        · simp [SectionOpen, hl, hs] at hopen
        · simp only [SectionOpen, hl, hs] at hopen
          exact ⟨inner, rfl, hopen⟩
      cases t with
      | scalar v sp =>
        cases v <;> simp_all [Tree.toValue, Tree.Laid, Value.isLeaf, Value.blur, Value.section?]
      | array items sp =>
        have hnot : (Value.array (items.map fun t => t.toValue.blur)).isTableArray = false := by
          have h := Value.isTableArray_blur (items.map Tree.toValue)
          simp only [List.map_map, Function.comp_def] at h
          rw [h]
          simpa [Tree.itemValues_eq_map] using ht.2
        simp [Value.section?_of_not_isTableArray hnot, Function.comp_def] at hsec
      | table tk inner₀ span =>
        obtain ⟨htk, hin⟩ := ht
        simp only [Tree.blur_toValue_table, Value.section?_table, Option.some.injEq] at hsec
        subst hsec
        rw [Tree.blur_toValue_table] at hl
        obtain ⟨inner', hd, hv, hp, hq⟩ := descend_laid hmade f g a Q more (seen ++ [k]) tk inner₀ hin hopen'
          fun kind' E' h1 h2 h3 => hf kind' E' h1
            (by simp only [Tree.sectionTrees, hk, Option.bind_some, Tree.sectionEntries?]; exact h2)
            (by rw [sectionAt_cons_some hl (Value.section?_table _), h3])
        refine ⟨replaceEntry k (.table tk inner' span) E, ?_, ?_, ?_, ?_⟩
        · simp only [descend, hk, htk, hd, bne_self_eq_false, Bool.false_eq_true, if_false, Bool.false_and]
          rfl
        · rw [Tree.view_replaceEntry, Tree.blur_toValue_table, hv]
          simp only [alterAt, hl, Value.section?_table, Value.withSection_table]
        · exact hE.replaceEntry k ⟨htk, hp⟩
        · simpa [Tree.sectionTrees, Tree.findEntry_replaceEntry hk, Tree.sectionEntries?] using hq
      | tables items =>
        -- an array of tables goes on through its last table
        cases hrev : items.reverse with
        | nil =>
          rw [List.reverse_eq_nil_iff.1 hrev] at hsec
          simp [Value.section?] at hsec
        | cons x earlier =>
          obtain ⟨tk, inner₀, span, rfl, hin, hearlier⟩ := Tree.laidTables_reverse_cons ht hrev
          have hsec₀ := Tree.section?_tables hrev fun y hy => by
            obtain ⟨kind', E', sp', hy', -⟩ := hearlier y hy
            exact ⟨kind', E', sp', hy'⟩
          rw [hsec₀, Option.some.injEq] at hsec
          subst hsec
          obtain ⟨inner', hd, hv, hp, hq⟩ := descend_laid hmade f g a Q more (seen ++ [k]) tk inner₀ hin hopen'
            fun kind' E' h1 h2 h3 => hf kind' E' h1
              (by simp only [Tree.sectionTrees, hk, Option.bind_some, Tree.sectionEntries?, hrev]; exact h2)
              (by rw [sectionAt_cons_some hl hsec₀, h3])
          have hitems : items = (.table tk inner₀ span :: earlier).reverse := by
            rw [← hrev, List.reverse_reverse]
          refine ⟨replaceEntry k (.tables ((.table tk inner' span :: earlier).reverse)) E, ?_, ?_, ?_, ?_⟩
          · simp only [descend, hk, hrev, hd]
            rfl
          · rw [Tree.view_replaceEntry, Tree.blur_toValue_tables_withSection tk inner₀, ← hitems, hv]
            simp only [alterAt, hl, hsec₀]
          · refine hE.replaceEntry k (Tree.laidTables_iff.2 fun y hy => ?_)
            rcases List.mem_cons.1 (List.mem_reverse.1 hy) with rfl | hy
            · exact ⟨tk, inner', span, rfl, hp⟩
            · exact hearlier y hy
          · simpa [Tree.sectionTrees, Tree.findEntry_replaceEntry hk, Tree.sectionEntries?] using hq


/-- `descend_laid` for a run of `descend` met in a goal: the function it
applies is read off the run. -/
theorem descend_laid_of_eq {α : Type} {made : TableKind} {f : TableKind → List Entry → Except String (List Entry × α)}
    {path : List (String × Span)} {seen : List String} {kind : TableKind} {E : List Entry}
    {r : Except String (List Entry × α)} (hr : descend false false made f seen kind path E = r)
    (hmade : made.isInline = false) (g : List (String × Value) → List (String × Value)) (a : α)
    (Q : List Entry → Prop) (hE : Tree.LaidEntries E) (hopen : SectionOpen (names path) (Tree.view E))
    (hf : ∀ kind' E', Tree.LaidEntries E' → E' = Tree.sectionTrees (names path) E →
        Tree.view E' = sectionAt (names path) (Tree.view E) →
        ∃ E'', f kind' E' = .ok (E'', a) ∧ Tree.view E'' = g (Tree.view E') ∧ Tree.LaidEntries E'' ∧ Q E'') :
    ∃ E', r = .ok (E', a) ∧ Tree.view E' = alterAt g (names path) (Tree.view E) ∧ Tree.LaidEntries E' ∧
      Q (Tree.sectionTrees (names path) E') := by
  subst hr
  exact descend_laid hmade f g a Q path seen kind E hE hopen hf

/-! ## The builder of a document -/

theorem replaceValue_self {k : String} {es : List (String × Value)} {v : Value} (h : lookup k es = some v) :
    replaceValue k v es = es := by
  induction es with
  | nil => simp [lookup] at h
  | cons e rest ih =>
    obtain ⟨k', w⟩ := e
    rw [lookup_cons] at h
    simp only [replaceValue]
    split_ifs at h ⊢ with hk
    · cases h
      rw [hk]
    · rw [ih h]

namespace Builder

/-- Where the table being filled goes when it is finished, under its key: as
a table of its own, or, for an element of an array of tables, at the end of
that array. -/
def putTable (k : String) (arr : Bool) (c : List (String × Value)) (es : List (String × Value)) :
    List (String × Value) :=
  if arr then pushTables k [.table c] es else es ++ [(k, .table c)]

/-- What the reader finds under the key of the table being filled, in its
parent: nothing, or, for an element of an array of tables, that array. -/
def Slot (arr : Bool) (k : String) (E : List Entry) : Prop :=
  if arr then ∃ items, findEntry k E = some (.tables items) else findEntry k E = none

/-- The same, seen as values. -/
def PutOpen (arr : Bool) (k : String) (es : List (String × Value)) : Prop :=
  if arr then TablesSlot k es else lookup k es = none

theorem Slot.putOpen {arr : Bool} {k : String} {E : List Entry} (hE : Tree.LaidEntries E) (h : Slot arr k E) :
    PutOpen arr k (Tree.view E) := by
  have hl := Tree.lookup_view k E
  cases arr with
  | false =>
    simp only [Slot, Bool.false_eq_true, if_false] at h
    simp only [PutOpen, Bool.false_eq_true, if_false, hl, h, Option.map_none]
  | true =>
    simp only [Slot, if_true] at h
    obtain ⟨items, hk⟩ := h
    rw [hk, Option.map_some, Tree.blur_toValue_tables] at hl
    refine Or.inr ⟨_, hl, fun v hv => ?_⟩
    obtain ⟨y, hy, rfl⟩ := List.mem_map.1 hv
    obtain ⟨kind, E', sp, rfl, -⟩ := Tree.laidTables_iff.1 (hE.findEntry hk) y hy
    simp [Value.isTable]

section Put

variable {arr : Bool} {k : String} {es : List (String × Value)}

theorem putTable_false (k : String) (c : List (String × Value)) :
    putTable k false c = (· ++ [(k, .table c)]) := by
  funext es
  simp [putTable]

theorem alterAt_putTable (h : PutOpen arr k es) (g : List (String × Value) → List (String × Value))
    (c : List (String × Value)) : alterAt g [k] (putTable k arr c es) = putTable k arr (g c) es := by
  cases arr with
  | false =>
    simp only [PutOpen, Bool.false_eq_true, if_false] at h
    simp only [putTable, Bool.false_eq_true, if_false, alterAt, lookup_made h, Value.section?_table,
      Value.withSection_table, replaceValue_append_of_none h]
  | true =>
    simp only [PutOpen, if_true] at h
    simp only [putTable, if_true]
    exact alterAt_pushTables g h c

theorem sectionOpen_putTable (h : PutOpen arr k es) (c : List (String × Value)) :
    SectionOpen [k] (putTable k arr c es) := by
  cases arr with
  | false =>
    simp only [PutOpen, Bool.false_eq_true, if_false] at h
    simp [SectionOpen, putTable, lookup_made h]
  | true =>
    simp only [PutOpen, if_true] at h
    obtain ⟨items, hl, hall⟩ := lookup_pushTables h [.table c]
    simp [SectionOpen, putTable, hl, section?_push hall]

theorem sectionAt_putTable (h : PutOpen arr k es) (c : List (String × Value)) :
    sectionAt [k] (putTable k arr c es) = c := by
  have hc := congrArg (sectionAt [k]) (alterAt_putTable h (fun _ => c) c)
  rw [sectionAt_alterAt _ (sectionOpen_putTable h c)] at hc
  exact hc.symm

end Put

/-- What a builder holds of a document: `doc` is the document read so far,
floats forgotten, with the table being filled, at `path`, put in place as
`finish` puts it; `arr` says whether that table is an element of an array of
tables. -/
structure Fills (b : Builder) (doc : List (String × Value)) (path : List String) (arr : Bool) : Prop where
  array : b.isArray = arr
  root : Tree.LaidEntries b.root
  current : Tree.LaidEntries b.current
  path_eq : names b.path = path
  placed : (path = [] ∧ arr = false ∧ b.root = [] ∧ doc = Tree.view b.current) ∨
    ∃ init k, path = init ++ [k] ∧ SectionOpen init (Tree.view b.root) ∧
      Slot arr k (Tree.sectionTrees init b.root) ∧
      doc = alterAt (putTable k arr (Tree.view b.current)) init (Tree.view b.root)

section Fills

variable {b : Builder} {doc : List (String × Value)} {path : List String} {arr : Bool}

theorem fills_empty : Builder.empty.Fills [] [] false :=
  ⟨rfl, trivial, trivial, rfl, Or.inl ⟨rfl, rfl, rfl, rfl⟩⟩

/-- The table being filled goes where the builder's slot is open. -/
theorem Fills.putOpen {init : List String} {k : String} (h : b.Fills doc path arr)
    (hslot : Slot arr k (Tree.sectionTrees init b.root)) : PutOpen arr k (sectionAt init (Tree.view b.root)) := by
  have hv := Tree.view_sectionTrees init h.root
  rw [← hv.1]
  exact hslot.putOpen hv.2

/-- The table being filled is the table at its path in the document. -/
theorem Fills.sectionAt_eq (h : b.Fills doc path arr) : sectionAt path doc = Tree.view b.current := by
  rcases h.placed with ⟨rfl, -, -, rfl⟩ | ⟨init, k, rfl, hopen, hslot, rfl⟩
  · rfl
  · rw [sectionAt_append, sectionAt_alterAt _ hopen, sectionAt_putTable (h.putOpen hslot)]

/-- Entries appended to the table being filled go into it, wherever it will
be put. -/
theorem Fills.extendAt_eq {init : List String} {k : String} (h : b.Fills doc path arr) (hpath : path = init ++ [k])
    (hslot : Slot arr k (Tree.sectionTrees init b.root))
    (hdoc : doc = alterAt (putTable k arr (Tree.view b.current)) init (Tree.view b.root))
    (xs : List (String × Value)) :
    extendAt path xs doc = alterAt (putTable k arr (Tree.view b.current ++ xs)) init (Tree.view b.root) := by
  rw [hpath, hdoc, extendAt, alterAt_append, alterAt_alterAt]
  exact alterAt_congr _ _ (alterAt_putTable (h.putOpen hslot) _ _)

/-- The table being filled is in the document: appending nothing to it
changes nothing. -/
theorem Fills.extendAt_nil (h : b.Fills doc path arr) : extendAt path [] doc = doc := by
  rcases h.placed with ⟨rfl, -, -, rfl⟩ | ⟨init, k, hpath, -, hslot, hdoc⟩
  · simp [extendAt, alterAt]
  · rw [h.extendAt_eq hpath hslot hdoc, List.append_nil, hdoc]

/-- Finishing puts the table being filled in place: the root becomes the
document. -/
theorem Fills.finish_ok (h : b.Fills doc path arr) :
    ∃ b₀, b.finish = .ok b₀ ∧ Tree.view b₀.root = doc ∧ Tree.LaidEntries b₀.root := by
  rcases h.placed with ⟨rfl, -, -, rfl⟩ | ⟨init, k, rfl, hopen, hslot, rfl⟩
  · have hpath : b.path = [] := List.map_eq_nil_iff.1 h.path_eq
    exact ⟨_, by simp only [Builder.finish, hpath, splitLast]; rfl, rfl, h.current⟩
  · obtain ⟨pre, ks, hpath, hpre⟩ := names_eq_append h.path_eq
    simp only [Builder.finish, hpath, splitLast_append]
    generalize hD : descend false false .parent _ [] .header pre b.root = D
    obtain ⟨root, rfl, hv, hp, -⟩ := descend_laid_of_eq hD rfl (putTable k arr (Tree.view b.current)) ()
      (fun _ => True) h.root (hpre ▸ hopen) fun kind' E' h1 h2 h3 => by
        rw [hpre] at h2
        subst h2
        rw [h.array]
        cases arr with
        | false =>
          simp only [Slot, Bool.false_eq_true, if_false] at hslot
          have hlaid : (Tree.table .header b.current b.span).Laid := ⟨rfl, h.current⟩
          refine ⟨Tree.sectionTrees init b.root ++ [(k, ks, .table .header b.current b.span)], by simp [hslot], ?_,
            h1.append (Tree.laidEntries_singleton hlaid), trivial⟩
          simp only [Tree.view_append, Tree.view_cons, Tree.view_nil, Tree.blur_toValue_table, putTable,
            Bool.false_eq_true, if_false]
        | true =>
          simp only [Slot, if_true] at hslot
          obtain ⟨items, hk⟩ := hslot
          have hl := Tree.lookup_view k (Tree.sectionTrees init b.root)
          rw [hk, Option.map_some, Tree.blur_toValue_tables] at hl
          refine ⟨replaceEntry k (.tables (items ++ [.table .header b.current b.span])) (Tree.sectionTrees init b.root),
            by simp [hk], ?_, ?_, trivial⟩
          · simp only [Tree.view_replaceEntry, putTable, pushTables, hl, if_true, Tree.blur_toValue_tables,
              List.map_append, List.map_cons, List.map_nil, Tree.blur_toValue_table]
          · refine h1.replaceEntry k (Tree.laidTables_iff.2 fun y hy => ?_)
            rcases List.mem_append.1 hy with hy | hy
            · exact Tree.laidTables_iff.1 (h1.findEntry hk) y hy
            · exact ⟨_, _, _, List.mem_singleton.1 hy, h.current⟩
    exact ⟨_, rfl, by rw [hv, hpre], hp⟩

/-- A header `[path]` opens an empty table at its path, after the tables the
document has there, making the tables above it that are missing. -/
theorem Fills.openTable (h : b.Fills doc path arr) {keys : List (String × Span)} {init : List String} {k : String}
    (hkeys : names keys = init ++ [k]) (hopen : SectionOpen init doc) (hk : lookup k (sectionAt init doc) = none)
    (span : Span) :
    ∃ b', b.openTable keys span = .ok b' ∧ b'.Fills (extendAt init [(k, .table [])] doc) (init ++ [k]) false := by
  obtain ⟨b₀, hfin, hv₀, hp₀⟩ := h.finish_ok
  obtain ⟨pre, ks, rfl, hpre⟩ := names_eq_append hkeys
  simp only [Builder.openTable, hfin, splitLast_append, bind, Except.bind]
  generalize hD : descend false false .parent _ [] .header pre b₀.root = D
  obtain ⟨root, rfl, hv, hp, hq⟩ := descend_laid_of_eq hD rfl id [] (fun E'' => findEntry k E'' = none) hp₀
    (by rw [hpre, hv₀]; exact hopen) fun kind' E' h1 _ h3 => by
      have hnone : findEntry k E' = none := by
        have := Tree.lookup_view k E'
        rw [h3, hpre, hv₀, hk] at this
        exact Option.map_eq_none_iff.1 this.symm
      exact ⟨E', by simp [hnone], rfl, h1, hnone⟩
  rw [hpre, hv₀] at hv
  rw [hpre] at hq
  refine ⟨_, rfl, ⟨rfl, hp, trivial, hkeys, Or.inr ⟨init, k, rfl, ?_, ?_, ?_⟩⟩⟩
  · rw [hv]
    exact sectionOpen_alterAt id hopen
  · simpa [Slot] using hq
  · rw [hv, extendAt, alterAt_alterAt, putTable_false]
    rfl

/-- A header `[[path]]` opens a new table at the end of the array of tables at
its path, making the array and the tables above it that are missing. -/
theorem Fills.openArrayTable (h : b.Fills doc path arr) {keys : List (String × Span)} {init : List String}
    {k : String} (hkeys : names keys = init ++ [k]) (hopen : SectionOpen init doc)
    (hslot : ArrayOpen k (sectionAt init doc)) (span : Span) :
    ∃ b', b.openArrayTable keys span = .ok b' ∧
      b'.Fills (alterAt (pushTables k [.table []]) init doc) (init ++ [k]) true := by
  obtain ⟨b₀, hfin, hv₀, hp₀⟩ := h.finish_ok
  obtain ⟨pre, ks, rfl, hpre⟩ := names_eq_append hkeys
  simp only [Builder.openArrayTable, hfin, splitLast_append, bind, Except.bind]
  generalize hD : descend false false .parent _ [] .header pre b₀.root = D
  obtain ⟨root, rfl, hv, hp, hq⟩ := descend_laid_of_eq hD rfl (pushTables k []) ()
    (fun E'' => ∃ items, findEntry k E'' = some (.tables items)) hp₀ (by rw [hpre, hv₀]; exact hopen)
    fun kind' E' h1 _ h3 => by
      have hl := Tree.lookup_view k E'
      rw [h3, hpre, hv₀] at hl
      rcases hslot with hnone | ⟨items, hsome, harr⟩
      · -- the first table of the array makes it
        rw [hnone] at hl
        have hk : findEntry k E' = none := Option.map_eq_none_iff.1 hl.symm
        have hlaid : (Tree.tables []).Laid := trivial
        refine ⟨E' ++ [(k, ks, .tables [])], by simp [hk], ?_, h1.append (Tree.laidEntries_singleton hlaid),
          [], Tree.findEntry_made hk _ _⟩
        have hk' : lookup k (Tree.view E') = none := by rw [Tree.lookup_view, hk, Option.map_none]
        simp [Tree.view_append, Tree.view_cons, pushTables, hk']
      · -- a later table: the array is there, an array of tables and no value
        rw [hsome] at hl
        obtain ⟨t, hk, hvt⟩ := Option.map_eq_some_iff.1 hl.symm
        have ht := h1.findEntry hk
        obtain ⟨its, rfl⟩ : ∃ its, t = .tables its := by
          cases t with
          | tables its => exact ⟨its, rfl⟩
          | scalar v sp => cases v <;> simp_all [Tree.toValue, Tree.Laid, Value.isLeaf, Value.blur]
          | table kind E sp => simp at hvt
          | array its sp =>
            have hnot : (Value.array (its.map Tree.toValue)).isTableArray = false := by
              simpa [Tree.itemValues_eq_map] using ht.2
            have h2 := Value.isTableArray_blur (its.map Tree.toValue)
            simp only [Tree.toValue_array, Value.blur_array, Value.array.injEq] at hvt
            rw [hnot, hvt, harr] at h2
            cases h2
        refine ⟨E', by simp [hk], ?_, h1, its, hk⟩
        have hk' : lookup k (Tree.view E') = some (.array items) := by
          rw [Tree.lookup_view, hk, Option.map_some, hvt]
        simp [pushTables, hk', replaceValue_self hk']
  rw [hpre, hv₀] at hv
  rw [hpre] at hq
  refine ⟨_, rfl, ⟨rfl, hp, trivial, hkeys, Or.inr ⟨init, k, rfl, ?_, ?_, ?_⟩⟩⟩
  · rw [hv]
    exact sectionOpen_alterAt _ hopen
  · simpa [Slot] using hq
  · rw [hv, alterAt_alterAt]
    refine alterAt_congr _ _ ?_
    simp only [Function.comp, putTable, if_true, Tree.view_nil]
    rw [pushTables_pushTables hslot.tablesSlot, List.nil_append]

/-- A key-value line adds its pair at the end of the table being filled. -/
theorem Fills.addPair (h : b.Fills doc path arr) {k : String} (hk : lookup k (sectionAt path doc) = none)
    (ks : Span) {t : Tree} (ht : t.Laid) :
    ∃ b', b.addPair [(k, ks)] t = .ok b' ∧ b'.Fills (extendAt path [(k, t.toValue.blur)] doc) path arr := by
  have hnone : findEntry k b.current = none := by
    have := Tree.lookup_view k b.current
    rw [← h.sectionAt_eq, hk] at this
    exact Option.map_eq_none_iff.1 this.symm
  have hcur : Tree.LaidEntries (b.current ++ [(k, ks, t)]) := h.current.append (Tree.laidEntries_singleton ht)
  have hview : Tree.view (b.current ++ [(k, ks, t)]) = Tree.view b.current ++ [(k, t.toValue.blur)] := by
    rw [Tree.view_append, Tree.view_cons, Tree.view_nil]
  refine ⟨{ b with current := b.current ++ [(k, ks, t)] }, ?_, ⟨h.array, h.root, hcur, h.path_eq, ?_⟩⟩
  · simp [Builder.addPair, splitLast, descend, TableKind.isDotted, hnone]
  · rcases h.placed with ⟨rfl, harr, hroot, rfl⟩ | ⟨init, k', hpath, hopen, hslot, hdoc⟩
    · exact Or.inl ⟨rfl, harr, hroot, by simp [extendAt, alterAt, hview]⟩
    · exact Or.inr ⟨init, k', hpath, hopen, hslot, by rw [h.extendAt_eq hpath hslot hdoc, hview]⟩

end Fills

end Builder

end LotBridge.Toml
