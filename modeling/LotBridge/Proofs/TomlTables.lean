import LotBridge.Proofs.TomlScalars

/-!
# The tables a document reader builds

The document reader keeps the tables it has read as trees, and changes them by
going down a path of keys (`descend`), making the tables that are missing as it
goes. Seen through the values of the trees, going down a path and changing the
table there is `modifyAt`, a change of the table at a path; a header appends an
empty table at its path, and a key-value line appends its pair to the table the
last header opened (`Builder.Holds`).

The trees are plain: scalars, and tables that are not inline. No array of
tables and no inline table is met on the way, so every step of the reader that
could refuse a document goes through here.

## Main definitions

* `modifyAt`, `tableAt`, `PathOpen`, `appendAt`: tables at a path of keys.
* `Tree.Plain`: trees of plain tables.
* `Builder.Holds`: the document a builder holds.

## Main statements

* `modifyAt_modifyAt`, `appendAt_fresh`, `appendAt_made`: changes at a path.
* `descend_plain`: going down a path of plain tables.
* `Builder.Holds.finish_ok`, `Builder.Holds.openTable`, `Builder.Holds.addPair`:
  the steps of the builder on the document.
-/

namespace LotBridge.Toml

open Reader

/-- Replaces the value of the first entry with a key. -/
def replaceValue (key : String) (v : Value) : List (String × Value) → List (String × Value)
  | [] => []
  | (k, u) :: rest => if k = key then (k, v) :: rest else (k, u) :: replaceValue key v rest

/-- Changes the table at a path below a table's entries with `g`, making the
tables that are missing at the end of their parents; a path through a value
that is no table changes nothing. -/
def modifyAt (g : List (String × Value) → List (String × Value)) :
    List String → List (String × Value) → List (String × Value)
  | [], es => g es
  | k :: p, es =>
    match lookup k es with
    | some (.table inner) => replaceValue k (.table (modifyAt g p inner)) es
    | none => es ++ [(k, .table (modifyAt g p []))]
    | some _ => es

/-- The entries of the table at a path, none where it is missing. -/
def tableAt : List String → List (String × Value) → List (String × Value)
  | [], es => es
  | k :: p, es =>
    match lookup k es with
    | some (.table inner) => tableAt p inner
    | _ => []

/-- A path that goes through tables only, as far as it exists. -/
def PathOpen : List String → List (String × Value) → Prop
  | [], _ => True
  | k :: p, es =>
    match lookup k es with
    | some (.table inner) => PathOpen p inner
    | none => True
    | some _ => False

/-- Appends entries to the table at a path. -/
def appendAt (p : List String) (xs : List (String × Value)) (es : List (String × Value)) :
    List (String × Value) :=
  modifyAt (· ++ xs) p es

/-! ## Entries by key -/

theorem lookup_cons (k k' : String) (v : Value) (rest : List (String × Value)) :
    lookup k ((k', v) :: rest) = if k' = k then some v else lookup k rest := by
  by_cases h : k' = k <;> simp [lookup, h]

theorem lookup_append_of_none {k : String} {es : List (String × Value)} (h : lookup k es = none)
    (xs : List (String × Value)) : lookup k (es ++ xs) = lookup k xs := by
  induction es with
  | nil => rfl
  | cons e rest ih =>
    obtain ⟨k', v⟩ := e
    rw [lookup_cons] at h
    split_ifs at h
    rw [List.cons_append, lookup_cons, if_neg (by assumption), ih h]

theorem lookup_replaceValue {k : String} {es : List (String × Value)} {u : Value} (h : lookup k es = some u)
    (v : Value) : lookup k (replaceValue k v es) = some v := by
  induction es with
  | nil => simp [lookup] at h
  | cons e rest ih =>
    obtain ⟨k', w⟩ := e
    rw [lookup_cons] at h
    simp only [replaceValue]
    split_ifs at h ⊢ with hk
    · rw [lookup_cons, if_pos hk]
    · rw [lookup_cons, if_neg hk, ih h]

theorem replaceValue_replaceValue (k : String) (v w : Value) (es : List (String × Value)) :
    replaceValue k w (replaceValue k v es) = replaceValue k w es := by
  induction es with
  | nil => rfl
  | cons e rest ih =>
    obtain ⟨k', u⟩ := e
    simp only [replaceValue]
    split_ifs with hk
    · simp [replaceValue, hk]
    · simp [replaceValue, hk, ih]

theorem replaceValue_append_of_none {k : String} {es : List (String × Value)} (h : lookup k es = none)
    (u v : Value) : replaceValue k v (es ++ [(k, u)]) = es ++ [(k, v)] := by
  induction es with
  | nil => simp [replaceValue]
  | cons e rest ih =>
    obtain ⟨k', w⟩ := e
    rw [lookup_cons] at h
    split_ifs at h with hk
    simp [replaceValue, hk, ih h]

/-! ## Tables at a path -/

theorem tableAt_nil (p : List String) : tableAt p [] = [] := by
  cases p <;> rfl

theorem pathOpen_nil (p : List String) : PathOpen p [] := by
  cases p <;> trivial

theorem tableAt_append (p q : List String) (es : List (String × Value)) :
    tableAt (p ++ q) es = tableAt q (tableAt p es) := by
  induction p generalizing es with
  | nil => rfl
  | cons k p ih =>
    simp only [List.cons_append, tableAt]
    split
    · exact ih _
    · exact (tableAt_nil q).symm

theorem pathOpen_append (p q : List String) (es : List (String × Value)) :
    PathOpen (p ++ q) es ↔ PathOpen p es ∧ PathOpen q (tableAt p es) := by
  induction p generalizing es with
  | nil => simp [PathOpen, tableAt]
  | cons k p ih =>
    simp only [List.cons_append, PathOpen, tableAt]
    rcases hk : lookup k es with _ | v
    · simp [pathOpen_nil]
    · cases v with
      | table inner => exact ih inner
      | string | integer | float | boolean | datetime | array => simp

theorem modifyAt_append (g : List (String × Value) → List (String × Value)) (p q : List String)
    (es : List (String × Value)) : modifyAt g (p ++ q) es = modifyAt (modifyAt g q) p es := by
  induction p generalizing es with
  | nil => rfl
  | cons k p ih =>
    simp only [List.cons_append, modifyAt]
    split <;> simp only [ih]

/-- Two changes at one path are one change: a table the first makes is where
the second finds it. -/
theorem modifyAt_modifyAt (g h : List (String × Value) → List (String × Value)) (p : List String)
    (es : List (String × Value)) : modifyAt g p (modifyAt h p es) = modifyAt (g ∘ h) p es := by
  induction p generalizing es with
  | nil => rfl
  | cons k p ih =>
    rcases hk : lookup k es with _ | v
    · -- the first change makes the table, at the end
      simp only [modifyAt, hk, lookup_append_of_none hk, lookup_cons, if_true,
        replaceValue_append_of_none hk, ih]
    · cases v with
      | table inner => simp only [modifyAt, hk, lookup_replaceValue hk, replaceValue_replaceValue, ih]
      | string | integer | float | boolean | datetime | array => simp only [modifyAt, hk]

/-- A change at a path depends only on what it does to the table there. -/
theorem modifyAt_congr {g h : List (String × Value) → List (String × Value)} (p : List String)
    (es : List (String × Value)) (hgh : g (tableAt p es) = h (tableAt p es)) :
    modifyAt g p es = modifyAt h p es := by
  induction p generalizing es with
  | nil => exact hgh
  | cons k p ih =>
    simp only [modifyAt]
    simp only [tableAt] at hgh
    split
    · rename_i inner hk
      rw [hk] at hgh
      rw [ih inner hgh]
    · rename_i hk
      rw [hk] at hgh
      rw [ih [] (by simpa [tableAt_nil] using hgh)]
    · rfl

/-- Along a path of tables, the table a change leaves is the change of the
table that was there. -/
theorem tableAt_modifyAt (g : List (String × Value) → List (String × Value)) {p : List String}
    {es : List (String × Value)} (h : PathOpen p es) : tableAt p (modifyAt g p es) = g (tableAt p es) := by
  induction p generalizing es with
  | nil => rfl
  | cons k p ih =>
    simp only [PathOpen] at h
    rcases hk : lookup k es with _ | v
    · simp only [hk] at h
      simp only [modifyAt, tableAt, hk, lookup_append_of_none hk, lookup_cons, if_true,
        ih (pathOpen_nil p), tableAt_nil]
    · cases v with
      | table inner =>
        simp only [hk] at h
        simp only [modifyAt, tableAt, hk, lookup_replaceValue hk, ih h]
      | string | integer | float | boolean | datetime | array => simp [hk] at h

theorem pathOpen_modifyAt (g : List (String × Value) → List (String × Value)) {p : List String}
    {es : List (String × Value)} (h : PathOpen p es) : PathOpen p (modifyAt g p es) := by
  induction p generalizing es with
  | nil => trivial
  | cons k p ih =>
    simp only [PathOpen] at h
    rcases hk : lookup k es with _ | v
    · simp only [modifyAt, PathOpen, hk, lookup_append_of_none hk, lookup_cons, if_true]
      exact ih (pathOpen_nil p)
    · cases v with
      | table inner =>
        simp only [hk] at h
        simp only [modifyAt, PathOpen, hk, lookup_replaceValue hk]
        exact ih h
      | string | integer | float | boolean | datetime | array => simp [hk] at h

theorem appendAt_appendAt (p : List String) (xs ys es : List (String × Value)) :
    appendAt p xs (appendAt p ys es) = appendAt p (ys ++ xs) es := by
  unfold appendAt
  rw [modifyAt_modifyAt]
  congr 1
  funext E
  simp

/-- Entries appended under a fresh key make its table. -/
theorem appendAt_fresh {p : List String} {k : String} {es : List (String × Value)}
    (h : lookup k (tableAt p es) = none) (xs : List (String × Value)) :
    appendAt (p ++ [k]) xs es = appendAt p [(k, .table xs)] es := by
  unfold appendAt
  rw [modifyAt_append]
  apply modifyAt_congr
  simp [modifyAt, h]

/-- Entries appended to a table just made go at its end. -/
theorem appendAt_made {p : List String} {k : String} {es : List (String × Value)}
    (h : lookup k (tableAt p es) = none) (xs ys : List (String × Value)) :
    appendAt (p ++ [k]) xs (appendAt p [(k, .table ys)] es) = appendAt p [(k, .table (ys ++ xs))] es := by
  unfold appendAt
  rw [modifyAt_append, modifyAt_modifyAt]
  apply modifyAt_congr
  simp only [Function.comp, modifyAt, lookup_append_of_none h, lookup_cons, if_true,
    replaceValue_append_of_none h]

theorem tableAt_appendAt {p : List String} {es : List (String × Value)} (h : PathOpen p es)
    (xs : List (String × Value)) : tableAt p (appendAt p xs es) = tableAt p es ++ xs :=
  tableAt_modifyAt _ h

theorem pathOpen_appendAt {p : List String} {es : List (String × Value)} (h : PathOpen p es)
    (xs : List (String × Value)) : PathOpen p (appendAt p xs es) :=
  pathOpen_modifyAt _ h

/-- Below a fresh key there is no table yet. -/
theorem tableAt_fresh {p : List String} {k : String} {es : List (String × Value)}
    (h : lookup k (tableAt p es) = none) : tableAt (p ++ [k]) es = [] := by
  rw [tableAt_append]
  simp [tableAt, h]

theorem pathOpen_fresh {p : List String} {k : String} {es : List (String × Value)} (hp : PathOpen p es)
    (h : lookup k (tableAt p es) = none) : PathOpen (p ++ [k]) es := by
  rw [pathOpen_append]
  exact ⟨hp, by simp [PathOpen, h]⟩

/-- A table made under a fresh key holds what it was made with. -/
theorem tableAt_made {p : List String} {k : String} {es : List (String × Value)} (hp : PathOpen p es)
    (h : lookup k (tableAt p es) = none) (ys : List (String × Value)) :
    tableAt (p ++ [k]) (appendAt p [(k, .table ys)] es) = ys := by
  rw [tableAt_append, tableAt_appendAt hp]
  simp [tableAt, lookup_append_of_none h, lookup_cons]

theorem pathOpen_made {p : List String} {k : String} {es : List (String × Value)} (hp : PathOpen p es)
    (h : lookup k (tableAt p es) = none) (ys : List (String × Value)) :
    PathOpen (p ++ [k]) (appendAt p [(k, .table ys)] es) := by
  rw [pathOpen_append, tableAt_appendAt hp]
  exact ⟨pathOpen_appendAt hp _, by simp [PathOpen, lookup_append_of_none h, lookup_cons]⟩

/-! ## Trees of plain tables -/

mutual

/-- A tree read from a document of plain tables: scalars, and tables that are
not inline. -/
def Tree.Plain : Tree → Prop
  | .scalar v _ => v.IsScalar
  | .table kind entries _ => kind.isInline = false ∧ Tree.PlainEntries entries
  | _ => False

/-- Entries of plain trees. -/
def Tree.PlainEntries : List Entry → Prop
  | [] => True
  | (_, _, t) :: rest => t.Plain ∧ Tree.PlainEntries rest

end

namespace Tree

theorem entryValues_append (E F : List Entry) : entryValues (E ++ F) = entryValues E ++ entryValues F := by
  induction E with
  | nil => rfl
  | cons e E ih =>
    obtain ⟨k, s, t⟩ := e
    simp [entryValues, ih]

theorem lookup_entryValues (k : String) (E : List Entry) :
    lookup k (entryValues E) = (findEntry k E).map toValue := by
  induction E with
  | nil => rfl
  | cons e E ih =>
    obtain ⟨k', s, t⟩ := e
    rw [entryValues, lookup_cons]
    by_cases hk : k' = k
    · simp [findEntry, hk]
    · rw [if_neg hk, ih]
      simp [findEntry, hk]

theorem entryValues_replaceEntry (k : String) (t : Tree) (E : List Entry) :
    entryValues (replaceEntry k t E) = replaceValue k t.toValue (entryValues E) := by
  induction E with
  | nil => rfl
  | cons e E ih =>
    obtain ⟨k', s, u⟩ := e
    by_cases hk : k' = k <;> simp [replaceEntry, replaceValue, entryValues, hk, ih]

theorem plainEntries_append {E F : List Entry} (hE : PlainEntries E) (hF : PlainEntries F) :
    PlainEntries (E ++ F) := by
  induction E with
  | nil => exact hF
  | cons e E ih =>
    obtain ⟨k, s, t⟩ := e
    exact ⟨hE.1, ih hE.2⟩

theorem plainEntries_replaceEntry {E : List Entry} (hE : PlainEntries E) (k : String) {t : Tree}
    (ht : t.Plain) : PlainEntries (replaceEntry k t E) := by
  induction E with
  | nil => trivial
  | cons e E ih =>
    obtain ⟨k', s, u⟩ := e
    simp only [replaceEntry]
    split_ifs
    · exact ⟨ht, hE.2⟩
    · exact ⟨hE.1, ih hE.2⟩

theorem plain_of_findEntry {E : List Entry} (hE : PlainEntries E) {k : String} {t : Tree}
    (h : findEntry k E = some t) : t.Plain := by
  induction E with
  | nil => simp [findEntry] at h
  | cons e E ih =>
    obtain ⟨k', s, u⟩ := e
    by_cases hk : k' = k
    · simp [findEntry, hk] at h
      exact h ▸ hE.1
    · exact ih hE.2 (by simpa [findEntry, hk] using h)

/-- A plain tree that reads as a table is a table that is not inline. -/
theorem eq_table_of_toValue {t : Tree} (ht : t.Plain) {inner : List (String × Value)}
    (hv : t.toValue = .table inner) :
    ∃ kind es sp, t = .table kind es sp ∧ kind.isInline = false ∧ entryValues es = inner ∧
      PlainEntries es := by
  cases t with
  | scalar v _ =>
    simp only [toValue] at hv
    subst hv
    exact ht.elim
  | table kind es sp =>
    simp only [toValue, Value.table.injEq] at hv
    exact ⟨kind, es, sp, rfl, ht.1, hv, ht.2⟩
  | array | tables => exact ht.elim

end Tree

/-! ## Descending a document -/

/-- Going down a path of plain tables, `descend` changes the table at its end
as `f` changes it, making the tables that are missing. -/
theorem descend_plain {α : Type} {made : TableKind} (hmade : made.isInline = false)
    (f : TableKind → List Entry → Except String (List Entry × α))
    (g : List (String × Value) → List (String × Value)) (a : α) :
    ∀ (path : List (String × Span)) (seen : List String) (kind : TableKind) (E : List Entry),
      kind.isInline = false → Tree.PlainEntries E → PathOpen (names path) (Tree.entryValues E) →
      (∀ kind' E', kind'.isInline = false → Tree.PlainEntries E' →
        Tree.entryValues E' = tableAt (names path) (Tree.entryValues E) →
        ∃ E'', f kind' E' = .ok (E'', a) ∧ Tree.entryValues E'' = g (Tree.entryValues E') ∧
          Tree.PlainEntries E'') →
      ∃ E', descend false false made f seen kind path E = .ok (E', a) ∧
        Tree.entryValues E' = modifyAt g (names path) (Tree.entryValues E) ∧ Tree.PlainEntries E'
  | [], seen, kind, E, hkind, hE, _, hf => by
    obtain ⟨E', hf', hv, hp⟩ := hf kind E hkind hE rfl
    exact ⟨E', by rw [descend]; exact hf', hv, hp⟩
  | (k, ks) :: more, seen, kind, E, hkind, hE, hopen, hf => by
    have hl := Tree.lookup_entryValues k E
    cases hk : findEntry k E with
    | none =>
      -- a missing table is made, and the rest of the path goes down into it
      rw [hk] at hl
      obtain ⟨inner, hd, hv, hp⟩ := descend_plain hmade f g a more (seen ++ [k]) made [] hmade trivial
        (pathOpen_nil _) fun kind' E' h1 h2 h3 => hf kind' E' h1 h2 (by
          simp only [names, List.map_cons, tableAt, hl]
          simpa [tableAt_nil, Tree.entryValues] using h3)
      refine ⟨E ++ [(k, ks, .table made inner none)], ?_, ?_, ?_⟩
      · simp only [descend, hk, hd]
        rfl
      · simp only [Tree.entryValues_append, Tree.entryValues, Tree.toValue, hv, names, List.map_cons,
          modifyAt, hl]
        rfl
      · exact Tree.plainEntries_append hE ⟨⟨hmade, hp⟩, trivial⟩
    | some t =>
      -- an existing table on the path is plain, so not inline
      rw [hk] at hl
      simp only [names, List.map_cons, PathOpen, hl, Option.map_some] at hopen
      generalize hv : t.toValue = v at hopen hl
      cases v with
      | table inner =>
        obtain ⟨tk, es, sp, rfl, htk, hes, hp⟩ := Tree.eq_table_of_toValue (Tree.plain_of_findEntry hE hk) hv
        obtain ⟨inner', hd, hv', hp'⟩ := descend_plain hmade f g a more (seen ++ [k]) tk es htk hp
          (by rw [hes]; exact hopen) fun kind' E' h1 h2 h3 => hf kind' E' h1 h2 (by
            simp only [names, List.map_cons, tableAt, hl, Option.map_some, hv] at h3 ⊢
            rw [h3, hes])
        refine ⟨replaceEntry k (.table tk inner' sp) E, ?_, ?_, ?_⟩
        · simp only [descend, hk, htk, hd, bne_self_eq_false, Bool.false_eq_true, if_false,
            Bool.false_and]
          rfl
        · rw [Tree.entryValues_replaceEntry]
          simp only [Tree.toValue, hv', names, List.map_cons, modifyAt, hl, Option.map_some, hes]
        · exact Tree.plainEntries_replaceEntry hE k ⟨htk, hp'⟩
      | string | integer | float | boolean | datetime | array => exact hopen.elim

/-- `descend_plain` for a run of `descend` met in a goal: the function it
applies is read off the run. -/
theorem descend_plain_of_eq {α : Type} {made : TableKind} {f : TableKind → List Entry → Except String (List Entry × α)}
    {path : List (String × Span)} {seen : List String} {kind : TableKind} {E : List Entry}
    {r : Except String (List Entry × α)} (hr : descend false false made f seen kind path E = r)
    (hmade : made.isInline = false) (g : List (String × Value) → List (String × Value)) (a : α)
    (hkind : kind.isInline = false) (hE : Tree.PlainEntries E) (hopen : PathOpen (names path) (Tree.entryValues E))
    (hf : ∀ kind' E', kind'.isInline = false → Tree.PlainEntries E' →
        Tree.entryValues E' = tableAt (names path) (Tree.entryValues E) →
        ∃ E'', f kind' E' = .ok (E'', a) ∧ Tree.entryValues E'' = g (Tree.entryValues E') ∧
          Tree.PlainEntries E'') :
    ∃ E', r = .ok (E', a) ∧ Tree.entryValues E' = modifyAt g (names path) (Tree.entryValues E) ∧
      Tree.PlainEntries E' := by
  subst hr
  exact descend_plain hmade f g a path seen kind E hkind hE hopen hf

/-! ## The builder of a document -/

namespace Builder

theorem splitLast_append (xs : List (String × Span)) (x : String × Span) :
    splitLast (xs ++ [x]) = some (xs, x) := by
  simp [splitLast]

theorem names_eq_append {l : List (String × Span)} {init : List String} {k : String}
    (h : names l = init ++ [k]) : ∃ pre ks, l = pre ++ [(k, ks)] ∧ names pre = init := by
  obtain ⟨pre, last, rfl, hpre, hlast⟩ := List.map_eq_append_iff.1 h
  obtain ⟨⟨k', ks⟩, rfl, hk⟩ := List.map_eq_singleton_iff.1 hlast
  exact ⟨pre, ks, by rw [← hk], hpre⟩

/-- What a builder holds of a document: `doc` is the document read so far,
with the table being filled, at `path`, put in place as `finish` puts it. -/
structure Holds (b : Builder) (doc : List (String × Value)) (path : List String) : Prop where
  array : b.isArray = false
  root : Tree.PlainEntries b.root
  current : Tree.PlainEntries b.current
  path_eq : names b.path = path
  placed : (path = [] ∧ b.root = [] ∧ doc = Tree.entryValues b.current) ∨
    ∃ init k, path = init ++ [k] ∧ PathOpen init (Tree.entryValues b.root) ∧
      lookup k (tableAt init (Tree.entryValues b.root)) = none ∧
      doc = appendAt init [(k, .table (Tree.entryValues b.current))] (Tree.entryValues b.root)

/-- The table being filled is the table at its path in the document. -/
theorem Holds.tableAt_eq {b : Builder} {doc : List (String × Value)} {path : List String}
    (h : b.Holds doc path) : tableAt path doc = Tree.entryValues b.current := by
  rcases h.placed with ⟨rfl, -, rfl⟩ | ⟨init, k, rfl, hopen, hk, rfl⟩
  · rfl
  · rw [tableAt_append, appendAt, tableAt_modifyAt _ hopen]
    simp [tableAt, lookup_append_of_none hk, lookup_cons]

theorem plainEntries_table {k : String} {ks : Span} {kind : TableKind} (hkind : kind.isInline = false)
    {es : List Entry} (hes : Tree.PlainEntries es) (sp : Option Span) :
    Tree.PlainEntries [(k, ks, .table kind es sp)] :=
  ⟨⟨hkind, hes⟩, trivial⟩

/-- The table being filled is in the document: appending nothing to it
changes nothing. -/
theorem Holds.appendAt_nil {b : Builder} {doc : List (String × Value)} {path : List String}
    (h : b.Holds doc path) : appendAt path [] doc = doc := by
  rcases h.placed with ⟨rfl, -, rfl⟩ | ⟨init, k, rfl, -, hk, rfl⟩
  · simp [appendAt, modifyAt]
  · rw [appendAt_made hk, List.append_nil]

theorem holds_empty : Builder.empty.Holds [] [] :=
  ⟨rfl, trivial, trivial, rfl, Or.inl ⟨rfl, rfl, rfl⟩⟩

/-- Finishing puts the table being filled in place: the root becomes the
document. -/
theorem Holds.finish_ok {b : Builder} {doc : List (String × Value)} {path : List String}
    (h : b.Holds doc path) :
    ∃ b₀, b.finish = .ok b₀ ∧ Tree.entryValues b₀.root = doc ∧ Tree.PlainEntries b₀.root := by
  rcases h.placed with ⟨rfl, -, rfl⟩ | ⟨init, k, rfl, hopen, hk, rfl⟩
  · have hpath : b.path = [] := List.map_eq_nil_iff.1 h.path_eq
    exact ⟨_, by simp only [Builder.finish, hpath, splitLast]; rfl, rfl, h.current⟩
  · obtain ⟨pre, ks, hpath, hpre⟩ := names_eq_append h.path_eq
    simp only [Builder.finish, hpath, splitLast_append]
    generalize hD : descend false false .parent _ [] .header pre b.root = D
    obtain ⟨root, rfl, hv, hp⟩ := descend_plain_of_eq hD rfl
      (· ++ [(k, .table (Tree.entryValues b.current))]) () rfl h.root (hpre ▸ hopen)
      fun kind' E' _ h2 h3 => by
        have hnone : findEntry k E' = none := by
          have := Tree.lookup_entryValues k E'
          rw [h3, hpre, hk] at this
          exact Option.map_eq_none_iff.1 this.symm
        refine ⟨E' ++ [(k, ks, .table .header b.current b.span)], ?_, ?_,
          Tree.plainEntries_append h2 (plainEntries_table rfl h.current _)⟩
        · simp [h.array, hnone]
        · simp [Tree.entryValues_append, Tree.entryValues, Tree.toValue]
    exact ⟨_, rfl, by rw [hv, hpre]; rfl, hp⟩

/-- A header opens an empty table at its path, after the tables the document
has there, making the tables above it that are missing. -/
theorem Holds.openTable {b : Builder} {doc : List (String × Value)} {path : List String}
    (h : b.Holds doc path) {keys : List (String × Span)} {init : List String} {k : String}
    (hkeys : names keys = init ++ [k]) (hopen : PathOpen init doc) (hk : lookup k (tableAt init doc) = none)
    (span : Span) :
    ∃ b', b.openTable keys span = .ok b' ∧ b'.Holds (appendAt init [(k, .table [])] doc) (init ++ [k]) := by
  obtain ⟨b₀, hfin, hv₀, hp₀⟩ := h.finish_ok
  obtain ⟨pre, ks, rfl, hpre⟩ := names_eq_append hkeys
  simp only [Builder.openTable, hfin, splitLast_append, bind, Except.bind]
  generalize hD : descend false false .parent _ [] .header pre b₀.root = D
  obtain ⟨root, rfl, hv, hp⟩ := descend_plain_of_eq hD rfl id [] rfl hp₀ (by rw [hpre, hv₀]; exact hopen)
    fun kind' E' _ h2 h3 => by
      have hnone : findEntry k E' = none := by
        have := Tree.lookup_entryValues k E'
        rw [h3, hpre, hv₀, hk] at this
        exact Option.map_eq_none_iff.1 this.symm
      exact ⟨E', by simp [hnone], rfl, h2⟩
  rw [hpre, hv₀] at hv
  refine ⟨_, rfl, ⟨rfl, hp, trivial, hkeys, Or.inr ⟨init, k, rfl, ?_, ?_, ?_⟩⟩⟩
  · rw [hv]
    exact pathOpen_modifyAt id hopen
  · rw [hv, tableAt_modifyAt id hopen]
    exact hk
  · rw [hv, appendAt, appendAt, modifyAt_modifyAt]
    rfl

/-- A key-value line adds its pair at the end of the table being filled. -/
theorem Holds.addPair {b : Builder} {doc : List (String × Value)} {path : List String}
    (h : b.Holds doc path) {k : String} (hk : lookup k (tableAt path doc) = none) (ks : Span) {t : Tree}
    (ht : t.Plain) :
    ∃ b', b.addPair [(k, ks)] t = .ok b' ∧ b'.Holds (appendAt path [(k, t.toValue)] doc) path := by
  have hnone : findEntry k b.current = none := by
    have := Tree.lookup_entryValues k b.current
    rw [← h.tableAt_eq, hk] at this
    exact Option.map_eq_none_iff.1 this.symm
  have hcur : Tree.PlainEntries (b.current ++ [(k, ks, t)]) := Tree.plainEntries_append h.current ⟨ht, trivial⟩
  refine ⟨{ b with current := b.current ++ [(k, ks, t)] }, ?_, ⟨h.array, h.root, hcur, h.path_eq, ?_⟩⟩
  · simp [Builder.addPair, splitLast, descend, TableKind.isDotted, hnone]
  · rcases h.placed with ⟨rfl, hroot, rfl⟩ | ⟨init, k', rfl, hopen, hk', rfl⟩
    · exact Or.inl ⟨rfl, hroot, by simp [appendAt, modifyAt, Tree.entryValues_append, Tree.entryValues]⟩
    · refine Or.inr ⟨init, k', rfl, hopen, hk', ?_⟩
      rw [appendAt_made hk', Tree.entryValues_append]
      rfl

end Builder

end LotBridge.Toml
