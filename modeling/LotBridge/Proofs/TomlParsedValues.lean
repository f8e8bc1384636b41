import LotBridge.Proofs.TomlDatetimes
import LotBridge.Proofs.TomlTables
import LotBridge.Proofs.RecordDecoding

/-!
# The values of a parsed document

Whatever text the document reader accepts, every integer it gives fits 64 bits
and every date-time it gives is valid, at any depth: in arrays, in inline
tables, in tables and in arrays of tables (`Tree.parse_readable`). The value
reader checks both as it reads; the steps that build tables and arrays out of
values only move values about, so they keep what the values satisfy.

A document read as a map sorts the keys of every table and keeps each key once
(`Value.sortKeys`): the values stay readable, and no table of the map holds a
key twice (`Value.distinct_sortKeys`).

## Main definitions

* `Value.Readable`: integers of 64 bits and valid date-times, at any depth.
* `Tree.EntriesReadable`, `Builder.Readable`: trees and builders holding
  readable values.
* `Value.Distinct`: tables whose keys appear once each, at any depth.

## Main statements

* `Reader.value_yields`: the value reader gives readable values.
* `Reader.lines_yields`: reading lines keeps a builder readable.
* `Tree.parse_readable`: a parsed document is readable.
* `Value.readable_sortKeys`, `Value.distinct_sortKeys`: the map of a document.
-/

namespace LotBridge.Toml

open Reader
open LotBridge.Json (bind_eq_ok map_eq_ok)

/-! ## Readable values -/

mutual

/-- A value the reader gives back once it is written: integers of 64 bits and
valid date-times, at any depth. -/
def Value.Readable : Value → Prop
  | .integer i => int64Min ≤ i ∧ i ≤ int64Max
  | .datetime d => d.Valid
  | .array items => Value.ItemsReadable items
  | .table entries => Value.EntriesReadable entries
  | _ => True

/-- Array elements that are all readable. -/
def Value.ItemsReadable : List Value → Prop
  | [] => True
  | v :: rest => v.Readable ∧ Value.ItemsReadable rest

/-- Table entries whose values are all readable. -/
def Value.EntriesReadable : List (String × Value) → Prop
  | [] => True
  | (_, v) :: rest => v.Readable ∧ Value.EntriesReadable rest

end

namespace Value

theorem itemsReadable_iff {items : List Value} : ItemsReadable items ↔ ∀ v ∈ items, v.Readable := by
  induction items with
  | nil => simp [ItemsReadable]
  | cons v rest ih => simp [ItemsReadable, ih]

theorem entriesReadable_iff {es : List (String × Value)} :
    EntriesReadable es ↔ ∀ kv ∈ es, kv.2.Readable := by
  induction es with
  | nil => simp [EntriesReadable]
  | cons e rest ih =>
    obtain ⟨k, v⟩ := e
    simp [EntriesReadable, ih]

@[simp] theorem readable_array (items : List Value) : (Value.array items).Readable ↔ ∀ v ∈ items, v.Readable := by
  simp only [Readable, itemsReadable_iff]

@[simp] theorem readable_table (es : List (String × Value)) :
    (Value.table es).Readable ↔ ∀ kv ∈ es, kv.2.Readable := by
  simp only [Readable, entriesReadable_iff]

end Value

/-! ## Trees of readable values -/

namespace Tree

theorem itemValues_eq_map (items : List Tree) : itemValues items = items.map toValue := by
  induction items with
  | nil => rfl
  | cons t rest ih => simp [itemValues, ih]

theorem entryValues_eq_map (E : List Entry) : entryValues E = E.map fun e => (e.1, e.2.2.toValue) := by
  induction E with
  | nil => rfl
  | cons e rest ih =>
    obtain ⟨k, ks, t⟩ := e
    simp [entryValues, ih]

@[simp] theorem toValue_tables (items : List Tree) : (Tree.tables items).toValue = .array (items.map toValue) := by
  simp [toValue, itemValues_eq_map]

@[simp] theorem toValue_array (items : List Tree) (sp : Span) :
    (Tree.array items sp).toValue = .array (items.map toValue) := by
  simp [toValue, itemValues_eq_map]

@[simp] theorem toValue_table (kind : TableKind) (E : List Entry) (sp : Option Span) :
    (Tree.table kind E sp).toValue = .table (E.map fun e => (e.1, e.2.2.toValue)) := by
  simp [toValue, entryValues_eq_map]

/-- Entries of trees whose values are all readable. -/
def EntriesReadable (E : List Entry) : Prop := ∀ e ∈ E, e.2.2.toValue.Readable

theorem entriesReadable_nil : EntriesReadable [] := by
  simp [EntriesReadable]

theorem EntriesReadable.append {E F : List Entry} (hE : EntriesReadable E) (hF : EntriesReadable F) :
    EntriesReadable (E ++ F) := by
  intro e he
  rcases List.mem_append.1 he with he | he
  · exact hE e he
  · exact hF e he

theorem entriesReadable_singleton {k : String} {ks : Span} {t : Tree} (ht : t.toValue.Readable) :
    EntriesReadable [(k, ks, t)] := by
  simpa [EntriesReadable] using ht

theorem EntriesReadable.filter {E : List Entry} (hE : EntriesReadable E) (p : Entry → Bool) :
    EntriesReadable (E.filter p) :=
  fun e he => hE e (List.mem_filter.1 he).1

theorem EntriesReadable.replaceEntry {E : List Entry} (hE : EntriesReadable E) (k : String) {t : Tree}
    (ht : t.toValue.Readable) : EntriesReadable (Toml.Reader.replaceEntry k t E) := by
  induction E with
  | nil => exact entriesReadable_nil
  | cons e rest ih =>
    obtain ⟨k', s, u⟩ := e
    have hrest : EntriesReadable rest := fun e he => hE e (List.mem_cons_of_mem _ he)
    simp only [Toml.Reader.replaceEntry]
    split_ifs
    · intro e he
      rcases List.mem_cons.1 he with rfl | he
      · exact ht
      · exact hrest e he
    · intro e he
      rcases List.mem_cons.1 he with rfl | he
      · exact hE _ List.mem_cons_self
      · exact ih hrest e he

theorem EntriesReadable.findEntry {E : List Entry} (hE : EntriesReadable E) {k : String} {t : Tree}
    (h : Toml.findEntry k E = some t) : t.toValue.Readable := by
  obtain ⟨e, he, rfl⟩ := Option.map_eq_some_iff.1 h
  exact hE e (List.mem_of_find?_eq_some he)

/-- A table of readable entries is readable. -/
theorem readable_table_of {kind : TableKind} {E : List Entry} (hE : EntriesReadable E) (sp : Option Span) :
    (Tree.table kind E sp).toValue.Readable := by
  simp only [toValue_table, Value.readable_table, List.mem_map]
  rintro _ ⟨e, he, rfl⟩
  exact hE e he

theorem entriesReadable_of_table {kind : TableKind} {E : List Entry} {sp : Option Span}
    (h : (Tree.table kind E sp).toValue.Readable) : EntriesReadable E := by
  simp only [toValue_table, Value.readable_table, List.mem_map] at h
  exact fun e he => h _ ⟨e, he, rfl⟩

theorem readable_tables {items : List Tree} : (Tree.tables items).toValue.Readable ↔ ∀ t ∈ items, t.toValue.Readable := by
  simp

end Tree

/-! ## Going down a document

`descend` only makes empty tables and puts back the tables it went through,
changed below; what it keeps depends on what its change at the end keeps. -/

theorem descend_readable {α : Type} {inline dotted : Bool} {made : TableKind}
    {f : TableKind → List Entry → Except String (List Entry × α)} {Q : α → Prop}
    (hf : ∀ kind E E' a, Tree.EntriesReadable E → f kind E = .ok (E', a) → Tree.EntriesReadable E' ∧ Q a) :
    ∀ (path : List (String × Span)) (seen : List String) (kind : TableKind) (E E' : List Entry) (a : α),
      Tree.EntriesReadable E → descend inline dotted made f seen kind path E = .ok (E', a) →
        Tree.EntriesReadable E' ∧ Q a
  | [], seen, kind, E, E', a, hE, h => by
    rw [descend] at h
    exact hf kind E E' a hE h
  | (k, ks) :: more, seen, kind, E, E', a, hE, h => by
    rw [descend] at h
    split at h
    · -- a missing table is made from nothing
      obtain ⟨⟨inner, b⟩, hd, h⟩ := bind_eq_ok.1 h
      cases h
      obtain ⟨hinner, hb⟩ := descend_readable hf more _ made [] inner a Tree.entriesReadable_nil hd
      exact ⟨hE.append (Tree.entriesReadable_singleton (Tree.readable_table_of hinner none)), hb⟩
    · rename_i tk inner span hk
      have hin := Tree.entriesReadable_of_table (hE.findEntry hk)
      split_ifs at h
      obtain ⟨⟨inner', b⟩, hd, h⟩ := bind_eq_ok.1 h
      cases h
      obtain ⟨hinner, hb⟩ := descend_readable hf more _ tk inner inner' a hin hd
      exact ⟨hE.replaceEntry k (Tree.readable_table_of hinner span), hb⟩
    · rename_i items hk
      have hitems := Tree.readable_tables.1 (hE.findEntry hk)
      split at h
      · rename_i tk inner span earlier hrev
        have hmem : ∀ t ∈ (Tree.table tk inner span :: earlier), t.toValue.Readable := by
          intro t ht
          rw [← hrev] at ht
          exact hitems t (List.mem_reverse.1 ht)
        obtain ⟨⟨inner', b⟩, hd, h⟩ := bind_eq_ok.1 h
        cases h
        obtain ⟨hinner, hb⟩ := descend_readable hf more _ tk inner inner' a
          (Tree.entriesReadable_of_table (hmem _ List.mem_cons_self)) hd
        refine ⟨hE.replaceEntry k (Tree.readable_tables.2 fun t ht => ?_), hb⟩
        rcases List.mem_cons.1 (List.mem_reverse.1 ht) with rfl | ht
        · exact Tree.readable_table_of hinner span
        · exact hmem t (List.mem_cons_of_mem _ ht)
      · cases h
    · cases h

/-! ## What the value reader gives -/

namespace Reader

theorem yields_refuse {α : Type} {P : α → Prop} (l : Option String) (e : List String) :
    Yields (refuse l e : Reader α) P :=
  (yields_true offset).bind fun _ _ => yields_failAt _ _ _ _ _

theorem Yields.map {α β : Type} {x : Reader α} {f : α → β} {Q : α → Prop} {P : β → Prop} (hx : Yields x Q)
    (hf : ∀ a, Q a → P (f a)) : Yields (f <$> x) P := by
  intro c b c' hr
  rw [map_apply] at hr
  cases hxc : x c with
  | error e => rw [hxc] at hr; cases hr
  | ok p =>
    rw [hxc] at hr
    cases hr
    exact hf p.1 (hx c p.1 p.2 hxc)

/-- An integer in base 16, 8 or 2 is no negative number, and one above the
largest 64-bit integer is refused. -/
theorem radixInteger_yields (base : Nat) (label : String) :
    Yields (radixInteger base label) fun i => int64Min ≤ i ∧ i ≤ int64Max := by
  unfold radixInteger
  refine (yields_true offset).bind fun _ _ => (yields_true _).bind fun p _ => ?_
  obtain ⟨text, _⟩ := p
  dsimp only
  split_ifs with h
  · exact yields_failAt _ _ _ _ _
  · refine yields_pure ⟨?_, not_lt.1 h⟩
    simp only [int64Min]
    omega

/-- The integer reader gives integers of 64 bits. -/
theorem integer_yields : Yields integer fun i => int64Min ≤ i ∧ i ≤ int64Max := by
  unfold integer
  refine (yields_true offset).bind fun start _ => (yields_true ahead).bind fun cs _ => ?_
  split
  · exact radixInteger_yields _ _
  · exact radixInteger_yields _ _
  · exact radixInteger_yields _ _
  · refine (yields_true decimalText).bind fun text _ => ?_
    dsimp only
    split_ifs with hhi hlo
    · exact yields_failAt _ _ _ _ _
    · exact yields_failAt _ _ _ _ _
    · exact yields_pure ⟨not_lt.1 hlo, not_lt.1 hhi⟩

/-- A number is a valid date-time, a float or an integer of 64 bits. -/
theorem number_yields : Yields number Value.Readable := by
  unfold number
  refine dateTime_yields.attempt.bind fun d hd => ?_
  cases d with
  | some d => exact yields_pure (hd d rfl)
  | none =>
    refine (yields_true (attempt float)).bind fun f _ => ?_
    cases f with
    | some f => exact yields_pure trivial
    | none => exact integer_yields.bind fun i hi => yields_pure hi

theorem word_yields (w : String) (v : Value) (final : Bool) : Yields (word w v final) (· = v) := by
  unfold word
  refine (yields_true _).bind fun b _ => ?_
  split_ifs
  · exact (yields_true _).bind fun _ _ => yields_pure rfl
  · exact yields_refuse _ _
  · exact (yields_true offset).bind fun _ _ => yields_failAt _ _ _ _ _

/-- A scalar value read with `r` and placed from `start`. -/
theorem scalar_yields {r : Reader Value} (hr : Yields r Value.Readable) (start : Nat) :
    Yields (do let v ← r; let stop ← offset; pure (Tree.scalar v ⟨start, stop⟩)) fun t => t.toValue.Readable :=
  hr.bind fun _ hv => (yields_true offset).bind fun _ _ => yields_pure hv

section Steps

variable {fuel : Nat}

/-- An array element with the blank lines around it. -/
theorem element_yields (hv : Yields (value fuel) fun t => t.toValue.Readable) :
    Yields (do blankLines; let v ← value fuel; blankLines; pure v) fun t => t.toValue.Readable :=
  (yields_true _).bind fun _ _ => hv.bind fun _ hv' => (yields_true _).bind fun _ _ => yields_pure hv'

theorem moreItems_yields (hv : Yields (value fuel) fun t => t.toValue.Readable)
    (hm : Yields (moreItems fuel) fun ts => ∀ t ∈ ts, t.toValue.Readable) :
    Yields (moreItems (fuel + 1)) fun ts => ∀ t ∈ ts, t.toValue.Readable := by
  rw [moreItems]
  refine Yields.bind (Yields.attempt (P := fun t => t.toValue.Readable) ?_) fun next hnext => ?_
  · refine (yields_true peek).bind fun _ _ => ?_
    dsimp only
    split
    all_goals exact (yields_true _).bind fun _ _ => element_yields hv
  · cases next with
    | none => exact yields_pure (by simp)
    | some v =>
      refine hm.bind fun rest hrest => yields_pure ?_
      intro t ht
      rcases List.mem_cons.1 ht with rfl | ht
      · exact hnext t rfl
      · exact hrest t ht

theorem array_yields (hv : Yields (value fuel) fun t => t.toValue.Readable)
    (hm : Yields (moreItems fuel) fun ts => ∀ t ∈ ts, t.toValue.Readable) :
    Yields (array (fuel + 1)) fun t => t.toValue.Readable := by
  rw [array]
  refine (yields_true offset).bind fun start _ => (yields_true bump).bind fun _ _ => ?_
  refine (element_yields hv).attempt.bind fun first hfirst => ?_
  -- the closing bracket after elements that are all readable
  have hclose : ∀ items : List Tree, (∀ t ∈ items, t.toValue.Readable) →
      Yields (do
        blankLines
        let c ← peek
        if c = some ']' then do
          bump
          let stop ← offset
          pure (Tree.array items ⟨start, stop⟩)
        else refuse (some "array") ["`]`"]) fun t => t.toValue.Readable := by
    intro items hitems
    refine (yields_true _).bind fun _ _ => (yields_true peek).bind fun _ _ => ?_
    split
    · exact (yields_true bump).bind fun _ _ => (yields_true offset).bind fun _ _ => yields_pure (by simpa using hitems)
    · exact yields_refuse _ _
  dsimp only
  cases first with
  | none => exact (yields_pure (P := fun items : List Tree => ∀ t ∈ items, t.toValue.Readable) (by simp)).bind hclose
  | some v =>
    refine hm.bind fun rest hrest => (yields_true peek).bind fun _ _ => ?_
    have hall : ∀ t ∈ v :: rest, t.toValue.Readable := by
      intro t ht
      rcases List.mem_cons.1 ht with rfl | ht
      · exact hfirst t rfl
      · exact hrest t ht
    split
    · exact (yields_true bump).bind fun _ _ => (yields_pure hall).bind hclose
    · exact (yields_pure hall).bind hclose

theorem inlinePair_yields (hv : Yields (value fuel) fun t => t.toValue.Readable) :
    Yields (inlinePair (fuel + 1)) fun p => p.2.toValue.Readable := by
  rw [inlinePair]
  refine (yields_true _).bind fun keys _ => Yields.commit ?_
  -- the value after the equals sign, with the blanks around it
  have hvalue : Yields (do blanks; let v ← value fuel; blanks; pure (keys, v)) fun p => p.2.toValue.Readable :=
    (yields_true blanks).bind fun _ _ => hv.bind fun _ hv' => (yields_true blanks).bind fun _ _ => yields_pure hv'
  refine (yields_true peek).bind fun _ _ => ?_
  dsimp only
  split
  all_goals exact (yields_true _).bind fun _ _ => hvalue

theorem morePairs_yields (hp : Yields (inlinePair fuel) fun p => p.2.toValue.Readable)
    (hm : Yields (morePairs fuel) fun ps => ∀ p ∈ ps, p.2.toValue.Readable) :
    Yields (morePairs (fuel + 1)) fun ps => ∀ p ∈ ps, p.2.toValue.Readable := by
  rw [morePairs]
  refine Yields.bind (Yields.attempt (P := fun p => p.2.toValue.Readable) ?_) fun next hnext => ?_
  · refine (yields_true peek).bind fun _ _ => ?_
    dsimp only
    split
    all_goals exact (yields_true _).bind fun _ _ => hp
  · cases next with
    | none => exact yields_pure (by simp)
    | some p =>
      refine hm.bind fun rest hrest => yields_pure ?_
      intro q hq
      rcases List.mem_cons.1 hq with rfl | hq
      · exact hnext q rfl
      · exact hrest q hq

end Steps

/-- Adding a pair of readable value to an inline table keeps it readable. -/
theorem addInlinePair_readable {E E' : List Entry} {pair : List (String × Span) × Tree}
    (hE : Tree.EntriesReadable E) (hp : pair.2.toValue.Readable) (h : addInlinePair E pair = .ok E') :
    Tree.EntriesReadable E' := by
  unfold addInlinePair at h
  split at h
  · cases h
    exact hE
  · dsimp only [Functor.map, Except.map] at h
    split at h
    · cases h
    · rename_i q hd
      obtain ⟨E'', a⟩ := q
      cases h
      refine (descend_readable (Q := fun _ => True) ?_ _ _ _ _ _ _ hE hd).1
      intro kind F F' a hF hf
      split_ifs at hf
      cases hf
      exact ⟨hF.append (Tree.entriesReadable_singleton hp), trivial⟩

theorem foldlM_addInlinePair_readable :
    ∀ (pairs : List (List (String × Span) × Tree)) (E E' : List Entry), Tree.EntriesReadable E →
      (∀ p ∈ pairs, p.2.toValue.Readable) → pairs.foldlM addInlinePair E = .ok E' → Tree.EntriesReadable E'
  | [], E, E', hE, _, h => by
    cases h
    exact hE
  | p :: rest, E, E', hE, hps, h => by
    rw [List.foldlM_cons] at h
    obtain ⟨E₁, h₁, h₂⟩ := bind_eq_ok.1 h
    exact foldlM_addInlinePair_readable rest E₁ E'
      (addInlinePair_readable hE (hps p List.mem_cons_self) h₁) (fun q hq => hps q (List.mem_cons_of_mem _ hq)) h₂

section Steps

variable {fuel : Nat}

theorem inlineTable_yields (hp : Yields (inlinePair fuel) fun p => p.2.toValue.Readable)
    (hm : Yields (morePairs fuel) fun ps => ∀ p ∈ ps, p.2.toValue.Readable) :
    Yields (inlineTable (fuel + 1)) fun t => t.toValue.Readable := by
  rw [inlineTable]
  refine (yields_true offset).bind fun start _ => (yields_true bump).bind fun _ _ => ?_
  refine (yields_true offset).bind fun bodyStart _ => hp.attempt.bind fun first hfirst => ?_
  dsimp only
  -- the pairs read are readable, whether the table is empty or not
  cases first
  case' none =>
    refine (yields_pure (P := fun ps : List (List (String × Span) × Tree) => ∀ p ∈ ps, p.2.toValue.Readable)
      (by simp)).bind fun pairs hpairs => ?_
  case' some p =>
    refine hm.bind fun rest hrest => ?_
    have hall : ∀ q ∈ p :: rest, q.2.toValue.Readable := by
      intro q hq
      rcases List.mem_cons.1 hq with rfl | hq
      · exact hfirst q rfl
      · exact hrest q hq
    refine (yields_pure (P := fun ps : List (List (String × Span) × Tree) => ∀ p ∈ ps, p.2.toValue.Readable)
      hall).bind fun pairs hpairs => ?_
  -- the table is made from them, and closed
  all_goals
    refine (yields_true _).bind fun _ _ => ?_
    split
    · exact yields_failAt _ _ _ _ _
    · rename_i entries hfold
      have hentries := foldlM_addInlinePair_readable pairs [] entries Tree.entriesReadable_nil hpairs hfold
      refine (yields_true peek).bind fun _ _ => ?_
      split
      · exact (yields_true bump).bind fun _ _ => (yields_true offset).bind fun _ _ =>
          yields_pure (Tree.readable_table_of hentries _)
      · exact yields_refuse _ _

theorem value_yields_succ (ha : Yields (array fuel) fun t => t.toValue.Readable)
    (ht : Yields (inlineTable fuel) fun t => t.toValue.Readable) :
    Yields (value (fuel + 1)) fun t => t.toValue.Readable := by
  rw [value]
  refine (yields_true offset).bind fun start _ => ?_
  dsimp only
  refine (yields_true peek).bind fun c _ => ?_
  split
  · exact yields_decline _ _
  · split_ifs
    · exact scalar_yields ((yields_true string).map (f := Value.string) fun _ _ => trivial) start
    · exact ha
    · exact ht
    · exact scalar_yields number_yields start
    · exact (scalar_yields (integer_yields.map (f := Value.integer) fun _ hi => hi) start).within _ _
    · exact (scalar_yields ((yields_true float).map (f := Value.float) fun _ _ => trivial) start).within _ _
    all_goals first
      | exact (scalar_yields ((word_yields _ _ _).mono fun _ h => by subst h; trivial) start).within _ _
      | exact yields_decline _ _

end Steps

/-- What the value reader and the readers of arrays and inline tables give at
one fuel: readable values. -/
structure ValueYields (fuel : Nat) : Prop where
  value : Yields (Reader.value fuel) fun t => t.toValue.Readable
  moreItems : Yields (Reader.moreItems fuel) fun ts => ∀ t ∈ ts, t.toValue.Readable
  array : Yields (Reader.array fuel) fun t => t.toValue.Readable
  inlinePair : Yields (Reader.inlinePair fuel) fun p => p.2.toValue.Readable
  morePairs : Yields (Reader.morePairs fuel) fun ps => ∀ p ∈ ps, p.2.toValue.Readable
  inlineTable : Yields (Reader.inlineTable fuel) fun t => t.toValue.Readable

/-- The readers of values give readable values at every fuel: each step reads
its parts at the fuel below. -/
theorem valueYields : ∀ fuel, ValueYields fuel
  | 0 => ⟨by rw [value]; exact yields_refuse _ _, by rw [moreItems]; exact yields_pure (by simp),
      by rw [array]; exact yields_refuse _ _, by rw [inlinePair]; exact yields_refuse _ _,
      by rw [morePairs]; exact yields_pure (by simp), by rw [inlineTable]; exact yields_refuse _ _⟩
  | fuel + 1 =>
    have ih := valueYields fuel
    ⟨value_yields_succ ih.array ih.inlineTable, moreItems_yields ih.value ih.moreItems,
      array_yields ih.value ih.moreItems, inlinePair_yields ih.value, morePairs_yields ih.inlinePair ih.morePairs,
      inlineTable_yields ih.inlinePair ih.morePairs⟩

/-- The value reader gives readable values. -/
theorem value_yields (fuel : Nat) : Yields (value fuel) fun t => t.toValue.Readable :=
  (valueYields fuel).value

end Reader

/-! ## What the document reader builds -/

/-- A builder whose finished tables and table being filled hold readable
values. -/
structure Builder.Readable (b : Builder) : Prop where
  root : Tree.EntriesReadable b.root
  current : Tree.EntriesReadable b.current

namespace Builder

variable {b b' : Builder}

/-- Finishing a table puts readable values in place. -/
theorem Readable.finish (hb : b.Readable) (h : b.finish = .ok b') : b'.Readable := by
  unfold Builder.finish at h
  split at h
  · cases h
    exact ⟨hb.current, Tree.entriesReadable_nil⟩
  · obtain ⟨⟨root, u⟩, hd, h⟩ := bind_eq_ok.1 h
    cases h
    have ht := @Tree.readable_table_of .header _ hb.current b.span
    refine ⟨(descend_readable (Q := fun _ => True) ?_ _ _ _ _ _ _ hb.root hd).1, Tree.entriesReadable_nil⟩
    intro kind E E' a hE hf
    split_ifs at hf
    · split at hf
      · cases hf
        exact ⟨hE.append (Tree.entriesReadable_singleton (Tree.readable_tables.2 (by simpa using ht))), trivial⟩
      · rename_i items hk
        cases hf
        refine ⟨hE.replaceEntry _ (Tree.readable_tables.2 fun t htm => ?_), trivial⟩
        rcases List.mem_append.1 htm with htm | htm
        · exact Tree.readable_tables.1 (hE.findEntry hk) t htm
        · rw [List.mem_singleton.1 htm]
          exact ht
      · cases hf
    · split at hf
      · cases hf
        exact ⟨hE.append (Tree.entriesReadable_singleton ht), trivial⟩
      · cases hf

theorem Readable.openTable (hb : b.Readable) {keys : List (String × Span)} {span : Span}
    (h : b.openTable keys span = .ok b') : b'.Readable := by
  unfold Builder.openTable at h
  obtain ⟨b₀, hfin, h⟩ := bind_eq_ok.1 h
  have hb₀ := hb.finish hfin
  split at h
  · cases h
    exact hb₀
  · obtain ⟨⟨root, taken⟩, hd, h⟩ := bind_eq_ok.1 h
    cases h
    -- a table made only as a parent is taken up with its readable entries
    obtain ⟨hroot, htaken⟩ := descend_readable (Q := Tree.EntriesReadable) (fun kind E E' a hE hf => by
      split at hf
      · cases hf
        exact ⟨hE, Tree.entriesReadable_nil⟩
      · rename_i inner sp hk
        cases hf
        exact ⟨hE.filter _, Tree.entriesReadable_of_table (hE.findEntry hk)⟩
      · cases hf) _ _ _ _ _ _ hb₀.root hd
    exact ⟨hroot, htaken⟩

theorem Readable.openArrayTable (hb : b.Readable) {keys : List (String × Span)} {span : Span}
    (h : b.openArrayTable keys span = .ok b') : b'.Readable := by
  unfold Builder.openArrayTable at h
  obtain ⟨b₀, hfin, h⟩ := bind_eq_ok.1 h
  have hb₀ := hb.finish hfin
  split at h
  · cases h
    exact hb₀
  · obtain ⟨⟨root, u⟩, hd, h⟩ := bind_eq_ok.1 h
    cases h
    refine ⟨(descend_readable (Q := fun _ => True) (fun kind E E' a hE hf => ?_) _ _ _ _ _ _ hb₀.root hd).1,
      Tree.entriesReadable_nil⟩
    split at hf
    · cases hf
      exact ⟨hE.append (Tree.entriesReadable_singleton (by simp)), trivial⟩
    · cases hf
      exact ⟨hE, trivial⟩
    · cases hf

theorem Readable.addPair (hb : b.Readable) {keys : List (String × Span)} {t : Tree} (ht : t.toValue.Readable)
    (h : b.addPair keys t = .ok b') : b'.Readable := by
  unfold Builder.addPair at h
  split at h
  · cases h
    exact hb
  · obtain ⟨⟨current, u⟩, hd, h⟩ := bind_eq_ok.1 h
    cases h
    refine ⟨hb.root, (descend_readable (Q := fun _ => True) (fun kind E E' a hE hf => ?_) _ _ _ _ _ _
      hb.current hd).1⟩
    split_ifs at hf
    cases hf
    exact ⟨hE.append (Tree.entriesReadable_singleton ht), trivial⟩

end Builder

namespace Reader

theorem header_yields {b : Builder} (hb : b.Readable) : Yields (header b) Builder.Readable := by
  unfold header
  refine Yields.within ?_ _ _
  refine (yields_true offset).bind fun start _ => (yields_true ahead).bind fun cs _ => ?_
  dsimp only
  split
  · exact yields_refuse _ _
  · refine (yields_true _).bind fun _ _ => (yields_true _).bind fun keys _ => (yields_true _).bind fun _ _ => ?_
    split
    all_goals refine (yields_true _).bind fun _ _ => (yields_true offset).bind fun _ _ => ?_
    all_goals refine (yields_true lineTrailing).bind fun _ _ => ?_
    -- the header's table is opened, or the line refused where it started
    all_goals split
    all_goals first
      | exact yields_failAt _ _ _ _ _
      | rename_i b' hb'
        exact yields_pure (hb.openArrayTable hb')
  · refine (yields_true bump).bind fun _ _ => (yields_true _).bind fun keys _ => (yields_true peek).bind fun _ _ => ?_
    split
    all_goals refine (yields_true _).bind fun _ _ => (yields_true offset).bind fun _ _ => ?_
    all_goals refine (yields_true lineTrailing).bind fun _ _ => ?_
    all_goals split
    all_goals first
      | exact yields_failAt _ _ _ _ _
      | rename_i b' hb'
        exact yields_pure (hb.openTable hb')

theorem pairLine_yields (fuel : Nat) {b : Builder} (hb : b.Readable) : Yields (pairLine fuel b) Builder.Readable := by
  unfold pairLine
  refine (yields_true offset).bind fun start _ => (yields_true _).bind fun keys _ => ?_
  refine (yields_true peek).bind fun _ _ => ?_
  dsimp only
  split
  all_goals refine (yields_true _).bind fun _ _ => (yields_true blanks).bind fun _ _ => ?_
  all_goals refine (value_yields fuel).commit.bind fun v hv => (yields_true lineTrailing).bind fun _ _ => ?_
  -- the pair is added, or the line refused where it started
  all_goals split
  all_goals first
    | exact yields_failAt _ _ _ _ _
    | rename_i b' hb'
      exact yields_pure (hb.addPair hv hb')

/-- Reading lines keeps a builder readable: each line is blank, a comment, a
header or a key-value pair. -/
theorem lines_yields : ∀ (fuel : Nat) {b : Builder}, b.Readable → Yields (lines fuel b) Builder.Readable
  | 0, b, hb => by
    rw [lines]
    exact yields_pure hb
  | fuel + 1, b, hb => by
    rw [lines]
    refine (yields_true ahead).bind fun cs _ => ?_
    split
    · exact yields_pure hb
    · refine (yields_true _).bind fun _ _ => (yields_true lineEnd?).bind fun _ _ => ?_
      dsimp only
      split
      all_goals first
        | exact (yields_true blanks).bind fun _ _ => lines_yields fuel hb
        | exact (yields_true _).bind fun _ _ => (yields_true blanks).bind fun _ _ => lines_yields fuel hb
    · exact (header_yields hb).bind fun b' hb' => (yields_true blanks).bind fun _ _ => lines_yields fuel hb'
    · exact (yields_true bump).bind fun _ _ => (yields_true blanks).bind fun _ _ => lines_yields fuel hb
    · exact (yields_true _).bind fun _ _ => (yields_true blanks).bind fun _ _ => lines_yields fuel hb
    · exact yields_refuse _ _
    · exact (pairLine_yields fuel hb).bind fun b' hb' => (yields_true blanks).bind fun _ _ => lines_yields fuel hb'

end Reader

/-- Every value of a parsed document is readable: its integers fit 64 bits and
its date-times are valid. -/
theorem Tree.parse_readable {text : String} {root : Tree} (h : Tree.parse text = .ok root) :
    root.toValue.Readable := by
  unfold Tree.parse at h
  dsimp only at h
  split at h
  · cases h
  · rename_i b c hrun
    have hb : b.Readable := by
      refine (show Yields _ Builder.Readable from ?_) _ b c hrun
      have hlines := Reader.lines_yields (text.toList.length + 2)
        (b := Builder.empty) ⟨Tree.entriesReadable_nil, Tree.entriesReadable_nil⟩
      refine (yields_true Reader.peek).bind fun _ _ => ?_
      split
      · exact (yields_true _).bind fun _ _ => (yields_true _).bind fun _ _ => hlines
      · exact (yields_true _).bind fun _ _ => hlines
    split at h
    · rename_i b₀ hfin
      cases h
      exact Tree.readable_table_of (hb.finish hfin).root none
    · cases h

/-! ## The map of a document

Sorting a table inserts its entries one by one into a list kept in increasing
order of keys; an entry whose key is there already replaces it. So the keys of
every sorted table increase, and each appears once. -/

mutual

/-- Tables whose keys appear once each, at any depth. -/
def Value.Distinct : Value → Prop
  | .array items => Value.ItemsDistinct items
  | .table entries => (entries.map Prod.fst).Nodup ∧ Value.EntriesDistinct entries
  | _ => True

/-- Array elements whose tables have distinct keys. -/
def Value.ItemsDistinct : List Value → Prop
  | [] => True
  | v :: rest => v.Distinct ∧ Value.ItemsDistinct rest

/-- Table entries whose values have tables of distinct keys. -/
def Value.EntriesDistinct : List (String × Value) → Prop
  | [] => True
  | (_, v) :: rest => v.Distinct ∧ Value.EntriesDistinct rest

end

namespace Value

theorem itemsDistinct_iff {items : List Value} : ItemsDistinct items ↔ ∀ v ∈ items, v.Distinct := by
  induction items with
  | nil => simp [ItemsDistinct]
  | cons v rest ih => simp [ItemsDistinct, ih]

theorem entriesDistinct_iff {es : List (String × Value)} : EntriesDistinct es ↔ ∀ kv ∈ es, kv.2.Distinct := by
  induction es with
  | nil => simp [EntriesDistinct]
  | cons e rest ih =>
    obtain ⟨k, v⟩ := e
    simp [EntriesDistinct, ih]

@[simp] theorem distinct_array (items : List Value) : (Value.array items).Distinct ↔ ∀ v ∈ items, v.Distinct := by
  simp only [Distinct, itemsDistinct_iff]

@[simp] theorem distinct_table (es : List (String × Value)) :
    (Value.table es).Distinct ↔ (es.map Prod.fst).Nodup ∧ ∀ kv ∈ es, kv.2.Distinct := by
  simp only [Distinct, entriesDistinct_iff]

end Value

/-- An entry of a sorted insertion is the one inserted or was there before. -/
theorem mem_insertSorted {k : String} {v : Value} {es : List (String × Value)} {kv : String × Value}
    (h : kv ∈ insertSorted k v es) : kv = (k, v) ∨ kv ∈ es := by
  induction es with
  | nil => simpa [insertSorted] using h
  | cons e rest ih =>
    obtain ⟨k', w⟩ := e
    simp only [insertSorted] at h
    split_ifs at h
    · simpa using h
    · rcases List.mem_cons.1 h with h | h
      · exact Or.inl h
      · exact Or.inr (List.mem_cons_of_mem _ h)
    · rcases List.mem_cons.1 h with h | h
      · exact Or.inr (h ▸ List.mem_cons_self)
      · rcases ih h with h | h
        · exact Or.inl h
        · exact Or.inr (List.mem_cons_of_mem _ h)

/-- Inserting into entries with increasing keys keeps them increasing. -/
theorem pairwise_insertSorted (k : String) (v : Value) {es : List (String × Value)}
    (h : (es.map Prod.fst).Pairwise (· < ·)) : ((insertSorted k v es).map Prod.fst).Pairwise (· < ·) := by
  induction es with
  | nil => simp [insertSorted]
  | cons e rest ih =>
    obtain ⟨k', w⟩ := e
    simp only [List.map_cons, List.pairwise_cons, List.mem_map] at h
    obtain ⟨hk', hrest⟩ := h
    simp only [insertSorted]
    split_ifs with hlt heq
    · -- before the first key, so before all of them
      simp only [List.map_cons, List.pairwise_cons, List.mem_cons, List.mem_map]
      refine ⟨?_, ?_, hrest⟩
      · rintro x (rfl | ⟨kv, hkv, rfl⟩)
        · exact hlt
        · exact lt_trans hlt (hk' _ ⟨kv, hkv, rfl⟩)
      · rintro x ⟨kv, hkv, rfl⟩
        exact hk' _ ⟨kv, hkv, rfl⟩
    · -- in place of the first key
      subst heq
      simp only [List.map_cons, List.pairwise_cons, List.mem_map]
      exact ⟨hk', hrest⟩
    · -- after the first key
      have hgt : k' < k := lt_of_le_of_ne (not_lt.1 hlt) (Ne.symm heq)
      simp only [List.map_cons, List.pairwise_cons, List.mem_map]
      refine ⟨?_, ih hrest⟩
      rintro x ⟨kv, hkv, rfl⟩
      rcases mem_insertSorted hkv with rfl | hkv
      · exact hgt
      · exact hk' _ ⟨kv, hkv, rfl⟩

theorem pairwise_sortEntries (es : List (String × Value)) :
    ((Value.sortEntries es).map Prod.fst).Pairwise (· < ·) := by
  induction es with
  | nil => simp [Value.sortEntries]
  | cons e rest ih =>
    obtain ⟨k, v⟩ := e
    exact pairwise_insertSorted k _ ih

mutual

/-- The map of a readable value is readable. -/
theorem Value.readable_sortKeys : ∀ v : Value, v.Readable → v.sortKeys.Readable
  | .array items, h => by
    simp only [Value.sortKeys, Value.readable_array] at h ⊢
    exact Value.readable_sortItems items h
  | .table es, h => by
    simp only [Value.sortKeys, Value.readable_table] at h ⊢
    exact Value.readable_sortEntries es h
  | .string _, h | .integer _, h | .float _, h | .boolean _, h | .datetime _, h => h

theorem Value.readable_sortItems : ∀ items : List Value, (∀ v ∈ items, v.Readable) →
    ∀ v ∈ Value.sortItems items, v.Readable
  | [], _ => by simp [Value.sortItems]
  | v :: rest, h => by
    simp only [Value.sortItems, List.mem_cons, forall_eq_or_imp] at h ⊢
    exact ⟨v.readable_sortKeys h.1, Value.readable_sortItems rest h.2⟩

theorem Value.readable_sortEntries : ∀ es : List (String × Value), (∀ kv ∈ es, kv.2.Readable) →
    ∀ kv ∈ Value.sortEntries es, kv.2.Readable
  | [], _ => by simp [Value.sortEntries]
  | (k, v) :: rest, h => by
    intro kv hkv
    simp only [Value.sortEntries] at hkv
    rcases mem_insertSorted hkv with rfl | hkv
    · exact v.readable_sortKeys (h _ List.mem_cons_self)
    · exact Value.readable_sortEntries rest (fun kv' h' => h kv' (List.mem_cons_of_mem _ h')) kv hkv

end

mutual

/-- The map of a value has tables of distinct keys. -/
theorem Value.distinct_sortKeys : ∀ v : Value, v.sortKeys.Distinct
  | .array items => by
    simp only [Value.sortKeys, Value.distinct_array]
    exact Value.distinct_sortItems items
  | .table es => by
    simp only [Value.sortKeys, Value.distinct_table]
    refine ⟨?_, Value.distinct_sortEntries es⟩
    exact (pairwise_sortEntries es).imp ne_of_lt
  | .string _ | .integer _ | .float _ | .boolean _ | .datetime _ => trivial

theorem Value.distinct_sortItems : ∀ items : List Value, ∀ v ∈ Value.sortItems items, v.Distinct
  | [] => by simp [Value.sortItems]
  | v :: rest => by
    simp only [Value.sortItems, List.mem_cons, forall_eq_or_imp]
    exact ⟨v.distinct_sortKeys, Value.distinct_sortItems rest⟩

theorem Value.distinct_sortEntries : ∀ es : List (String × Value), ∀ kv ∈ Value.sortEntries es, kv.2.Distinct
  | [] => by simp [Value.sortEntries]
  | (k, v) :: rest => by
    intro kv hkv
    simp only [Value.sortEntries] at hkv
    rcases mem_insertSorted hkv with rfl | hkv
    · exact v.distinct_sortKeys
    · exact Value.distinct_sortEntries rest kv hkv

end

end LotBridge.Toml
