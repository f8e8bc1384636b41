import LotBridge.Proofs.TomlLayout
import LotBridge.Proofs.TomlNodes

/-!
# Decoding the trees of a document

A configuration document is decoded through the located nodes of its trees
(`Tree.toNode`). A node carries places only so that a refusal can point into
the text, so whether a decoder accepts the node of a tree, and what it makes
of it, depends on the tree's value alone, floats forgotten: no decoder of a
configuration reads a float.

Each decoder is matched with a reader of values (`Reads`): a string for
`Decoder.string`, an unsigned integer of so many bits for `Decoder.uint`, a
boolean, the name of a variant for `Decoder.unitEnum`, written as a string or
as a table whose first key names it and holds an empty array or table. A record
(`decodeStruct`) is read by `readRecord`: a table member by member, a known
member updating the record and an unknown one skipped; an array element by
element, in the order of the fields; a date-time, which a configuration
document gives as a table of one unknown member, leaves the record as it is.

When the readers of a record's fields commute, as readers that store into
different fields do, a table whose keys appear once reads key by key as well
(`readKeys`): each field in turn takes its key's value when the table has
one, and keeps its value otherwise.

## Main definitions

* `Value.text?`, `Value.count?`, `Value.flag?`, `Value.choice?`: what the
  decoders of settings take from a value.
* `readMember`, `readElements`, `readRecord`: a record read from a value.
* `Reads`, `FieldReads`: a decoder, or a record member, as a reader of values.
* `fieldReader`, `readFields`, `readKeys`: a record read key by key.

## Main statements

* `reads_string`, `reads_option`, `reads_uint`, `reads_bool`,
  `reads_unitEnum`: the decoders of settings.
* `reads_decodeStruct`: the decoder of a record whose fields read values.
* `readRecord_eq_readKeys`: member by member is key by key.
-/

namespace LotBridge.Toml

open LotBridge.Json

/-! ## Readers of values -/

namespace Value

/-- The text of a string. -/
def text? : Value → Option String
  | .string s => some s
  | _ => none

/-- A non-negative integer below `2 ^ bits`. -/
def count? (bits : Nat) : Value → Option Nat
  | .integer i => if 0 ≤ i ∧ i.toNat < Nat.pow 2 bits then some i.toNat else none
  | _ => none

/-- A boolean. -/
def flag? : Value → Option Bool
  | .boolean b => some b
  | _ => none

/-- Whether a value is an empty array or an empty table, the payload of a
variant written as a table. -/
def isEmptyPayload : Value → Bool
  | .array [] | .table [] => true
  | _ => false

/-- The variant a value names: a string, its name, or a table whose first key
names it and holds an empty payload. -/
def choice? {α : Type} (variants : List (String × α)) : Value → Option α
  | .string s => Decoder.variant? variants s
  | .table ((name, w) :: _) => if w.isEmptyPayload then Decoder.variant? variants name else none
  | _ => none

end Value

variable {σ : Type}

/-- A member of a table read into a record: a known member updates it as its
field says, an unknown one leaves it. -/
def readMember (rs : List (String × (Value → σ → Option σ))) (s : σ) (kv : String × Value) : Option σ :=
  match rs.find? (·.1 == kv.1) with
  | some r => r.2 kv.2 s
  | none => some s

/-- The fields of a record taken in order from the elements of an array; the
fields past the last element keep their values, the elements past the last
field are left. -/
def readElements : List (String × (Value → σ → Option σ)) → σ → List Value → Option σ
  | [], s, _ => some s
  | _ :: _, s, [] => some s
  | r :: rs, s, v :: vs => (r.2 v s).bind fun s' => readElements rs s' vs

/-- A record read from a value: a table member by member, an array element by
element; a date-time keeps the record as it is. -/
def readRecord (rs : List (String × (Value → σ → Option σ))) (init : σ) : Value → Option σ
  | .table es => es.foldlM (readMember rs) init
  | .array items => readElements rs init items
  | .datetime _ => some init
  | _ => none

/-! ## Trees the reader makes -/

mutual

/-- A tree whose scalars hold leaves, at any depth, as every tree the reader
makes: a table or an array is never a scalar. -/
def Tree.Leafy : Tree → Prop
  | .scalar v _ => v.isLeaf = true
  | .array items _ => Tree.LeafyItems items
  | .table _ E _ => Tree.LeafyEntries E
  | .tables items => Tree.LeafyItems items

/-- Array elements that are leafy trees. -/
def Tree.LeafyItems : List Tree → Prop
  | [] => True
  | t :: rest => t.Leafy ∧ Tree.LeafyItems rest

/-- Table entries holding leafy trees. -/
def Tree.LeafyEntries : List Entry → Prop
  | [] => True
  | (_, _, t) :: rest => t.Leafy ∧ Tree.LeafyEntries rest

end

theorem Tree.leafyItems_iff {items : List Tree} : Tree.LeafyItems items ↔ ∀ t ∈ items, t.Leafy := by
  induction items with
  | nil => simp [Tree.LeafyItems]
  | cons t rest ih => simp [Tree.LeafyItems, ih]

mutual

theorem Tree.Regular.leafy : ∀ {t : Tree}, t.Regular → t.Leafy
  | .scalar _ _, h => h
  | .array _ _, h => Tree.RegularItems.leafy h
  | .table _ _ _, h => Tree.RegularEntries.leafy h
  | .tables _, h => h.elim

theorem Tree.RegularItems.leafy : ∀ {items : List Tree}, Tree.RegularItems items → Tree.LeafyItems items
  | [], _ => trivial
  | _ :: _, h => ⟨Tree.Regular.leafy h.1, Tree.RegularItems.leafy h.2⟩

theorem Tree.RegularEntries.leafy : ∀ {E : List Entry}, Tree.RegularEntries E → Tree.LeafyEntries E
  | [], _ => trivial
  | (_, _, _) :: _, h => ⟨Tree.Regular.leafy h.1, Tree.RegularEntries.leafy h.2⟩

end

mutual

theorem Tree.Laid.leafy : ∀ {t : Tree}, t.Laid → t.Leafy
  | .scalar _ _, h => h
  | .array _ _, h => Tree.RegularItems.leafy h.1
  | .table _ _ _, h => Tree.LaidEntries.leafy h.2
  | .tables _, h => Tree.LaidTables.leafy h

theorem Tree.LaidTables.leafy : ∀ {items : List Tree}, Tree.LaidTables items → Tree.LeafyItems items
  | [], _ => trivial
  | .table _ _ _ :: _, h => ⟨Tree.LaidEntries.leafy h.1, Tree.LaidTables.leafy h.2⟩
  | .scalar _ _ :: _, h => h.elim
  | .array _ _ :: _, h => h.elim
  | .tables _ :: _, h => h.elim

theorem Tree.LaidEntries.leafy : ∀ {E : List Entry}, Tree.LaidEntries E → Tree.LeafyEntries E
  | [], _ => trivial
  | (_, _, _) :: _, h => ⟨Tree.Laid.leafy h.1, Tree.LaidEntries.leafy h.2⟩

end

/-! ## Keys forgotten floats keep -/

theorem Value.keys_blurEntries (es : List (String × Value)) : (Value.blurEntries es).map Prod.fst = es.map Prod.fst := by
  simp [Value.blurEntries_eq_map]

mutual

/-- Forgetting floats keeps the keys of every table, so it keeps them
distinct. -/
theorem Value.distinct_blur : ∀ {v : Value}, v.blur.Distinct ↔ v.Distinct
  | .array items => Value.itemsDistinct_blur
  | .table es => by
    show ((Value.blurEntries es).map Prod.fst).Nodup ∧ Value.EntriesDistinct (Value.blurEntries es) ↔ _
    rw [Value.keys_blurEntries, Value.entriesDistinct_blur]
    rfl
  | .string _ | .integer _ | .float _ | .boolean _ | .datetime _ => Iff.rfl

theorem Value.itemsDistinct_blur : ∀ {items : List Value},
    Value.ItemsDistinct (Value.blurItems items) ↔ Value.ItemsDistinct items
  | [] => Iff.rfl
  | _ :: _ => and_congr Value.distinct_blur Value.itemsDistinct_blur

theorem Value.entriesDistinct_blur : ∀ {es : List (String × Value)},
    Value.EntriesDistinct (Value.blurEntries es) ↔ Value.EntriesDistinct es
  | [] => Iff.rfl
  | (_, _) :: _ => and_congr Value.distinct_blur Value.entriesDistinct_blur

end

/-! ## Decoders as readers of values -/

/-- A decoder reads the node of every tree as `V` reads the tree's value,
floats forgotten. -/
def Reads {α : Type} (d : Decoder α) (V : Value → Option α) : Prop :=
  ∀ (t : Tree) (ks : Span), t.Leafy → t.toValue.Readable → t.toValue.Distinct →
    (d .config (t.toNode ks)).toOption = V t.toValue.blur

/-- A record member reads the node of every tree as `r` reads the tree's
value, floats forgotten. -/
def FieldReads (fld : Json.Field σ) (r : Value → σ → Option σ) : Prop :=
  ∀ (t : Tree) (ks : Span) (s : σ), t.Leafy → t.toValue.Readable → t.toValue.Distinct →
    (fld.absorb .config (t.toNode ks) s).toOption = r t.toValue.blur s

@[simp] theorem toOption_ok {ε α : Type} (a : α) : (Except.ok a : Except ε α).toOption = some a := rfl

@[simp] theorem toOption_error {ε α : Type} (e : ε) : (Except.error e : Except ε α).toOption = none := rfl

/-- A choice between two refusals refuses, whatever decides it. -/
theorem toOption_ite_error {α : Type} (c : Prop) (dec : Decidable c) (x y : DecodeError) :
    (@ite _ c dec (.error x) (.error y) : Decoded α).toOption = none := by
  cases dec <;> rfl

@[simp] theorem toOption_typeError {α : Type} (src : Source) (n : Node) (expected : String) :
    (typeError src n expected : Decoded α).toOption = none := by
  cases h : (typeError src n expected : Decoded α) with
  | error => rfl
  | ok a => exact absurd h (typeError_ne_ok n expected a)

@[simp] theorem toOption_placeAt {α : Type} (site : Site) (d : Decoded α) :
    (placeAt site d).toOption = d.toOption := by
  unfold placeAt
  split <;> rfl

theorem Reads.field {α : Type} {d : Decoder α} {V : Value → Option α} (h : Reads d V) (name : String)
    (set : α → σ → σ) : FieldReads (Json.Field.of name d set) fun v s => (V v).map (set · s) := by
  intro t ks s hl hr hd
  show _ = Option.map (fun x => set x s) (V t.toValue.blur)
  rw [← h t ks hl hr hd]
  simp only [Json.Field.of]
  cases d .config (t.toNode ks) <;> rfl

/-- A decoder reads as every reader that agrees with its reader on values
whose tables hold each key once. -/
theorem Reads.congr {α : Type} {d : Decoder α} {V V' : Value → Option α} (h : Reads d V)
    (hV : ∀ v, v.Distinct → V v = V' v) : Reads d V' := by
  intro t ks hl hr hd
  rw [h t ks hl hr hd, hV _ (Value.distinct_blur.2 hd)]

theorem reads_string : Reads Decoder.string Value.text? := by
  intro t ks _ _ _
  cases t with
  | scalar v sp =>
    cases v with
    | integer i =>
      simp only [Tree.toNode, scalarNode]
      split_ifs <;> simp [Decoder.string, Tree.toValue, Value.blur, Value.text?]
    | _ => simp [Tree.toNode, scalarNode, Decoder.string, Tree.toValue, Value.blur, Value.text?]
  | _ => simp [Tree.toNode, Decoder.string, Value.text?]

@[simp] theorem toOption_valueError {α : Type} (src : Source) (n : Node) (u : Unexpected) (expected : String) :
    (valueError src n u expected : Decoded α).toOption = none := rfl

theorem reads_option {α : Type} {d : Decoder α} {V : Value → Option α} (h : Reads d V) :
    Reads (Decoder.option d) fun v => (V v).map some := by
  intro t ks hl hr hd
  have hnull := t.toNode_isNull ks
  show _ = Option.map some (V t.toValue.blur)
  rw [← h t ks hl hr hd]
  unfold Decoder.option
  split
  · -- no tree has a `null` node
    rename_i a b heq
    rw [heq] at hnull
    cases hnull
  · cases d .config (t.toNode ks) <;> rfl

theorem reads_bool : Reads Decoder.bool Value.flag? := by
  intro t ks _ _ _
  cases t with
  | scalar v sp =>
    cases v with
    | integer i =>
      simp only [Tree.toNode, scalarNode]
      split_ifs <;> simp [Decoder.bool, Tree.toValue, Value.blur, Value.flag?]
    | _ => simp [Tree.toNode, scalarNode, Decoder.bool, Tree.toValue, Value.blur, Value.flag?]
  | _ => simp [Tree.toNode, Decoder.bool, Value.flag?]

/-- An unsigned integer of `bits` bits is read from a non-negative integer
below `2 ^ bits`; the integers of a document fit 64 bits. -/
theorem reads_uint (bits : Nat) (name : String) : Reads (Decoder.uint bits name) (Value.count? bits) := by
  intro t ks _ hr _
  cases t with
  | scalar v sp =>
    cases v with
    | integer i =>
      simp only [Tree.toValue, Value.Readable, int64Min, int64Max] at hr
      simp only [Tree.toNode, scalarNode]
      split_ifs with hneg
      · simp [Decoder.uint, Tree.toValue, Value.blur, Value.count?, not_le.2 hneg]
      · have hnat : i.toNat.toUInt64.toNat = i.toNat := toNat_toUInt64 (by omega)
        simp only [Decoder.uint, hnat, Tree.toValue, Value.blur, Value.count?, not_lt.1 hneg, true_and]
        split_ifs <;> rfl
    | _ => simp [Tree.toNode, scalarNode, Decoder.uint, Tree.toValue, Value.blur, Value.count?]
  | _ => simp [Tree.toNode, Decoder.uint, Value.count?]

theorem reads_unitEnum {α : Type} (variants : List (String × α))
    (hdt : Decoder.variant? variants datetimeKey = none) :
    Reads (Decoder.unitEnum variants) (Value.choice? variants) := by
  intro t ks hl _ _
  cases t with
  | scalar v sp =>
    cases v with
    | integer i =>
      simp only [Tree.toNode, scalarNode]
      split_ifs <;> simp [Decoder.unitEnum, Tree.toValue, Value.blur, Value.choice?]
    | string s =>
      simp only [Tree.toNode, scalarNode, Decoder.unitEnum, Tree.toValue, Value.blur, Value.choice?]
      cases Decoder.variant? variants s <;> rfl
    | array | table => cases hl
    | _ => simp [Tree.toNode, scalarNode, Decoder.unitEnum, Tree.toValue, Value.blur, Value.choice?, Node.isDatetime]
  | table kind E sp =>
    rw [Tree.blur_toValue_table]
    cases E with
    | nil => simp [Tree.toNode, Tree.entryNodes, Decoder.unitEnum, Value.choice?]
    | cons e rest =>
      obtain ⟨k, kspan, t'⟩ := e
      simp only [Tree.toNode, Tree.entryNodes, Decoder.unitEnum, Tree.view_cons, Value.choice?]
      split
      · -- a table of one member under the date-time key names no variant
        rename_i hdtm
        cases rest with
        | nil =>
          simp only [Tree.entryNodes, Node.isDatetime, beq_iff_eq] at hdtm
          simp [hdtm, hdt]
        | cons e more => simp [Tree.entryNodes, Node.isDatetime] at hdtm
      · cases hv : Decoder.variant? variants k with
        | none => simp only [bind, Except.bind, toOption_error, ite_self]
        | some a =>
          simp only [bind, Except.bind]
          have ht' : t'.Leafy := hl.1
          cases t' with
          | scalar v sp' =>
            cases v with
            | integer i =>
              by_cases hneg : i < 0 <;>
                simp [Tree.toNode, scalarNode, hneg, Tree.toValue, Value.blur, Value.isEmptyPayload]
            | array | table => cases ht'
            | _ =>
              simp [Tree.toNode, scalarNode, Tree.toValue, Value.blur, Value.isEmptyPayload, Node.isDatetime]
          | array items sp' =>
            cases items <;> simp [Tree.toNode, Tree.itemNodes, Tree.toValue, Tree.itemValues,
              Value.isEmptyPayload]
          | tables items =>
            cases items <;> simp [Tree.toNode, Tree.itemNodes, Tree.toValue, Tree.itemValues,
              Value.isEmptyPayload]
          | table kind' F sp' =>
            cases F with
            | nil => simp [Tree.toNode, Tree.entryNodes, Tree.toValue, Tree.entryValues, Value.isEmptyPayload]
            | cons e F' =>
              -- a table with members is no empty payload, a date-time's table or another
              simp only [Tree.toNode, Tree.entryNodes, Tree.toValue, Tree.entryValues, Value.blur, Value.blurEntries,
                Value.isEmptyPayload]
              exact toOption_ite_error _ _ _ _
  | _ => simp [Tree.toNode, Decoder.unitEnum, Value.choice?]

/-! ## Records -/

mutual

/-- No node of a tree is broken, so a lenient reading finds no fault in it. -/
theorem Tree.lenientFault_toNode : ∀ (t : Tree) (ks : Span), (t.toNode ks).lenientFault = none
  | .scalar v sp, _ => by
    cases v <;> simp only [Tree.toNode, scalarNode] <;> try split_ifs
    all_goals simp [Node.lenientFault, Node.membersLenientFault, Node.itemsLenientFault]
  | .array items _, ks => by
    simp only [Tree.toNode, Node.lenientFault]
    exact Tree.itemsLenientFault_itemNodes ks items
  | .table _ E _, _ => by
    simp only [Tree.toNode, Node.lenientFault]
    exact Tree.membersLenientFault_entryNodes E
  | .tables items, ks => by
    simp only [Tree.toNode, Node.lenientFault]
    exact Tree.itemsLenientFault_itemNodes ks items

theorem Tree.itemsLenientFault_itemNodes : ∀ (ks : Span) (items : List Tree),
    Node.itemsLenientFault (Tree.itemNodes ks items) = none
  | _, [] => rfl
  | ks, t :: rest => by
    simp only [Tree.itemNodes, Node.itemsLenientFault, Tree.lenientFault_toNode t ks]
    exact Tree.itemsLenientFault_itemNodes ks rest

theorem Tree.membersLenientFault_entryNodes : ∀ (E : List Entry),
    Node.membersLenientFault (Tree.entryNodes E) = none
  | [] => rfl
  | (_, ks, t) :: rest => by
    simp only [Tree.entryNodes, Node.membersLenientFault, Tree.lenientFault_toNode t ks]
    exact Tree.membersLenientFault_entryNodes rest

end

/-- Record fields matched, in order, with readers of values under the same
names. -/
def FieldsRead (fields : List (Json.Field σ)) (rs : List (String × (Value → σ → Option σ))) : Prop :=
  List.Forall₂ (fun fld r => fld.name = r.1 ∧ FieldReads fld r.2) fields rs

/-- A name is known to the fields exactly when it is known to their readers. -/
theorem FieldsRead.find? {fields : List (Json.Field σ)} {rs : List (String × (Value → σ → Option σ))}
    (h : FieldsRead fields rs) (k : String) :
    (fields.find? (·.name == k) = none ∧ rs.find? (·.1 == k) = none) ∨
      ∃ fld r, fields.find? (·.name == k) = some fld ∧ rs.find? (·.1 == k) = some r ∧ FieldReads fld r.2 := by
  induction h with
  | nil => exact Or.inl ⟨rfl, rfl⟩
  | @cons fld r _ _ hfr _ ih =>
    by_cases hk : fld.name = k
    · have hk' : r.1 = k := hfr.1 ▸ hk
      exact Or.inr ⟨fld, r, by simp [hk], by simp [hk'], hfr.2⟩
    · have hk' : r.1 ≠ k := hfr.1 ▸ hk
      simpa [hk, hk'] using ih

section Members

variable {fields : List (Json.Field σ)} {rs : List (String × (Value → σ → Option σ))}

/-- The member loop of a record decoder over the entries of a table whose keys
appear once: each known member updates the record as its reader says, each
unknown one is skipped. -/
theorem members_entryNodes (h : FieldsRead fields rs) (E : List Entry) : ∀ (seen : List String) (s : σ)
    (left : Leftovers), Tree.LeafyEntries E → (∀ e ∈ E, e.2.2.toValue.Readable) →
    (∀ e ∈ E, e.2.2.toValue.Distinct) → (E.map Prod.fst).Nodup → (∀ e ∈ E, e.1 ∉ seen) →
    (decodeStruct.members fields false .config seen s left (Tree.entryNodes E)).toOption.map (·.2.1) =
      (Tree.view E).foldlM (readMember rs) s := by
  induction E with
  | nil => intros; simp [decodeStruct.members, Tree.entryNodes]
  | cons e rest ih =>
    obtain ⟨k, ks, t⟩ := e
    intro seen s left hl hr hd hk hseen
    have hr' := fun e he => hr e (List.mem_cons_of_mem _ he)
    have hd' := fun e he => hd e (List.mem_cons_of_mem _ he)
    simp only [List.map_cons, List.nodup_cons, List.mem_map] at hk
    rw [Tree.entryNodes, Tree.view_cons, List.foldlM_cons, decodeStruct.members]
    rcases h.find? k with ⟨hf, hrs⟩ | ⟨fld, r, hf, hrs, hfr⟩
    · -- an unknown member is skipped
      simp only [hf, Bool.false_eq_true, if_false, Tree.lenientFault_toNode, readMember, hrs]
      exact ih seen s left hl.2 hr' hd' hk.2 fun e he => hseen e (List.mem_cons_of_mem _ he)
    · -- a known member, seen for the first time, updates the record
      have hnew : seen.contains k = false := by
        simpa using hseen (k, ks, t) List.mem_cons_self
      have hread := hfr t ks s hl.1 (hr _ List.mem_cons_self) (hd _ List.mem_cons_self)
      simp only [hf, hnew, Bool.false_eq_true, if_false, readMember, hrs]
      cases habs : fld.absorb .config (t.toNode ks) s with
      | error => simp [habs, placeAt] at hread ⊢; simp [← hread]
      | ok s' =>
        rw [habs, toOption_ok] at hread
        simp only [placeAt, ← hread]
        refine ih (seen ++ [k]) s' left hl.2 hr' hd' hk.2 fun e he hmem => ?_
        rcases List.mem_append.1 hmem with hmem | hmem
        · exact hseen e (List.mem_cons_of_mem _ he) hmem
        · exact hk.1 ⟨e, he, (List.mem_singleton.1 hmem)⟩

end Members

/-- The element loop of a record decoder reading a configuration array: each
element updates the next field as its reader says, and the fields past the
last element keep their values. -/
theorem elements_itemNodes {structName : String} {fields fs : List (Json.Field σ)}
    {rs : List (String × (Value → σ → Option σ))} (h : FieldsRead fs rs) (ks : Span) :
    ∀ (items : List Tree) (i : Nat) (s : σ), (∀ t ∈ items, t.Leafy ∧ t.toValue.Readable ∧ t.toValue.Distinct) →
    (decodeStruct.elements structName fields 0 .config i s fs (Tree.itemNodes ks items)).toOption.map (·.1) =
      readElements rs s (items.map fun t => t.toValue.blur) := by
  induction h with
  | nil => intro items i s _; simp [decodeStruct.elements, readElements]
  | @cons fld r fs rs hfr _ ih =>
    intro items i s hitems
    cases items with
    | nil => simp [decodeStruct.elements, Tree.itemNodes, readElements]
    | cons t rest =>
      obtain ⟨hl, hr, hd⟩ := hitems t List.mem_cons_self
      have hread := hfr.2 t ks s hl hr hd
      simp only [Tree.itemNodes, decodeStruct.elements, List.map_cons, readElements]
      cases habs : fld.absorb .config (t.toNode ks) s with
      | error => simp [habs, placeAt] at hread ⊢; simp [← hread]
      | ok s' =>
        rw [habs, toOption_ok] at hread
        simp only [placeAt, ← hread, Option.bind_some]
        exact ih rest (i + 1) s' fun t' ht' => hitems t' (List.mem_cons_of_mem _ ht')

section Struct

variable {structName : String} {fields : List (Json.Field σ)} {init : σ}
  {rs : List (String × (Value → σ → Option σ))}

/-- A record decoder reads the members of an object node through its member
loop. -/
theorem decodeStruct_object (a : Pos) (ms : List (Option Key × Node)) (f : Option Pos) :
    (decodeStruct structName fields init (fun s _ _ => .ok s) false 0 .config (.object a ms f)).toOption =
      (decodeStruct.members fields false .config [] init [] ms).toOption.map (·.2.1) := by
  simp only [decodeStruct]
  split <;> simp_all [placeAt]

/-- A record decoder reads a configuration array through its element loop. -/
theorem decodeStruct_array (a : Pos) (xs : List Node) (f : Option Pos) :
    (decodeStruct structName fields init (fun s _ _ => .ok s) false 0 .config (.array a xs f)).toOption =
      (decodeStruct.elements structName fields 0 .config 0 init fields xs).toOption.map (·.1) := by
  simp only [decodeStruct]
  split <;> simp_all [placeAt]

/-- A record decoder reads the members of a table's entries, keys once each,
as `readRecord` reads the table's value. -/
theorem decodeStruct_entryNodes (h : FieldsRead fields rs) {E : List Entry} (hl : Tree.LeafyEntries E)
    (hr : ∀ e ∈ E, e.2.2.toValue.Readable) (hd : ∀ e ∈ E, e.2.2.toValue.Distinct) (hk : (E.map Prod.fst).Nodup)
    (a : Pos) (f : Option Pos) :
    (decodeStruct structName fields init (fun s _ _ => .ok s) false 0 .config (.object a (Tree.entryNodes E) f)).toOption =
      readRecord rs init (.table (Tree.view E)) := by
  rw [decodeStruct_object, members_entryNodes h E [] init [] hl hr hd hk (by simp)]
  rfl

/-- A record decoder reads the elements of an array of trees as `readRecord`
reads the array's value. -/
theorem decodeStruct_itemNodes (h : FieldsRead fields rs) (ks : Span) {items : List Tree} (hl : Tree.LeafyItems items)
    (hr : ∀ t ∈ items, t.toValue.Readable) (hd : ∀ t ∈ items, t.toValue.Distinct) (a : Pos) (f : Option Pos) :
    (decodeStruct structName fields init (fun s _ _ => .ok s) false 0 .config
      (.array a (Tree.itemNodes ks items) f)).toOption = readRecord rs init (.array (items.map fun t => t.toValue.blur)) := by
  rw [decodeStruct_array, elements_itemNodes h ks items 0 init fun t ht => ⟨Tree.leafyItems_iff.1 hl t ht, hr t ht, hd t ht⟩]
  rfl

/-- The decoder of a record whose fields read values reads as `readRecord`: a
table member by member, an array element by element, a date-time (a table of
one unknown member) as the defaults; anything else is refused. -/
theorem reads_decodeStruct (h : FieldsRead fields rs) (hdt : fields.find? (·.name == datetimeKey) = none) :
    Reads (decodeStruct structName fields init (fun s _ _ => .ok s) false 0) (readRecord rs init) := by
  intro t ks hl hr hd
  cases t with
  | scalar v sp =>
    cases v with
    | datetime dt =>
      simp [Tree.toNode, scalarNode, decodeStruct_object, decodeStruct.members, hdt, Node.lenientFault,
        Tree.toValue, Value.blur, readRecord]
    | integer i =>
      simp only [Tree.toNode, scalarNode]
      split_ifs <;> simp [decodeStruct, Tree.toValue, Value.blur, readRecord]
    | array | table => cases hl
    | _ => simp [Tree.toNode, scalarNode, decodeStruct, Tree.toValue, Value.blur, readRecord]
  | array items sp =>
    simp at hr hd
    simpa [Tree.toNode, Function.comp_def] using decodeStruct_itemNodes h ks hl hr hd _ _
  | tables items =>
    simp at hr hd
    simpa [Tree.toNode, Function.comp_def] using decodeStruct_itemNodes h ks hl hr hd _ _
  | table kind E sp =>
    simp only [Tree.toValue_table, Value.readable_table, Value.distinct_table, List.map_map, List.mem_map] at hr hd
    rw [Tree.blur_toValue_table]
    exact decodeStruct_entryNodes h hl (fun e he => hr _ ⟨e, he, rfl⟩) (fun e he => hd.2 _ ⟨e, he, rfl⟩)
      (by simpa [Function.comp_def] using hd.1) _ _

end Struct

/-! ## Records read key by key -/

/-- The reader of a member `name` that reads its value by `V` and stores it by
`set`. -/
def fieldReader {α : Type} (name : String) (V : Value → Option α) (set : α → σ → σ) :
    String × (Value → σ → Option σ) :=
  (name, fun v s => (V v).map (set · s))

/-- A record read key by key from a table: each field in turn takes its key's
value when the table has one, and keeps its value otherwise. -/
def readFields (rs : List (String × (Value → σ → Option σ))) (es : List (String × Value)) (init : σ) : Option σ :=
  rs.foldlM (fun s r => (lookup r.1 es).elim (some s) (r.2 · s)) init

/-- A record read from a value key by key: a table by `readFields`, anything
else as `readRecord` reads it. -/
def readKeys (rs : List (String × (Value → σ → Option σ))) (init : σ) : Value → Option σ
  | .table es => readFields rs es init
  | v => readRecord rs init v

/-- Two readers of members that give the same record whichever reads first. -/
def ReadersCommute (r r' : Value → σ → Option σ) : Prop :=
  ∀ v v' s, (r v s).bind (r' v') = (r' v' s).bind (r v)

/-- Readers that store into different parts of a record commute. -/
theorem readersCommute_fieldReader {α β : Type} {n n' : String} {V : Value → Option α} {W : Value → Option β}
    {set : α → σ → σ} {set' : β → σ → σ} (h : ∀ a b s, set' b (set a s) = set a (set' b s)) :
    ReadersCommute (fieldReader n V set).2 (fieldReader n' W set').2 := by
  intro v v' s
  cases hV : V v <;> cases hW : W v' <;> simp [fieldReader, hV, hW, h]

section KeyByKey

theorem readFields_cons (r : String × (Value → σ → Option σ)) (rs : List (String × (Value → σ → Option σ)))
    (es : List (String × Value)) (s : σ) :
    readFields (r :: rs) es s = ((lookup r.1 es).elim (some s) (r.2 · s)).bind (readFields rs es) := rfl

theorem readFields_of_nil : ∀ (rs : List (String × (Value → σ → Option σ))) (s : σ), readFields rs [] s = some s
  | [], _ => rfl
  | r :: rs, s => by
    rw [readFields_cons]
    exact readFields_of_nil rs s

/-- Fields whose keys hold the same values in two tables read the same. -/
theorem readFields_congr {es es' : List (String × Value)} :
    ∀ {rs : List (String × (Value → σ → Option σ))}, (∀ r ∈ rs, lookup r.1 es = lookup r.1 es') →
      ∀ s, readFields rs es s = readFields rs es' s
  | [], _, _ => rfl
  | r :: rs, h, s => by
    rw [readFields_cons, readFields_cons, h r List.mem_cons_self]
    congr 1
    funext s'
    exact readFields_congr (fun r' hr' => h r' (List.mem_cons_of_mem _ hr')) s'

variable {rs : List (String × (Value → σ → Option σ))}

/-- A reader that commutes with every field's reader commutes with reading a
member. -/
theorem readMember_commute {r : Value → σ → Option σ} (hr : ∀ r' ∈ rs, ReadersCommute r r'.2) (w : Option Value)
    (kv : String × Value) (s : σ) :
    (w.elim (some s) (r · s)).bind (readMember rs · kv) = (readMember rs s kv).bind fun s' => w.elim (some s') (r · s') := by
  cases w with
  | none => simp
  | some v₀ =>
    simp only [Option.elim_some, readMember]
    cases hf : rs.find? (·.1 == kv.1) with
    | none => simp
    | some r' => exact hr r' (List.mem_of_find?_eq_some hf) v₀ kv.2 s

theorem readMember_cons_self {r : String × (Value → σ → Option σ)} {k : String} (h : r.1 = k) (s : σ) (v : Value) :
    readMember (r :: rs) s (k, v) = r.2 v s := by
  simp [readMember, h]

theorem readMember_cons_other {r : String × (Value → σ → Option σ)} {k : String} (h : r.1 ≠ k) (s : σ) (v : Value) :
    readMember (r :: rs) s (k, v) = readMember rs s (k, v) := by
  simp [readMember, h]

/-- Read key by key, a table's first member can be read first: its reader
commutes with those of the fields before its own. -/
theorem readFields_cons_entry (hn : (rs.map Prod.fst).Nodup) (hc : rs.Pairwise fun r r' => ReadersCommute r.2 r'.2)
    {k : String} {v : Value} {es : List (String × Value)} (hk : lookup k es = none) :
    ∀ s, readFields rs ((k, v) :: es) s = (readMember rs s (k, v)).bind (readFields rs es) := by
  induction rs with
  | nil => intro s; rfl
  | cons r rs ih =>
    intro s
    simp only [List.map_cons, List.nodup_cons, List.mem_map, not_exists, not_and] at hn
    obtain ⟨hr, hrest⟩ := List.pairwise_cons.1 hc
    rw [readFields_cons, lookup_cons]
    by_cases h0 : k = r.1
    · -- the member is this field's: the other fields find the same values without it
      have hothers : ∀ r' ∈ rs, lookup r'.1 ((k, v) :: es) = lookup r'.1 es := fun r' hr' => by
        rw [lookup_cons, if_neg fun h => hn.1 r' hr' (h.symm.trans h0)]
      have hself : ∀ s', readFields (r :: rs) es s' = readFields rs es s' := fun s' => by
        rw [readFields_cons, ← h0, hk]
        rfl
      rw [if_pos h0, Option.elim_some, readMember_cons_self h0.symm]
      exact congrArg _ (funext fun s' => (readFields_congr hothers s').trans (hself s').symm)
    · rw [if_neg h0, readMember_cons_other fun h => h0 h.symm]
      simp only [ih hn.2 hrest]
      rw [← Option.bind_assoc, readMember_commute hr (lookup r.1 es) (k, v) s, Option.bind_assoc]
      rfl

/-- Read member by member, a table whose keys appear once reads key by key,
when the readers of the fields commute. -/
theorem readRecord_table (hn : (rs.map Prod.fst).Nodup) (hc : rs.Pairwise fun r r' => ReadersCommute r.2 r'.2) :
    ∀ {es : List (String × Value)}, (es.map Prod.fst).Nodup → ∀ s, readRecord rs s (.table es) = readFields rs es s
  | [], _, s => (readFields_of_nil rs s).symm
  | (k, v) :: es, hk, s => by
    simp only [List.map_cons, List.nodup_cons, List.mem_map, not_exists, not_and] at hk
    have hfresh : lookup k es = none := lookup_eq_none_iff.2 fun kv hkv h => hk.1 kv hkv h
    rw [readFields_cons_entry hn hc hfresh, readRecord, List.foldlM_cons]
    exact congrArg _ (funext fun s' => readRecord_table hn hc hk.2 s')

/-- On values whose tables hold each key once, reading member by member and
reading key by key agree, when the readers of the fields commute. -/
theorem readRecord_eq_readKeys (hn : (rs.map Prod.fst).Nodup) (hc : rs.Pairwise fun r r' => ReadersCommute r.2 r'.2)
    (init : σ) {v : Value} (hv : v.Distinct) : readRecord rs init v = readKeys rs init v := by
  cases v with
  | table es => exact readRecord_table hn hc hv.1 init
  | _ => rfl

end KeyByKey

end LotBridge.Toml
