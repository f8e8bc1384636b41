import LotBridge.Proofs.TomlDocuments
import LotBridge.Proofs.RecordDecoding
import LotBridge.Toml.Node

/-!
# The nodes of plain documents

A document read into a tree is decoded through the located nodes of its
values (`Tree.toNode`). With its places forgotten, the node of a plain tree is
the node of a JSON value (`Value.json`): strings and booleans as themselves,
integers as JSON integers, tables as objects with their entries in order. The
record decoders look at places only to place their refusals, so they decode a
plain document as they decode that value (see `RecordDecoding`).

Whatever the document, no node of a tree is `null`, nor is any element or
member of one: a TOML document has no null. So a record decoder that only ever
stores what it reads from members that are not null keeps a property of its
defaults (`decodeStruct_keeps`).

## Main definitions

* `Value.json`: the JSON value the node of a plain value stands for.

## Main statements

* `Tree.forget_rootNode`: the node of a plain document, places forgotten.
* `Tree.children_rootNode`: no member of a document's root, nor any member or
  element of one, is `null`.
* `Json.decodeStruct_keeps`: what a record decoder keeps.
-/

namespace LotBridge.Json

/-! ## What a record decoder keeps -/

/-- Whether a node is `null`. -/
def Node.isNull : Node → Bool
  | .null _ _ => true
  | _ => false

/-- The elements of an array node and the values of an object node's
members. -/
def Node.children : Node → List Node
  | .array _ items _ => items
  | .object _ members _ => members.map Prod.snd
  | _ => []

section Keeps

variable {σ : Type} (P : σ → Prop) (Q : Node → Prop) (src : Source)

/-- Fields that store only what keeps `P`, when they read a node with `Q`. -/
def FieldsKeep (fields : List (Field σ)) : Prop :=
  ∀ fld ∈ fields, ∀ n s s', Q n → P s → fld.absorb src n s = .ok s' → P s'

variable {P Q src}

theorem typeError_ne_ok {α : Type} (n : Node) (expected : String) (a : α) : typeError src n expected ≠ .ok a := by
  unfold typeError
  split <;> simp

theorem eq_of_placeAt_ok {α : Type} {site : Site} {d : Decoded α} {a : α} (h : placeAt site d = .ok a) :
    d = .ok a := by
  cases d with
  | error e => simp [placeAt] at h
  | ok b => exact h

theorem members_keep {fields : List (Field σ)} (hf : FieldsKeep P Q src fields) (buffer : Bool) :
    ∀ (ms : List (Option Key × Node)) (seen : List String) (s : σ) (left : Leftovers)
      {r : List String × σ × Leftovers}, P s → (∀ m ∈ ms, Q m.2) →
      decodeStruct.members fields buffer src seen s left ms = .ok r → P r.2.1
  | [], _, _, _, _, hs, _, h => by
    simp only [decodeStruct.members, Except.ok.injEq] at h
    rw [← h]
    exact hs
  | (none, _) :: _, _, _, _, _, _, _, h => by simp [decodeStruct.members] at h
  | (some ⟨.error _, _, _⟩, _) :: _, _, _, _, _, _, _, h => by simp [decodeStruct.members] at h
  | (some ⟨.ok name, a, colon⟩, v) :: rest, seen, s, left, r, hs, hms, h => by
    have hv : Q v := hms _ List.mem_cons_self
    have hms' : ∀ m ∈ rest, Q m.2 := fun m hm => hms m (List.mem_cons_of_mem _ hm)
    rw [decodeStruct.members] at h
    split at h
    · rename_i fld hfind
      split at h
      · exact absurd h (by simp)
      · split at h
        · exact absurd h (by simp)
        · rename_i s' habs
          exact members_keep hf buffer rest _ s' left
            (hf fld (List.mem_of_find?_eq_some hfind) v s s' hv hs (eq_of_placeAt_ok habs)) hms' h
    · split at h
      · split at h
        · exact absurd h (by simp)
        · exact members_keep hf buffer rest _ s _ hs hms' h
      · split at h
        · exact absurd h (by simp)
        · exact members_keep hf buffer rest _ s _ hs hms' h

theorem elements_keep (structName : String) (fields : List (Field σ)) (minItems : Nat) :
    ∀ (fs : List (Field σ)) (xs : List Node) (i : Nat) (s : σ) {r : σ × List Node}, FieldsKeep P Q src fs →
      P s → (∀ x ∈ xs, Q x) → decodeStruct.elements structName fields minItems src i s fs xs = .ok r → P r.1
  | [], _, _, _, _, _, hs, _, h => by
    simp only [decodeStruct.elements, Except.ok.injEq] at h
    rw [← h]
    exact hs
  | _ :: _, [], i, _, _, _, hs, _, h => by
    simp only [decodeStruct.elements] at h
    split_ifs at h
    · rw [← Except.ok.inj h]
      exact hs
    · simp [refuse] at h
  | fld :: fs, x :: xs, i, s, r, hf, hs, hxs, h => by
    simp only [decodeStruct.elements] at h
    split at h
    · exact absurd h (by simp)
    · rename_i s' habs
      exact elements_keep structName fields minItems fs xs (i + 1) s' (fun g hg => hf g (List.mem_cons_of_mem _ hg))
        (hf fld List.mem_cons_self x s s' (hxs x List.mem_cons_self) hs (eq_of_placeAt_ok habs))
        (fun y hy => hxs y (List.mem_cons_of_mem _ hy)) h

/-- A record decoder whose fields keep `P` and whose node's members or
elements satisfy `Q` gives a record with `P`, if its defaults have it. -/
theorem decodeStruct_keeps {structName : String} {fields : List (Field σ)} {init : σ} {buffer : Bool}
    {minItems : Nat} {n : Node} {a : σ} (hf : FieldsKeep P Q src fields) (hinit : P init)
    (hn : ∀ c ∈ n.children, Q c)
    (h : decodeStruct structName fields init (fun s _ _ => .ok s) buffer minItems src n = .ok a) : P a := by
  unfold decodeStruct at h
  split at h
  · rename_i ms _
    split at h
    · exact absurd h (by simp)
    · rename_i seen state left hms
      rw [← Except.ok.inj (eq_of_placeAt_ok h)]
      exact members_keep hf buffer ms [] init [] hinit (fun m hm => hn m.2 (by simp [Node.children]; exact ⟨_, hm⟩))
        hms
  · rename_i xs _
    have hxs : ∀ x ∈ xs, Q x := fun x hx => hn x (by simpa [Node.children] using hx)
    split at h
    · exact absurd h (typeError_ne_ok _ _ _)
    · split at h
      · exact absurd (eq_of_placeAt_ok h) (by simp)
      · rename_i state _ hel
        rw [← Except.ok.inj (eq_of_placeAt_ok h)]
        exact elements_keep structName fields minItems fields xs 0 init hf hinit hxs hel
    · split at h
      · exact absurd (eq_of_placeAt_ok h) (by simp)
      · rename_i state hel
        rw [← Except.ok.inj (eq_of_placeAt_ok h)]
        exact elements_keep structName fields minItems fields xs 0 init hf hinit hxs hel
      · split at h <;> exact absurd h (by simp)
  · exact absurd h (typeError_ne_ok _ _ _)

end Keeps

end LotBridge.Json

namespace LotBridge.Toml

open LotBridge.Json

/-! ## Plain trees as JSON -/

mutual

/-- The JSON value whose node a plain value's node is, places forgotten; other
values, which no plain tree holds, stand for `null`. -/
def Value.json : Value → Json
  | .string s => .string s
  | .integer i => Json.int i
  | .boolean b => .bool b
  | .table es => .object (entriesJson es)
  | _ => .null

/-- The members of the JSON form of table entries. -/
def entriesJson : List (String × Value) → List (String × Json)
  | [] => []
  | (k, v) :: rest => (k, v.json) :: entriesJson rest

end

theorem entriesJson_append (es fs : List (String × Value)) :
    entriesJson (es ++ fs) = entriesJson es ++ entriesJson fs := by
  induction es with
  | nil => rfl
  | cons e rest ih =>
    obtain ⟨k, v⟩ := e
    simp [entriesJson, ih]

theorem forget_scalarNode {v : Value} (hv : v.IsScalar) (sp : Span) :
    (scalarNode v sp).forget = toNode v.json := by
  cases v with
  | string s => rfl
  | integer i =>
    simp only [scalarNode, Value.json, Json.int]
    split_ifs <;> rfl
  | boolean b => rfl
  | float | datetime | array | table => exact hv.elim

mutual

/-- The node of a plain tree, places forgotten, is the node of its value's
JSON form. -/
theorem Tree.forget_toNode : ∀ (t : Tree), t.Plain → ∀ fallback : Span,
    (t.toNode fallback).forget = Json.toNode t.toValue.json
  | .scalar v sp, hv, _ => forget_scalarNode hv sp
  | .table _ entries _, ⟨_, hE⟩, _ => by
    simp only [Tree.toNode, Node.forget, Tree.toValue, Value.json, Json.toNode,
      Tree.forgetMembers_entryNodes entries hE]
  | .array _ _, h, _ => h.elim
  | .tables _, h, _ => h.elim

theorem Tree.forgetMembers_entryNodes : ∀ (entries : List Entry), Tree.PlainEntries entries →
    Node.forgetMembers (Tree.entryNodes entries) = fieldsToNodes (entriesJson (Tree.entryValues entries))
  | [], _ => rfl
  | (k, ks, t) :: rest, ⟨ht, hrest⟩ => by
    simp only [Tree.entryNodes, Node.forgetMembers, Option.map_some, Tree.entryValues, entriesJson,
      fieldsToNodes, Tree.forget_toNode t ht, Tree.forgetMembers_entryNodes rest hrest]

end

/-- The node of a document of plain tables, places forgotten, is the node of
the object of its entries. -/
theorem Tree.forget_rootNode {kind : TableKind} {entries : List Entry} (hE : Tree.PlainEntries entries)
    (sp : Option Span) :
    (Tree.table kind entries sp).rootNode.forget =
      Json.toNode (.object (entriesJson (Tree.entryValues entries))) := by
  simp only [Tree.rootNode, Node.forget, Json.toNode, Tree.forgetMembers_entryNodes entries hE]

/-! ## No null in a document -/

theorem mem_itemNodes {fallback : Span} {c : Node} {items : List Tree} (h : c ∈ Tree.itemNodes fallback items) :
    ∃ t : Tree, c = t.toNode fallback := by
  induction items with
  | nil => simp [Tree.itemNodes] at h
  | cons t rest ih =>
    rw [Tree.itemNodes, List.mem_cons] at h
    rcases h with rfl | h
    · exact ⟨t, rfl⟩
    · exact ih h

theorem mem_entryNodes {c : Node} {entries : List Entry} (h : c ∈ (Tree.entryNodes entries).map Prod.snd) :
    ∃ (t : Tree) (ks : Span), c = t.toNode ks := by
  induction entries with
  | nil => simp [Tree.entryNodes] at h
  | cons e rest ih =>
    obtain ⟨k, ks, t⟩ := e
    rw [Tree.entryNodes, List.map_cons, List.mem_cons] at h
    rcases h with rfl | h
    · exact ⟨t, ks, rfl⟩
    · exact ih h

theorem Tree.toNode_isNull (t : Tree) (fallback : Span) : (t.toNode fallback).isNull = false := by
  cases t with
  | scalar v sp =>
    cases v <;> simp only [Tree.toNode, scalarNode] <;> try split_ifs
    all_goals rfl
  | _ => rfl

/-- No element or member of the node of a tree is `null`. -/
theorem Tree.children_toNode (t : Tree) (fallback : Span) : ∀ c ∈ (t.toNode fallback).children, c.isNull = false := by
  intro c hc
  cases t with
  | scalar v sp =>
    cases v <;> simp only [Tree.toNode, scalarNode] at hc <;> try split_ifs at hc
    all_goals simp_all [Node.children, Node.isNull]
  | array items sp =>
    obtain ⟨t, rfl⟩ := mem_itemNodes (by simpa [Tree.toNode, Node.children] using hc)
    exact t.toNode_isNull _
  | table kind entries sp =>
    obtain ⟨t, ks, rfl⟩ := mem_entryNodes (by simpa [Tree.toNode, Node.children] using hc)
    exact t.toNode_isNull _
  | tables items =>
    obtain ⟨t, rfl⟩ := mem_itemNodes (by simpa [Tree.toNode, Node.children] using hc)
    exact t.toNode_isNull _

/-- No member of a document's root, nor any element or member of one, is
`null`. -/
theorem Tree.children_rootNode (t : Tree) : ∀ m ∈ t.rootNode.children, ∀ c ∈ m.children, c.isNull = false := by
  intro m hm
  cases t with
  | table kind entries sp =>
    obtain ⟨t, ks, rfl⟩ := mem_entryNodes (by simpa [Tree.rootNode, Node.children] using hm)
    exact t.children_toNode ks
  | scalar v sp =>
    -- only a date-time has a member, a string
    cases v <;> simp only [Tree.rootNode, Tree.toNode, scalarNode] at hm <;> try split_ifs at hm
    all_goals simp_all [Node.children]
  | array items sp =>
    obtain ⟨t, rfl⟩ := mem_itemNodes (by simpa [Tree.rootNode, Tree.toNode, Node.children] using hm)
    exact t.children_toNode _
  | tables items =>
    obtain ⟨t, rfl⟩ := mem_itemNodes (by simpa [Tree.rootNode, Tree.toNode, Node.children] using hm)
    exact t.children_toNode _

end LotBridge.Toml
