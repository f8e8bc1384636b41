import LotBridge.Proofs.JsonReadBack

/-!
# Decoding values read from text

A node read from the text of a value (`n.forget = toNode j`) has the value's
shape with places added, and the places only ever reach refusals. So each
scalar decoder takes from such a node the value it would take from the value
itself, and a record decoder goes through the members one by one: a known
member updates the record, an unknown one is buffered without places.

## Main statements

* `Decoder.string_read`, `Decoder.uint_read`, `Decoder.int64_read`,
  `Decoder.bool_read`, `Decoder.option_read`, `Decoder.list_read`,
  `Decoder.unitEnum_read`: scalar decoders on read nodes.
* `members_known`, `members_optional`, `members_buffered`: the member loop of a
  record decoder.
-/

namespace LotBridge.Json

/-! ## Nodes read from text -/

theorem forget_eq_bool {n : Node} {v : Bool} (h : n.forget = toNode (.bool v)) :
    ∃ a b, n = .bool v a b := by
  cases n <;> simp_all [Node.forget, toNode]

theorem forget_eq_number {n : Node} {v : Number} (h : n.forget = toNode (.number v)) :
    ∃ a b, n = .number (.ok v) a b := by
  cases n <;> simp_all [Node.forget, toNode]

theorem forget_eq_string {n : Node} {s : String} (h : n.forget = toNode (.string s)) :
    ∃ a b, n = .string (.ok s) a b := by
  cases n <;> simp_all [Node.forget, toNode]

theorem forget_eq_array {n : Node} {xs : List Json} (h : n.forget = toNode (.array xs)) :
    ∃ a ns f, n = .array a ns f ∧ ns.map Node.forget = xs.map toNode := by
  cases n with
  | array a ns f =>
    simp only [Node.forget, toNode, Node.array.injEq, forgetItems_eq_map, itemsToNodes_eq_map] at h
    exact ⟨a, ns, f, rfl, h.2.1⟩
  | _ => simp [Node.forget, toNode] at h

theorem forget_eq_object {n : Node} {fs : List (String × Json)}
    (h : n.forget = toNode (.object fs)) :
    ∃ a ms f, n = .object a ms f ∧ Node.forgetMembers ms = fieldsToNodes fs := by
  cases n with
  | object a ms f =>
    simp only [Node.forget, toNode, Node.object.injEq] at h
    exact ⟨a, ms, f, rfl, h.2.1⟩
  | _ => simp [Node.forget, toNode] at h

theorem forgetMembers_eq_nil {ms : List (Option Key × Node)} (h : Node.forgetMembers ms = []) :
    ms = [] := by
  cases ms with
  | nil => rfl
  | cons m ms => simp [Node.forgetMembers] at h

theorem forgetMembers_eq_cons {ms : List (Option Key × Node)} {k : String} {v : Json}
    {fs : List (String × Json)} (h : Node.forgetMembers ms = fieldsToNodes ((k, v) :: fs)) :
    ∃ a b n ms', ms = (some ⟨.ok k, a, b⟩, n) :: ms' ∧ n.forget = toNode v ∧
      Node.forgetMembers ms' = fieldsToNodes fs := by
  match ms, h with
  | (some ⟨text, a, b⟩, n) :: ms', h =>
    simp only [Node.forgetMembers, fieldsToNodes, List.cons.injEq, Prod.mk.injEq, Option.map_some,
      Option.some.injEq, Key.mk.injEq] at h
    obtain ⟨⟨⟨rfl, -, -⟩, hn⟩, hms⟩ := h
    exact ⟨a, b, n, ms', rfl, hn, hms⟩
  | (none, _) :: _, h => simp [Node.forgetMembers, fieldsToNodes] at h

theorem forgetMembers_eq_append {ms : List (Option Key × Node)} {fs gs : List (String × Json)}
    (h : Node.forgetMembers ms = fieldsToNodes (fs ++ gs)) :
    ∃ ms₁ ms₂, ms = ms₁ ++ ms₂ ∧ Node.forgetMembers ms₁ = fieldsToNodes fs ∧
      Node.forgetMembers ms₂ = fieldsToNodes gs := by
  induction fs generalizing ms with
  | nil => exact ⟨[], ms, rfl, rfl, h⟩
  | cons kv fs ih =>
    obtain ⟨k, v⟩ := kv
    obtain ⟨a, b, n, ms', rfl, hn, hms'⟩ := forgetMembers_eq_cons h
    obtain ⟨ms₁, ms₂, rfl, h₁, h₂⟩ := ih hms'
    refine ⟨(some ⟨.ok k, a, b⟩, n) :: ms₁, ms₂, rfl, ?_, h₂⟩
    simp [Node.forgetMembers, fieldsToNodes, hn, h₁]

mutual

theorem strictFault_forget : ∀ n : Node, n.forget.strictFault = n.strictFault
  | .null _ _ | .bool _ _ _ | .broken _ _ => rfl
  | .number v _ _ | .string v _ _ => by cases v <;> rfl
  | .array _ items _ => by
    simp only [Node.forget, Node.strictFault]
    exact itemsStrictFault_forget items
  | .object _ members _ => by
    simp only [Node.forget, Node.strictFault]
    exact membersStrictFault_forget members

theorem itemsStrictFault_forget :
    ∀ ns : List Node, Node.itemsStrictFault (Node.forgetItems ns) = Node.itemsStrictFault ns
  | [] => rfl
  | n :: ns => by
    simp only [Node.forgetItems, Node.itemsStrictFault, strictFault_forget n,
      itemsStrictFault_forget ns]

theorem membersStrictFault_forget : ∀ ms : List (Option Key × Node),
    Node.membersStrictFault (Node.forgetMembers ms) = Node.membersStrictFault ms
  | [] => rfl
  | (some ⟨.error l, _, _⟩, _) :: _ => rfl
  | (some ⟨.ok _, _, _⟩, n) :: ms => by
    simp only [Node.forgetMembers, Option.map_some, Node.membersStrictFault, strictFault_forget n,
      membersStrictFault_forget ms]
  | (none, n) :: ms => by
    simp only [Node.forgetMembers, Option.map_none, Node.membersStrictFault, strictFault_forget n,
      membersStrictFault_forget ms]

end

mutual

theorem strictFault_toNode : ∀ j : Json, (toNode j).strictFault = none
  | .null | .bool _ | .number _ | .string _ => rfl
  | .array xs => by
    simp only [toNode, Node.strictFault]
    exact itemsStrictFault_toNodes xs
  | .object fs => by
    simp only [toNode, Node.strictFault]
    exact membersStrictFault_toNodes fs

theorem itemsStrictFault_toNodes : ∀ xs : List Json, Node.itemsStrictFault (itemsToNodes xs) = none
  | [] => rfl
  | x :: xs => by
    simp only [itemsToNodes, Node.itemsStrictFault, strictFault_toNode x, itemsStrictFault_toNodes xs]

theorem membersStrictFault_toNodes :
    ∀ fs : List (String × Json), Node.membersStrictFault (fieldsToNodes fs) = none
  | [] => rfl
  | (_, v) :: fs => by
    simp only [fieldsToNodes, Node.membersStrictFault, strictFault_toNode v,
      membersStrictFault_toNodes fs]

end

/-- A node read from the text of a value carries no fault. -/
theorem strictFault_of_forget {n : Node} {j : Json} (h : n.forget = toNode j) :
    n.strictFault = none := by
  rw [← strictFault_forget, h, strictFault_toNode]

mutual

theorem forget_toNode : ∀ j : Json, (toNode j).forget = toNode j
  | .null | .bool _ | .number _ | .string _ => rfl
  | .array xs => by
    simp only [toNode, Node.forget]
    rw [forgetItems_toNodes xs]
  | .object fs => by
    simp only [toNode, Node.forget]
    rw [forgetMembers_fieldsToNodes fs]

theorem forgetItems_toNodes : ∀ xs : List Json, Node.forgetItems (itemsToNodes xs) = itemsToNodes xs
  | [] => rfl
  | x :: xs => by
    simp only [itemsToNodes, Node.forgetItems, forget_toNode x, forgetItems_toNodes xs]

theorem forgetMembers_fieldsToNodes :
    ∀ fs : List (String × Json), Node.forgetMembers (fieldsToNodes fs) = fieldsToNodes fs
  | [] => rfl
  | (_, v) :: fs => by
    simp only [fieldsToNodes, Node.forgetMembers, Option.map_some, forget_toNode v,
      forgetMembers_fieldsToNodes fs]

end

/-! ## Scalar decoders -/

theorem toNat_toUInt64 {k : Nat} (hk : k < 2 ^ 64) : k.toUInt64.toNat = k := by
  rw [Nat.toUInt64, UInt64.toNat_ofNat']
  exact Nat.mod_eq_of_lt hk

theorem exact_nat (k : Nat) : Exact (Json.nat k) := trivial

theorem exactFields_append (fs gs : List (String × Json)) :
    ExactFields (fs ++ gs) ↔ ExactFields fs ∧ ExactFields gs := by
  induction fs with
  | nil => simp [ExactFields]
  | cons kv fs ih => simp [ExactFields, ih, and_assoc]

theorem exact_int {v : Int} (hlo : -2 ^ 63 ≤ v) (hhi : v < 2 ^ 63) : Exact (Json.int v) := by
  unfold Json.int
  split
  · show (Int64.ofInt v).toInt < 0
    rwa [Int64.toInt_ofInt_of_le hlo hhi]
  · trivial

variable {n : Node} (src : Source)

theorem Decoder.string_read {s : String} (h : n.forget = toNode (.string s)) :
    Decoder.string src n = .ok s := by
  obtain ⟨a, b, rfl⟩ := forget_eq_string h
  rfl

theorem Decoder.bool_read {v : Bool} (h : n.forget = toNode (.bool v)) :
    Decoder.bool src n = .ok v := by
  obtain ⟨a, b, rfl⟩ := forget_eq_bool h
  rfl

theorem Decoder.uint_read {k bits : Nat} (name : String) (hk : k < 2 ^ bits) (hbits : bits ≤ 64)
    (h : n.forget = toNode (Json.nat k)) : Decoder.uint bits name src n = .ok k := by
  obtain ⟨a, b, rfl⟩ := forget_eq_number h
  have hk64 : k < 2 ^ 64 := Nat.lt_of_lt_of_le hk (Nat.pow_le_pow_right (by decide) hbits)
  simp [Decoder.uint, toNat_toUInt64 hk64, hk]

theorem Decoder.int64_read {v : Int} (hlo : -2 ^ 63 ≤ v) (hhi : v < 2 ^ 63)
    (h : n.forget = toNode (Json.int v)) : Decoder.int64 src n = .ok v := by
  unfold Json.int at h
  split at h
  · obtain ⟨a, b, rfl⟩ := forget_eq_number h
    simp [Decoder.int64, Int64.toInt_ofInt_of_le hlo hhi]
  · obtain ⟨a, b, rfl⟩ := forget_eq_number h
    have hlt : v.toNat < 2 ^ 64 := by omega
    simp only [Decoder.int64, toNat_toUInt64 hlt]
    rw [if_pos (by omega)]
    congr 1
    omega

theorem Decoder.option_read {α : Type} (d : Decoder α) {j : Json} (hj : j ≠ .null)
    (h : n.forget = toNode j) : Decoder.option d src n = (d src n).map some := by
  cases n with
  | null a b =>
    exfalso
    apply hj
    cases j <;> simp_all [Node.forget, toNode]
  | _ => rfl

theorem Decoder.items_read {α : Type} (d : Decoder α) (f : α → Json)
    (hd : ∀ a n, n.forget = toNode (f a) → d src n = .ok a) :
    ∀ (as : List α) (ns : List Node), ns.map Node.forget = as.map (toNode ∘ f) →
      Decoder.items d src ns = .ok as
  | [], [], _ => rfl
  | a :: as, n :: ns, h => by
    simp only [List.map_cons, List.cons.injEq, Function.comp] at h
    simp [Decoder.items, hd a n h.1, Decoder.items_read d f hd as ns h.2, bind, Except.bind,
      pure, Except.pure]
  | [], _ :: _, h | _ :: _, [], h => by simp at h

theorem Decoder.list_read {α : Type} (d : Decoder α) (f : α → Json)
    (hd : ∀ a n, n.forget = toNode (f a) → d src n = .ok a) (as : List α)
    (h : n.forget = toNode (.array (as.map f))) : Decoder.list d src n = .ok as := by
  obtain ⟨a, ns, fin, rfl, hns⟩ := forget_eq_array h
  rw [List.map_map] at hns
  simp [Decoder.list, Decoder.items_read src d f hd as ns hns, placeAt]

theorem Decoder.unitEnum_read {α : Type} (variants : List (String × α)) {name : String} {a : α}
    (hv : Decoder.variant? variants name = some a) (h : n.forget = toNode (.string name)) :
    Decoder.unitEnum variants src n = .ok a := by
  obtain ⟨b, c, rfl⟩ := forget_eq_string h
  simp [Decoder.unitEnum, hv]

/-! ## The member loop of a record -/

section Members

variable {σ : Type} (fields : List (Field σ)) (buffer : Bool) (seen : List String) (st : σ)
  (left : Leftovers)

/-- A known member seen for the first time updates the record. -/
theorem members_known (k : String) (a b : Pos) (v : Node) (rest : List (Option Key × Node))
    (fld : Field σ) (st' : σ) (hfind : fields.find? (·.name == k) = some fld) (hseen : k ∉ seen)
    (habs : fld.absorb src v st = .ok st') :
    decodeStruct.members fields buffer src seen st left ((some ⟨.ok k, a, b⟩, v) :: rest) =
      decodeStruct.members fields buffer src (seen ++ [k]) st' left rest := by
  rw [decodeStruct.members]
  simp [hfind, hseen, habs, placeAt]

/-- An unknown member without faults is kept, without places, by a record
that buffers. -/
theorem members_buffered (k : String) (a b : Pos) (v : Node) (rest : List (Option Key × Node))
    (hfind : fields.find? (·.name == k) = none) (hv : v.strictFault = none) :
    decodeStruct.members fields true src seen st left ((some ⟨.ok k, a, b⟩, v) :: rest) =
      decodeStruct.members fields true src seen st (left ++ [(k, v.forget)]) rest := by
  rw [decodeStruct.members]
  simp [hfind, hv]

/-- Members read from text whose keys no field knows are all kept, as the
values they were read from. -/
theorem members_leftovers : ∀ (fs : List (String × Json)) (ms : List (Option Key × Node))
    (left : Leftovers), Node.forgetMembers ms = fieldsToNodes fs →
    (∀ kv ∈ fs, fields.find? (·.name == kv.1) = none) →
      decodeStruct.members fields true src seen st left ms =
        .ok (seen, st, left ++ fs.map fun kv => (kv.1, toNode kv.2))
  | [], ms, left, hms, _ => by
    rw [forgetMembers_eq_nil hms]
    simp [decodeStruct.members]
  | (k, v) :: fs, ms, left, hms, hfind => by
    obtain ⟨a, b, n, ms', rfl, hn, hms'⟩ := forgetMembers_eq_cons hms
    rw [members_buffered src fields seen st left k a b n ms' (hfind (k, v) (by simp))
      (strictFault_of_forget hn), hn,
      members_leftovers fs ms' _ hms' fun kv hkv => hfind kv (List.mem_cons_of_mem _ hkv)]
    simp

/-- A member that is present or left out, as an optional field is written:
when present it updates the record as the field's setter says, and when left
out the record stays. -/
theorem members_optional {α : Type} (k : String) (fld : Field σ) (o : Option α)
    (hfind : fields.find? (·.name == k) = some fld) (hseen : k ∉ seen) (enc : α → Json)
    (set : Option α → σ → σ)
    (habs : ∀ a ∈ o, ∀ n, n.forget = toNode (enc a) → fld.absorb src n st = .ok (set (some a) st))
    (hnone : set none st = st) (ms more : List (Option Key × Node))
    (hms : Node.forgetMembers ms = fieldsToNodes (o.map fun a => (k, enc a)).toList) :
    decodeStruct.members fields buffer src seen st left (ms ++ more) =
      decodeStruct.members fields buffer src (seen ++ (o.map fun _ => k).toList) (set o st) left
        more := by
  cases o with
  | none =>
    rw [forgetMembers_eq_nil hms, hnone]
    simp
  | some a =>
    obtain ⟨b, c, n, ms', rfl, hn, hms'⟩ := forgetMembers_eq_cons hms
    rw [forgetMembers_eq_nil hms', List.cons_append, List.nil_append,
      members_known src fields buffer seen st left k b c n more fld _ hfind hseen (habs a rfl n hn)]
    rfl

end Members

/-! ## Sequenced steps -/

/-- A sequenced computation succeeds exactly when each step does. -/
theorem bind_eq_ok {ε β γ : Type} {x : Except ε β} {f : β → Except ε γ} {c : γ} :
    x >>= f = .ok c ↔ ∃ b, x = .ok b ∧ f b = .ok c := by
  cases x <;> simp [bind, Except.bind]

/-- A mapped computation succeeds exactly when the computation does. -/
theorem map_eq_ok {ε β γ : Type} {x : Except ε β} {f : β → γ} {c : γ} :
    x.map f = .ok c ↔ ∃ b, x = .ok b ∧ f b = c := by
  cases x <;> simp [Except.map]

/-- A field that reads a value stores what its decoder read. -/
theorem absorb_of_ok {σ α : Type} {name : String} {d : Decoder α} {set : α → σ → σ} {src : Source} {n : Node}
    {s s' : σ} (h : (Field.of name d set).absorb src n s = .ok s') : ∃ v, d src n = .ok v ∧ s' = set v s := by
  simp only [Field.of] at h
  cases hd : d src n with
  | error e => simp [hd, Except.map] at h
  | ok v =>
    simp only [hd, Except.map, Except.ok.injEq] at h
    exact ⟨v, rfl, h.symm⟩

end LotBridge.Json
