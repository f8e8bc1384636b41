import LotBridge.Proofs.RecordDecoding

/-!
# Objects as maps

A JSON object read as a value is a map: `Fields.ofPairs` sorts its members by
key and keeps, of two members with one key, the later one. The member lists
sorted by a strict order of their keys (`KeySorted`) are the maps. `ofPairs`
keeps such a list as it is, and sorts a list whose keys are distinct into the
one map with its members.

A value read back from its node has every object sorted so (`sortMaps`). A
value whose objects are all maps at every depth (`Canonical`) reads back as
itself, and every value read from a node is one.

## Main statements

* `Fields.ofPairs_keySorted`, `Fields.mem_ofPairs`: what `ofPairs` builds.
* `Fields.ofPairs_eq_of_perm`, `Fields.ofPairs_of_keySorted`: on distinct
  keys `ofPairs` only sorts.
* `get?_of_mem`: a member of a map is found by its key.
* `toJson_toNode`, `parse_render_of_exact`: what a value reads back as.
* `sortMaps_of_canonical`, `canonical_of_toJson`.
-/

namespace LotBridge.Json

/-- Members sorted by a strict order of their keys: the members of a map. -/
def KeySorted (fs : List (String × Json)) : Prop := fs.Pairwise (·.1 < ·.1)

theorem KeySorted.nodup_keys {fs : List (String × Json)} (h : KeySorted fs) :
    (fs.map Prod.fst).Nodup :=
  (List.pairwise_map.2 h).nodup

/-- A member of a map is found by its key. -/
theorem get?_of_mem {fs : List (String × Json)} {k : String} {v : Json}
    (hkeys : (fs.map Prod.fst).Nodup) (hmem : (k, v) ∈ fs) : (Json.object fs).get? k = some v := by
  simp only [get?]
  cases hfind : fs.find? (·.1 == k) with
  | none =>
    have := List.find?_eq_none.1 hfind (k, v) hmem
    simp at this
  | some kv =>
    have hkv : kv ∈ fs := List.mem_of_find?_eq_some hfind
    have hkey : kv.1 = k := by simpa using List.find?_some hfind
    have : kv = (k, v) := List.inj_on_of_nodup_map hkeys hkv hmem hkey
    simp [this]

namespace Fields

variable {key : String} {value : Json}

theorem mem_insert {kv : String × Json} {fs : List (String × Json)}
    (h : kv ∈ insert key value fs) : kv = (key, value) ∨ kv ∈ fs := by
  induction fs with
  | nil => simpa [insert] using h
  | cons hd rest ih =>
    obtain ⟨k, v⟩ := hd
    rw [insert] at h
    split_ifs at h <;> grind

theorem insert_keySorted {fs : List (String × Json)} (h : KeySorted fs) :
    KeySorted (insert key value fs) := by
  induction fs with
  | nil => simp [insert, KeySorted]
  | cons hd rest ih =>
    obtain ⟨k, v⟩ := hd
    have hrest : KeySorted rest := List.Pairwise.of_cons h
    have hk : ∀ kv ∈ rest, k < kv.1 := fun _ hkv => List.rel_of_pairwise_cons h hkv
    rw [insert]
    split_ifs with hlt heq
    · -- the new key goes first, below `k` and so below every key after it
      refine List.Pairwise.cons (fun kv hkv => ?_) h
      rcases List.mem_cons.1 hkv with rfl | hmem
      · exact hlt
      · exact lt_trans hlt (hk kv hmem)
    · subst heq
      exact List.Pairwise.cons hk hrest
    · have hgt : k < key := lt_of_le_of_ne (not_lt.1 hlt) (Ne.symm heq)
      refine List.Pairwise.cons (fun kv hkv => ?_) (ih hrest)
      rcases mem_insert hkv with rfl | hmem
      · exact hgt
      · exact hk kv hmem

/-- A new key is added where it belongs and nothing else changes. -/
theorem insert_perm {fs : List (String × Json)} (hk : key ∉ fs.map Prod.fst) :
    (insert key value fs).Perm ((key, value) :: fs) := by
  induction fs with
  | nil => simp [insert]
  | cons hd rest ih =>
    obtain ⟨k, v⟩ := hd
    simp only [List.map_cons, List.mem_cons, not_or] at hk
    rw [insert]
    split_ifs with hlt heq
    · exact List.Perm.refl _
    · exact absurd heq hk.1
    · exact ((ih hk.2).cons (k, v)).trans (List.Perm.swap _ _ _)

/-- The step of `ofPairs`: the next pair goes into the members built so far. -/
def insertPair (acc : List (String × Json)) (kv : String × Json) : List (String × Json) :=
  insert kv.1 kv.2 acc

theorem ofPairs_eq_foldl (ps : List (String × Json)) : ofPairs ps = ps.foldl insertPair [] := rfl

theorem foldl_insertPair_keySorted (ps : List (String × Json)) {acc : List (String × Json)}
    (h : KeySorted acc) : KeySorted (ps.foldl insertPair acc) := by
  induction ps generalizing acc with
  | nil => exact h
  | cons kv ps ih => exact ih (insert_keySorted h)

theorem mem_foldl_insertPair {kv : String × Json} (ps : List (String × Json))
    {acc : List (String × Json)} (h : kv ∈ ps.foldl insertPair acc) : kv ∈ ps ∨ kv ∈ acc := by
  induction ps generalizing acc with
  | nil => exact .inr h
  | cons p ps ih =>
    rcases ih h with hps | hacc
    · exact .inl (List.mem_cons_of_mem _ hps)
    · rcases mem_insert hacc with rfl | hacc
      · exact .inl List.mem_cons_self
      · exact .inr hacc

/-- Inserting pairs with distinct keys, none of them among the members built
so far, only adds them. -/
theorem foldl_insertPair_perm (ps acc : List (String × Json))
    (h : (acc.map Prod.fst ++ ps.map Prod.fst).Nodup) :
    (ps.foldl insertPair acc).Perm (ps ++ acc) := by
  induction ps generalizing acc with
  | nil => simp
  | cons kv ps ih =>
    have hmid : (kv.1 :: (acc.map Prod.fst ++ ps.map Prod.fst)).Nodup :=
      List.perm_middle.nodup_iff.1 (by simpa using h)
    have hnew : kv.1 ∉ acc.map Prod.fst := fun hmem =>
      (List.nodup_cons.1 hmid).1 (List.mem_append_left _ hmem)
    have hins : (insertPair acc kv).Perm (kv :: acc) := insert_perm hnew
    have hnodup : ((insertPair acc kv).map Prod.fst ++ ps.map Prod.fst).Nodup :=
      ((hins.map Prod.fst).append_right _).nodup_iff.2 hmid
    calc List.Perm (ps.foldl insertPair (insertPair acc kv)) (ps ++ insertPair acc kv) :=
          ih _ hnodup
      List.Perm _ (ps ++ kv :: acc) := hins.append_left ps
      List.Perm _ (kv :: ps ++ acc) := List.perm_middle

/-- `ofPairs` always builds a map. -/
theorem ofPairs_keySorted (ps : List (String × Json)) : KeySorted (ofPairs ps) :=
  foldl_insertPair_keySorted ps List.Pairwise.nil

/-- Every member `ofPairs` keeps is one of its pairs. -/
theorem mem_ofPairs {kv : String × Json} {ps : List (String × Json)} (h : kv ∈ ofPairs ps) :
    kv ∈ ps :=
  (mem_foldl_insertPair ps h).resolve_right List.not_mem_nil

theorem ofPairs_perm {ps : List (String × Json)} (h : (ps.map Prod.fst).Nodup) :
    (ofPairs ps).Perm ps := by
  rw [ofPairs_eq_foldl]
  simpa using foldl_insertPair_perm ps [] (by simpa using h)

/-- Pairs with distinct keys are sorted by `ofPairs` into the map with the
same members. -/
theorem ofPairs_eq_of_perm {ps fs : List (String × Json)} (hp : ps.Perm fs)
    (hkeys : (ps.map Prod.fst).Nodup) (hs : KeySorted fs) : ofPairs ps = fs :=
  List.Perm.eq_of_pairwise (fun _ _ _ _ hab hba => absurd hab (lt_asymm hba))
    (ofPairs_keySorted ps) hs ((ofPairs_perm hkeys).trans hp)

/-- A map is kept as it is. -/
theorem ofPairs_of_keySorted {fs : List (String × Json)} (hs : KeySorted fs) : ofPairs fs = fs :=
  ofPairs_eq_of_perm (List.Perm.refl fs) hs.nodup_keys hs

end Fields

/-! ## Values whose objects are maps -/

mutual

/-- Values whose objects are all maps, at every depth. -/
def Canonical : Json → Prop
  | .array items => CanonicalItems items
  | .object fields => KeySorted fields ∧ CanonicalFields fields
  | _ => True

/-- Every element is canonical. -/
def CanonicalItems : List Json → Prop
  | [] => True
  | j :: rest => Canonical j ∧ CanonicalItems rest

/-- Every member's value is canonical. -/
def CanonicalFields : List (String × Json) → Prop
  | [] => True
  | (_, j) :: rest => Canonical j ∧ CanonicalFields rest

end

theorem canonicalFields_iff (fs : List (String × Json)) :
    CanonicalFields fs ↔ ∀ kv ∈ fs, Canonical kv.2 := by
  induction fs with
  | nil => simp [CanonicalFields]
  | cons kv fs ih =>
    obtain ⟨k, j⟩ := kv
    simp [CanonicalFields, ih]

theorem exactFields_iff (fs : List (String × Json)) : ExactFields fs ↔ ∀ kv ∈ fs, Exact kv.2 := by
  induction fs with
  | nil => simp [ExactFields]
  | cons kv fs ih =>
    obtain ⟨k, j⟩ := kv
    simp [ExactFields, ih]

mutual

/-- A value with every object sorted by key, of two members with one key the
later kept: the value a reader gives back for it. -/
def sortMaps : Json → Json
  | .array items => .array (sortMapsItems items)
  | .object fields => .object (Fields.ofPairs (sortMapsFields fields))
  | j => j

/-- `sortMaps` on each element. -/
def sortMapsItems : List Json → List Json
  | [] => []
  | j :: rest => sortMaps j :: sortMapsItems rest

/-- `sortMaps` on each member's value. -/
def sortMapsFields : List (String × Json) → List (String × Json)
  | [] => []
  | (k, j) :: rest => (k, sortMaps j) :: sortMapsFields rest

end

mutual

/-- A value's node reads back as the value with its objects sorted. -/
theorem toJson_toNode : ∀ j : Json, (toNode j).toJson = .ok (sortMaps j)
  | .null | .bool _ | .number _ | .string _ => rfl
  | .array xs => by
    simp only [toNode, Node.toJson, itemsToJson_toNodes xs, sortMaps]
    rfl
  | .object fs => by
    simp only [toNode, Node.toJson, membersToJson_fieldsToNodes fs, sortMaps]
    rfl

theorem itemsToJson_toNodes :
    ∀ xs : List Json, Node.itemsToJson (itemsToNodes xs) = .ok (sortMapsItems xs)
  | [] => rfl
  | x :: xs => by
    simp only [itemsToNodes, Node.itemsToJson, toJson_toNode x, itemsToJson_toNodes xs,
      sortMapsItems]
    rfl

theorem membersToJson_fieldsToNodes :
    ∀ fs : List (String × Json), Node.membersToJson (fieldsToNodes fs) = .ok (sortMapsFields fs)
  | [] => rfl
  | (_, v) :: fs => by
    simp only [fieldsToNodes, Node.membersToJson, toJson_toNode v, membersToJson_fieldsToNodes fs,
      sortMapsFields]
    rfl

end

mutual

/-- Places play no part in reading a node back as a value. -/
theorem toJson_forget : ∀ n : Node, n.forget.toJson = n.toJson
  | .null _ _ | .bool _ _ _ | .broken _ _ => rfl
  | .number v _ _ | .string v _ _ => by cases v <;> rfl
  | .array _ items _ => by
    simp only [Node.forget, Node.toJson, itemsToJson_forget items]
  | .object _ members _ => by
    simp only [Node.forget, Node.toJson, membersToJson_forget members]

theorem itemsToJson_forget :
    ∀ ns : List Node, Node.itemsToJson (Node.forgetItems ns) = Node.itemsToJson ns
  | [] => rfl
  | n :: ns => by
    simp only [Node.forgetItems, Node.itemsToJson, toJson_forget n, itemsToJson_forget ns]

theorem membersToJson_forget : ∀ ms : List (Option Key × Node),
    Node.membersToJson (Node.forgetMembers ms) = Node.membersToJson ms
  | [] => rfl
  | (none, b) :: _ => by
    simp only [Node.forgetMembers, Option.map_none, Node.membersToJson, strictFault_forget]
  | (some ⟨.error _, _, _⟩, _) :: _ => rfl
  | (some ⟨.ok _, _, _⟩, n) :: ms => by
    simp only [Node.forgetMembers, Option.map_some, Node.membersToJson, toJson_forget n,
      membersToJson_forget ms]

end

/-- The text of a value that reads back is read as the value with its objects
sorted as maps. -/
theorem parse_render_of_exact {j : Json} (hj : Exact j) : parse (render j) = .ok (sortMaps j) := by
  obtain ⟨n, hdoc, hn⟩ := readDocument_render j hj
  have hroot : n.toJson = .ok (sortMaps j) := by rw [← toJson_forget, hn, toJson_toNode]
  simp only [parse, hdoc, hroot]
  rfl

mutual

/-- A value whose objects are maps is left as it is. -/
theorem sortMaps_of_canonical : ∀ j : Json, Canonical j → sortMaps j = j
  | .null, _ | .bool _, _ | .number _, _ | .string _, _ => rfl
  | .array xs, h => by
    rw [sortMaps, sortMapsItems_of_canonical xs h]
  | .object fs, h => by
    rw [sortMaps, sortMapsFields_of_canonical fs h.2, Fields.ofPairs_of_keySorted h.1]

theorem sortMapsItems_of_canonical : ∀ xs : List Json, CanonicalItems xs → sortMapsItems xs = xs
  | [], _ => rfl
  | x :: xs, h => by
    rw [sortMapsItems, sortMaps_of_canonical x h.1, sortMapsItems_of_canonical xs h.2]

theorem sortMapsFields_of_canonical :
    ∀ fs : List (String × Json), CanonicalFields fs → sortMapsFields fs = fs
  | [], _ => rfl
  | (k, v) :: fs, h => by
    rw [sortMapsFields, sortMaps_of_canonical v h.1, sortMapsFields_of_canonical fs h.2]

end

mutual

/-- Every value read from a node has its objects sorted as maps. -/
theorem canonical_of_toJson : ∀ (n : Node) (j : Json), n.toJson = .ok j → Canonical j
  | .null _ _, _, h | .bool _ _ _, _, h | .number (.ok _) _ _, _, h | .string (.ok _) _ _, _, h => by
    cases h
    trivial
  | .number (.error _) _ _, _, h | .string (.error _) _ _, _, h | .broken _ _, _, h => by cases h
  | .array _ items _, j, h => by
    obtain ⟨js, hjs, rfl⟩ := map_eq_ok.1 h
    exact canonicalItems_of_itemsToJson items js hjs
  | .object _ members _, j, h => by
    obtain ⟨ps, hps, rfl⟩ := map_eq_ok.1 h
    have hvalues := (canonicalFields_iff ps).1 (canonicalFields_of_membersToJson members ps hps)
    exact ⟨Fields.ofPairs_keySorted ps,
      (canonicalFields_iff _).2 fun kv hkv => hvalues kv (Fields.mem_ofPairs hkv)⟩

theorem canonicalItems_of_itemsToJson :
    ∀ (ns : List Node) (js : List Json), Node.itemsToJson ns = .ok js → CanonicalItems js
  | [], _, h => by
    cases h
    trivial
  | n :: ns, js, h => by
    obtain ⟨j, hj, h⟩ := bind_eq_ok.1 h
    obtain ⟨js', hjs', h⟩ := bind_eq_ok.1 h
    cases h
    exact ⟨canonical_of_toJson n j hj, canonicalItems_of_itemsToJson ns js' hjs'⟩

theorem canonicalFields_of_membersToJson : ∀ (ms : List (Option Key × Node))
    (ps : List (String × Json)), Node.membersToJson ms = .ok ps → CanonicalFields ps
  | [], _, h => by
    cases h
    trivial
  | (none, _) :: _, _, h | (some ⟨.error _, _, _⟩, _) :: _, _, h => by cases h
  | (some ⟨.ok _, _, _⟩, n) :: ms, ps, h => by
    obtain ⟨j, hj, h⟩ := bind_eq_ok.1 h
    obtain ⟨ps', hps', h⟩ := bind_eq_ok.1 h
    cases h
    exact ⟨canonical_of_toJson n j hj, canonicalFields_of_membersToJson ms ps' hps'⟩

end

end LotBridge.Json
