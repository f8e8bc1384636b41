import LotBridge.Proofs.StoredNumbers
import LotBridge.Proofs.TomlNodes
import LotBridge.Lot

/-!
# Lot records read back

The record form of a lot record is one object: `id` first, then the
attributes. Reading takes `id` and keeps every other member as an attribute,
the attributes sorted by name. A record reads back from its text when it is a
record as the type holds one (a 32-bit id, attributes that form a map of
values whose objects are maps), none of its attributes is named `id`, and no
value holds a float: an attribute named `id` is written after the id and the
second `id` is refused, and a float does not always read back as itself.

A record read from any text is such a record once its attributes hold no
float, so writing it and reading it again gives it back. The snapshot in the
record form of an active lot reads back in the same way.

## Main statements

* `LotRecord.decoder_object`: the record read from an object's members.
* `LotRecord.decoder_ok`: what every record read has.
* `LotRecord.decodeText_render`, `LotRecord.decodeText_render_of_decodeText`,
  `ActiveLot.snapshot_readBack`.
-/

namespace LotBridge

open LotBridge.Json

/-! ## The member loop of a record that keeps its unknown members -/

section Leftovers

variable {σ : Type} (fields : List (Json.Field σ)) (src : Source) (seen : List String) (st : σ)

/-- Members whose keys no field knows are kept one after the other, whatever
follows them. -/
theorem members_buffered_append : ∀ (fs : List (String × Json)) (ms rest : List (Option Key × Node))
    (left : Leftovers), Node.forgetMembers ms = fieldsToNodes fs →
    (∀ kv ∈ fs, fields.find? (·.name == kv.1) = none) →
      decodeStruct.members fields true src seen st left (ms ++ rest) =
        decodeStruct.members fields true src seen st (left ++ fs.map fun kv => (kv.1, toNode kv.2))
          rest
  | [], ms, rest, left, hms, _ => by
    rw [forgetMembers_eq_nil hms]
    simp
  | (k, v) :: fs, ms, rest, left, hms, hfind => by
    obtain ⟨a, b, n, ms', rfl, hn, hms'⟩ := forgetMembers_eq_cons hms
    rw [List.cons_append, members_buffered src fields seen st left k a b n _
      (hfind (k, v) List.mem_cons_self) (strictFault_of_forget hn), hn,
      members_buffered_append fs ms' rest _ hms' fun kv hkv => hfind kv (List.mem_cons_of_mem _ hkv)]
    simp

/-- Every member the loop keeps was kept before it started, or is a member no
field knows, holding numbers of the members read. -/
theorem mem_members_leftovers (ms : List (Option Key × Node)) : ∀ (seen : List String) (st : σ)
    (left : Leftovers) {r : List String × σ × Leftovers},
    decodeStruct.members fields true src seen st left ms = .ok r →
    ∀ kv ∈ r.2.2, kv ∈ left ∨
      (fields.find? (·.name == kv.1) = none ∧ ∀ m ∈ kv.2.numbers, m ∈ Node.membersNumbers ms) := by
  induction ms with
  | nil =>
    intro seen st left r h kv hkv
    simp only [decodeStruct.members, Except.ok.injEq] at h
    rw [← h] at hkv
    exact .inl hkv
  | cons member rest ih =>
    intro seen st left r h
    obtain ⟨key, v⟩ := member
    -- the numbers of the members after this one are numbers of the members read
    have hrest : ∀ m ∈ Node.membersNumbers rest, m ∈ Node.membersNumbers ((key, v) :: rest) :=
      fun m hm => List.mem_append_right _ hm
    rcases key with _ | ⟨_ | name, a, colon⟩
    · simp [decodeStruct.members] at h
    · simp [decodeStruct.members] at h
    rw [decodeStruct.members] at h
    split at h
    · -- a known member leaves the kept members as they are
      split at h
      · exact absurd h (by simp)
      · split at h
        · exact absurd h (by simp)
        · intro kv hkv
          exact (ih _ _ left h kv hkv).imp_right
            fun hknown => ⟨hknown.1, fun m hm => hrest m (hknown.2 m hm)⟩
    · -- an unknown member is kept without places
      rename_i hfind
      simp only [if_true] at h
      split at h
      · exact absurd h (by simp)
      · intro kv hkv
        rcases ih _ _ _ h kv hkv with hkv | ⟨hfind', hnum⟩
        · rcases List.mem_append.1 hkv with hkv | hkv
          · exact .inl hkv
          · rw [List.mem_singleton.1 hkv]
            refine .inr ⟨hfind, fun m hm => ?_⟩
            rw [numbers_forget] at hm
            exact List.mem_append_left _ hm
        · exact .inr ⟨hfind', fun m hm => hrest m (hnum m hm)⟩

end Leftovers

/-- Every element of a list mapped without failure comes from an element of
the list. -/
theorem mem_of_mapM_eq_ok {ε α β : Type} {f : α → Except ε β} :
    ∀ {xs : List α} {ys : List β}, xs.mapM f = .ok ys → ∀ y ∈ ys, ∃ x ∈ xs, f x = .ok y
  | [], _, h, y, hy => by
    simp only [List.mapM_nil] at h
    cases h
    simp at hy
  | x :: xs, ys, h, y, hy => by
    rw [List.mapM_cons] at h
    obtain ⟨z, hz, h⟩ := bind_eq_ok.1 h
    obtain ⟨zs, hzs, h⟩ := bind_eq_ok.1 h
    cases h
    rcases List.mem_cons.1 hy with rfl | hy
    · exact ⟨x, List.mem_cons_self, hz⟩
    · obtain ⟨x', hx', hfx'⟩ := mem_of_mapM_eq_ok hzs y hy
      exact ⟨x', List.mem_cons_of_mem _ hx', hfx'⟩

/-- Nodes of values read back one by one, each as its value with its objects
sorted. -/
theorem mapM_toNode {f : String × Node → Except DecodeError (String × Json)}
    (hf : ∀ kv : String × Json, f (kv.1, toNode kv.2) = .ok (kv.1, sortMaps kv.2)) :
    ∀ fs : List (String × Json), (fs.map fun kv => (kv.1, toNode kv.2)).mapM f =
      .ok (fs.map fun kv => (kv.1, sortMaps kv.2))
  | [] => rfl
  | kv :: fs => by
    simp only [List.map_cons, List.mapM_cons, hf kv, mapM_toNode hf fs]
    rfl

/-- Members whose values are maps at every depth are left as they are. -/
theorem map_sortMaps_of_canonical {fs : List (String × Json)} (h : ∀ kv ∈ fs, Canonical kv.2) :
    (fs.map fun kv => (kv.1, sortMaps kv.2)) = fs := by
  conv => rhs; rw [← List.map_id fs]
  refine List.map_congr_left fun kv hkv => ?_
  rw [sortMaps_of_canonical kv.2 (h kv hkv)]
  rfl

theorem Decoder.uint_lt {bits : Nat} {name : String} {src : Source} {n : Node} {v : Nat}
    (h : Decoder.uint bits name src n = .ok v) : v < 2 ^ bits := by
  unfold Decoder.uint at h
  split at h
  · split at h
    · rename_i hlt
      cases h
      simpa [Nat.pow_eq] using hlt
    · exact absurd h (by simp [valueError])
  · exact absurd h (by simp [valueError])
  · exact absurd h (typeError_ne_ok _ _ _)

namespace LotRecord

theorem fields_find_id :
    fields.find? (·.name == "id") = some (Field.of "id" (Decoder.uint 32 "u32") fun v _ => some v) :=
  rfl

theorem fields_find_of_ne {k : String} (hk : k ≠ "id") : fields.find? (·.name == k) = none := by
  simp [fields, Field.of, Ne.symm hk]

/-- The id field stores only 32-bit numbers. -/
theorem fields_keep_id (src : Source) : FieldsKeep (fun st : Partial => ∀ v, st = some v → v < 2 ^ 32)
    (fun _ => True) src fields := by
  intro fld hfld n s s' _ _ habs v hv
  simp only [fields, List.mem_singleton] at hfld
  subst hfld
  obtain ⟨w, hw, rfl⟩ := absorb_of_ok habs
  cases hv
  exact Decoder.uint_lt hw

/-- The record read from an object whose members are `pre`, the id and
`post`, none of the others named `id`: the id, and the other members sorted by
name, each value with its objects sorted. -/
theorem decoder_object (src : Source) {a : Pos} {f : Option Pos} {ms : List (Option Key × Node)}
    (pre post : List (String × Json)) {id : Nat} (hid : id < 2 ^ 32)
    (hms : Node.forgetMembers ms = fieldsToNodes (pre ++ ("id", Json.nat id) :: post))
    (hkeys : "id" ∉ (pre ++ post).map Prod.fst) :
    decoder src (.object a ms f) =
      .ok ⟨id, Fields.ofPairs ((pre ++ post).map fun kv => (kv.1, sortMaps kv.2))⟩ := by
  have hunknown : ∀ kv ∈ pre ++ post, fields.find? (·.name == kv.1) = none := by
    intro kv hkv
    refine fields_find_of_ne fun hk => hkeys ?_
    exact List.mem_map.2 ⟨kv, hkv, hk⟩
  obtain ⟨ms₁, ms₂, rfl, hms₁, hms₂⟩ := forgetMembers_eq_append hms
  obtain ⟨b, c, n, ms', rfl, hn, hms'⟩ := forgetMembers_eq_cons hms₂
  have habs : (Field.of "id" (Decoder.uint 32 "u32") fun v (_ : Partial) => some v).absorb src n none =
      .ok (some id) := by
    simp [Field.of, Decoder.uint_read src "u32" hid (by decide) hn, Except.map]
  -- the members before the id are kept, the id is read, and the members after it are kept
  have hmembers : decodeStruct.members fields true src [] none [] (ms₁ ++ (some ⟨.ok "id", b, c⟩, n) :: ms') =
      .ok (["id"], some id, (pre ++ post).map fun kv => (kv.1, toNode kv.2)) := by
    rw [members_buffered_append fields src [] none pre ms₁ _ [] hms₁
        fun kv hkv => hunknown kv (List.mem_append_left _ hkv),
      members_known src fields true [] none _ "id" b c n ms' _ (some id) fields_find_id (by simp) habs]
    simp only [List.nil_append]
    rw [members_leftovers src fields ["id"] (some id) post ms' _ hms'
        fun kv hkv => hunknown kv (List.mem_append_right _ hkv)]
    simp
  simp only [decoder, decodeStruct, hmembers, required, bind, Except.bind]
  rw [mapM_toNode]
  · rfl
  · intro kv
    simp [toJson_toNode, Except.map]

/-- Every record read has a 32-bit id, and attributes that form a map, none
named `id`, of values whose objects are maps and whose numbers are numbers of
the node read. -/
theorem decoder_ok {src : Source} {n : Node} {r : LotRecord} (h : decoder src n = .ok r) :
    r.id < 2 ^ 32 ∧ KeySorted r.attributes ∧ "id" ∉ r.attributes.map Prod.fst ∧
      ∀ kv ∈ r.attributes, Canonical kv.2 ∧ ∀ m ∈ kv.2.numbers, m ∈ n.numbers := by
  unfold decoder decodeStruct at h
  split at h
  · rename_i ms _
    split at h
    · exact absurd h (by simp)
    · rename_i seen st left hms
      obtain ⟨id, hid, h⟩ := bind_eq_ok.1 (eq_of_placeAt_ok h)
      obtain ⟨pairs, hpairs, h⟩ := bind_eq_ok.1 h
      cases h
      -- the id is the 32-bit number the id field stored
      have hst : st = some id := by
        cases st with
        | none => simp [required, missingField, refuse] at hid
        | some v => simpa [required] using hid
      have hkeep := members_keep (fields_keep_id src) true ms [] none [] (r := (seen, st, left))
        (by simp) (fun _ _ => trivial) hms
      -- every attribute is a kept member, read back
      have hattr : ∀ kv ∈ pairs, kv.1 ≠ "id" ∧ Canonical kv.2 ∧
          ∀ m ∈ kv.2.numbers, m ∈ Node.membersNumbers ms := by
        intro kv hkv
        obtain ⟨⟨k, node⟩, hleft, hread⟩ := mem_of_mapM_eq_ok hpairs kv hkv
        obtain ⟨j, hj, rfl⟩ := map_eq_ok.1 hread
        rcases mem_members_leftovers fields src ms [] none [] hms (k, node) hleft with
          hnil | ⟨hfind, hnum⟩
        · simp at hnil
        · refine ⟨fun hk => ?_, canonical_of_toJson node j hj,
            fun m hm => hnum m (mem_numbers_of_toJson node j hj m hm)⟩
          rw [hk, fields_find_id] at hfind
          simp at hfind
      refine ⟨hkeep id hst, Fields.ofPairs_keySorted pairs, fun hmem => ?_, fun kv hkv => ?_⟩
      · obtain ⟨kv, hkv, hk⟩ := List.mem_map.1 hmem
        exact (hattr kv (Fields.mem_ofPairs hkv)).1 hk
      · obtain ⟨_, hcanon, hnum⟩ := hattr kv (Fields.mem_ofPairs hkv)
        exact ⟨hcanon, hnum⟩
  · -- a record that keeps its unknown members is not read from an array
    split at h
    · exact absurd h (typeError_ne_ok _ _ _)
    all_goals contradiction
  · exact absurd h (typeError_ne_ok _ _ _)

/-- A record as the type holds one, with no attribute named `id` and no float
among its values, reads back from its record form. -/
theorem decodeText_render {r : LotRecord} (hid : r.id < 2 ^ 32) (hsorted : KeySorted r.attributes)
    (hkeys : "id" ∉ r.attributes.map Prod.fst)
    (hvalues : ∀ kv ∈ r.attributes, Canonical kv.2 ∧ Exact kv.2) :
    decodeText decoder (render r.toJson) = .ok r := by
  have hexact : Exact r.toJson :=
    ⟨exact_nat r.id, (exactFields_iff _).2 fun kv hkv => (hvalues kv hkv).2⟩
  have hcanon : ∀ kv ∈ r.attributes, Canonical kv.2 := fun kv hkv => (hvalues kv hkv).1
  obtain ⟨n, hdoc, hn⟩ := readDocument_render r.toJson hexact
  obtain ⟨a, ms, f, rfl, hms⟩ := forget_eq_object hn
  -- the id comes first, with no member before it
  have hread : decoder .text (.object a ms f) = .ok r := by
    rw [decoder_object .text [] r.attributes hid hms (by simpa using hkeys), List.nil_append,
      map_sortMaps_of_canonical hcanon, Fields.ofPairs_of_keySorted hsorted]
  simp only [decodeText, hdoc, hread]
  rfl

/-- A record read from any text, with no float in its attributes, reads back
from its record form: writing after reading is stable. -/
theorem decodeText_render_of_decodeText {t : String} {r : LotRecord}
    (h : decodeText decoder t = .ok r)
    (hfloat : ∀ kv ∈ r.attributes, ∀ m ∈ kv.2.numbers, m.isFloat = false) :
    decodeText decoder (render r.toJson) = .ok r := by
  simp only [decodeText] at h
  obtain ⟨r', hr', h⟩ := bind_eq_ok.1 h
  have hr : r' = r := by
    split at h
    · cases h
    · exact Except.ok.inj h
  subst hr
  obtain ⟨hid, hsorted, hkeys, hattrs⟩ := decoder_ok hr'
  refine decodeText_render hid hsorted hkeys fun kv hkv => ⟨(hattrs kv hkv).1, ?_⟩
  -- the numbers of an attribute are numbers the reader stored, and none is a float
  apply exact_of_numbers
  intro m hm
  exact ⟨stored_readDocument t m ((hattrs kv hkv).2 m hm), hfloat kv hkv m hm⟩

/-- The record read from the map of the id and the attributes. -/
theorem decodeValue_ofPairs {id : Nat} {attrs : List (String × Json)} (hid : id < 2 ^ 32)
    (hsorted : KeySorted attrs) (hkeys : "id" ∉ attrs.map Prod.fst)
    (hcanon : ∀ kv ∈ attrs, Canonical kv.2) :
    decodeValue decoder (.object (Fields.ofPairs (("id", Json.nat id) :: attrs))) = .ok ⟨id, attrs⟩ := by
  have hnodup : ((("id", Json.nat id) :: attrs).map Prod.fst).Nodup :=
    List.nodup_cons.2 ⟨hkeys, hsorted.nodup_keys⟩
  have hperm := Fields.ofPairs_perm hnodup
  -- the map has the id somewhere among the attributes
  obtain ⟨pre, post, hsplit⟩ := List.append_of_mem (hperm.mem_iff.2 List.mem_cons_self)
  have hmid : ("id" :: (pre ++ post).map Prod.fst).Nodup := by
    have hkeys' := (Fields.ofPairs_keySorted (("id", Json.nat id) :: attrs)).nodup_keys
    rw [hsplit, List.map_append, List.map_cons] at hkeys'
    rw [List.map_append]
    exact List.perm_middle.nodup_iff.1 hkeys'
  have hrest : (pre ++ post).Perm attrs := by
    rw [hsplit] at hperm
    exact (List.perm_middle.symm.trans hperm).cons_inv
  have hms : Node.forgetMembers (fieldsToNodes (Fields.ofPairs (("id", Json.nat id) :: attrs))) =
      fieldsToNodes (pre ++ ("id", Json.nat id) :: post) := by
    rw [forgetMembers_fieldsToNodes, hsplit]
  simp only [decodeValue, toNode]
  rw [decoder_object .value pre post hid hms (List.nodup_cons.1 hmid).1,
    map_sortMaps_of_canonical fun kv hkv => hcanon kv (hrest.mem_iff.1 hkv),
    Fields.ofPairs_eq_of_perm hrest (List.nodup_cons.1 hmid).2 hsorted]

end LotRecord

namespace ActiveLot

/-- The snapshot in the record form of an active lot reads back as the
snapshot, for a snapshot that reads back from its own record form. -/
theorem snapshot_readBack {a : ActiveLot} (hid : a.snapshot.id < 2 ^ 32)
    (hsorted : KeySorted a.snapshot.attributes) (hkeys : "id" ∉ a.snapshot.attributes.map Prod.fst)
    (hvalues : ∀ kv ∈ a.snapshot.attributes, Canonical kv.2 ∧ Exact kv.2) :
    ∃ j s, parse (render a.toJson) = .ok j ∧ j.get? "lot_snapshot" = some s ∧
      decodeValue LotRecord.decoder s = .ok a.snapshot := by
  have hcanon : ∀ kv ∈ a.snapshot.attributes, Canonical kv.2 := fun kv hkv => (hvalues kv hkv).1
  have hexact : Exact a.toJson :=
    ⟨trivial, trivial, ⟨trivial, (exactFields_iff _).2 fun kv hkv => (hvalues kv hkv).2⟩, trivial, trivial⟩
  refine ⟨sortMaps a.toJson, sortMaps a.snapshot.toJson, parse_render_of_exact hexact, ?_, ?_⟩
  · -- the members of the record form are sorted, and the snapshot is one of them
    have hnodup : ((sortMapsFields [("line", Json.nat a.line.number), ("lot_id", Json.nat a.lotId),
        ("lot_snapshot", a.snapshot.toJson), ("activated_at_ms", Json.nat a.activatedAt)]).map
          Prod.fst).Nodup := by
      simp [sortMapsFields]
    apply get?_of_mem (Fields.ofPairs_keySorted _).nodup_keys
    exact (Fields.ofPairs_perm hnodup).mem_iff.2 (by simp [sortMapsFields])
  · have hsnapshot : sortMaps a.snapshot.toJson =
        .object (Fields.ofPairs (("id", Json.nat a.snapshot.id) :: a.snapshot.attributes)) := by
      rw [LotRecord.toJson, sortMaps, sortMapsFields,
        sortMapsFields_of_canonical _ ((canonicalFields_iff _).2 hcanon)]
      rfl
    rw [hsnapshot]
    exact LotRecord.decodeValue_ofPairs hid hsorted hkeys hcanon

end ActiveLot

/-- A lot record reads back from its record form, for every record the type
holds with no attribute named `id` and no float among its values; a record
read from any text with no float in its attributes reads back once written
again; and the snapshot in the record form of an active lot reads back as the
snapshot. -/
theorem lotRecords_readBack :
    (∀ r : LotRecord, r.id < 2 ^ 32 → KeySorted r.attributes → "id" ∉ r.attributes.map Prod.fst →
      (∀ kv ∈ r.attributes, Canonical kv.2 ∧ Exact kv.2) →
      decodeText LotRecord.decoder (render r.toJson) = .ok r) ∧
    (∀ (t : String) (r : LotRecord), decodeText LotRecord.decoder t = .ok r →
      (∀ kv ∈ r.attributes, ∀ m ∈ kv.2.numbers, m.isFloat = false) →
      decodeText LotRecord.decoder (render r.toJson) = .ok r) ∧
    (∀ a : ActiveLot, a.snapshot.id < 2 ^ 32 → KeySorted a.snapshot.attributes →
      "id" ∉ a.snapshot.attributes.map Prod.fst →
      (∀ kv ∈ a.snapshot.attributes, Canonical kv.2 ∧ Exact kv.2) →
      ∃ j s, parse (render a.toJson) = .ok j ∧ j.get? "lot_snapshot" = some s ∧
        decodeValue LotRecord.decoder s = .ok a.snapshot) :=
  ⟨fun _ hid hsorted hkeys hvalues => LotRecord.decodeText_render hid hsorted hkeys hvalues,
    fun _ _ h hfloat => LotRecord.decodeText_render_of_decodeText h hfloat,
    fun _ hid hsorted hkeys hvalues => ActiveLot.snapshot_readBack hid hsorted hkeys hvalues⟩

/-- The potted lot of the record form's own test, read back, and the lot
activated on line two with it. -/
theorem lotRecords_readBack_onPottedLot :
    let r : LotRecord := ⟨42, [("pot_size", Json.nat 12), ("variety", .string "Phalaenopsis")]⟩
    let a : ActiveLot := ⟨.two, 42, r, 1700000000000⟩
    (r.id < 2 ^ 32 ∧ KeySorted r.attributes ∧ "id" ∉ r.attributes.map Prod.fst ∧
      (∀ kv ∈ r.attributes, Canonical kv.2 ∧ Exact kv.2) ∧
      ∀ kv ∈ r.attributes, ∀ m ∈ kv.2.numbers, m.isFloat = false) ∧
    decodeText LotRecord.decoder (render r.toJson) = .ok r ∧
    ∃ j s, parse (render a.toJson) = .ok j ∧ j.get? "lot_snapshot" = some s ∧
      decodeValue LotRecord.decoder s = .ok a.snapshot := by
  intro r a
  have hid : r.id < 2 ^ 32 := by decide
  have hsorted : KeySorted r.attributes := by
    have hlt : "pot_size" < "variety" := by decide
    exact List.pairwise_pair.2 hlt
  have hkeys : "id" ∉ r.attributes.map Prod.fst := by simp [r]
  have hvalues : ∀ kv ∈ r.attributes, Canonical kv.2 ∧ Exact kv.2 := by
    intro kv hkv
    simp only [r, List.mem_cons, List.not_mem_nil, or_false] at hkv
    rcases hkv with rfl | rfl <;> exact ⟨trivial, trivial⟩
  have hfloat : ∀ kv ∈ r.attributes, ∀ m ∈ kv.2.numbers, m.isFloat = false := by
    intro kv hkv m hm
    simp only [r, List.mem_cons, List.not_mem_nil, or_false] at hkv
    rcases hkv with rfl | rfl <;> simp_all [numbers, Json.nat, Number.isFloat]
  have hread := lotRecords_readBack.1 r hid hsorted hkeys hvalues
  exact ⟨⟨hid, hsorted, hkeys, hvalues, hfloat⟩, lotRecords_readBack.2.1 _ r hread hfloat,
    lotRecords_readBack.2.2 a hid hsorted hkeys hvalues⟩

/-- A record with an attribute named `id` does not read back: its record form
holds `id` twice, and the reader refuses the second. -/
theorem idAttribute_refused :
    render (LotRecord.toJson ⟨42, [("id", .string "x")]⟩) = "\x7b\"id\":42,\"id\":\"x\"\x7d" ∧
      (decodeText LotRecord.decoder (render (LotRecord.toJson ⟨42, [("id", .string "x")]⟩))).toOption =
        none := by
  constructor <;> decide +kernel

end LotBridge
