import LotBridge.Proofs.RecordDecoding
import LotBridge.Proofs.LineFraming
import LotBridge.Proofs.ChunkedLines
import LotBridge.Wire.Envelope
import LotBridge.Wire.Response

/-!
# Gateway lines read back

Envelopes and responses travel as lines of compact JSON. Every value whose
numbers fit their wire types comes back from its line: the line is one line,
the reader, called line by line on a stream of such lines cut into any
chunks, gives exactly those lines, and each line decodes to the value
written.

A request travels flattened into its envelope, beside `seq`: the envelope's
decoder takes `seq` and buffers the other members without places, and the
request is read from those. A response's absent members are left out of its
line and read back as absent.

## Main definitions

* `Request.Fits`, `Envelope.Fits`, `Response.Fits`: numbers within their
  wire types.

## Main statements

* `Envelope.parse_encodeLine`, `Response.parse_encodeLine`.
* `wire_lines_roundTrip`: streams of envelope lines and of response lines.
-/

namespace LotBridge

open Json Text

/-! ## Compact text is one line -/

namespace Json

theorem hexDigit_ne_lineBreak {d : Nat} (h : d < 16) : hexDigit d ≠ '\n' := by
  intro heq
  have := hexDigit_toNat h
  rw [heq] at this
  split_ifs at this <;> simp at this <;> omega

theorem lineBreak_notMem_escapeChar (c : Char) : '\n' ∉ escapeChar c := by
  unfold escapeChar
  split_ifs with h1 h2 h3 h4 h5 h6 h7 h8
  -- the short escapes are closed lists
  all_goals try decide
  · simp only [List.mem_cons, List.not_mem_nil, or_false, not_or]
    exact ⟨by decide, by decide, by decide, by decide, (hexDigit_ne_lineBreak (by omega)).symm,
      (hexDigit_ne_lineBreak (Nat.mod_lt _ (by decide))).symm⟩
  · simpa [List.mem_singleton, eq_comm] using h3

theorem lineBreak_notMem_quote (s : String) : '\n' ∉ (quote s).toList := by
  simp [quote_toList, lineBreak_notMem_escapeChar]

theorem lineBreak_notMem_toDigits (n : Nat) : '\n' ∉ Nat.toDigits 10 n := fun h =>
  absurd (isDigit_of_mem_toDigits h) (by decide)

mutual

/-- The compact text of an exact value has no line break: strings escape
theirs. -/
theorem lineBreak_notMem_render : ∀ j : Json, Exact j → '\n' ∉ (render j).toList
  | .null, _ => by decide
  | .bool b, _ => by cases b <;> decide
  | .number (.natural n), _ => by
    rw [render_natural]
    exact lineBreak_notMem_toDigits _
  | .number (.negative n), h => by
    rw [render_negative n h, List.mem_cons, not_or]
    exact ⟨by decide, lineBreak_notMem_toDigits _⟩
  | .number (.float _), h => h.elim
  | .string s, _ => lineBreak_notMem_quote s
  | .array xs, h => by
    rw [render_array]
    simpa using lineBreak_notMem_renderItems xs h
  | .object fs, h => by
    rw [render_object]
    simpa using lineBreak_notMem_renderFields fs h

theorem lineBreak_notMem_renderItems : ∀ xs : List Json, ExactItems xs →
    '\n' ∉ (renderItems xs).toList
  | [], _ => by simp [renderItems]
  | [x], h => by simpa [renderItems] using lineBreak_notMem_render x h.1
  | x :: y :: rest, h => by
    have hx := lineBreak_notMem_render x h.1
    have hrest := lineBreak_notMem_renderItems (y :: rest) h.2
    simp only [renderItems] at hrest ⊢
    simp [hx, hrest]

theorem lineBreak_notMem_renderFields : ∀ fs : List (String × Json), ExactFields fs →
    '\n' ∉ (renderFields fs).toList
  | [], _ => by simp [renderFields]
  | [(k, v)], h => by
    simpa [renderFields, lineBreak_notMem_quote] using lineBreak_notMem_render v h.1
  | (k, v) :: kv :: rest, h => by
    have hv := lineBreak_notMem_render v h.1
    have hrest := lineBreak_notMem_renderFields (kv :: rest) h.2
    simp only [renderFields] at hrest ⊢
    simp [hv, hrest, lineBreak_notMem_quote]

end

/-- The line of an exact value is one line. -/
theorem oneLine_render (j : Json) (hj : Exact j) : Wire.OneLine (render j ++ "\n") :=
  ⟨render j, rfl, lineBreak_notMem_render j hj⟩

/-- Blanks at the end of a line go, and with them nothing of an object's text. -/
theorem trimEnd_render_object (fs : List (String × Json)) :
    trimEnd (render (.object fs) ++ "\n") = render (.object fs) := by
  rw [trimEnd_append_blanks _ _ (by simp [isBlank])]
  have hlast : (render (.object fs)).toList.reverse =
      '}' :: ((renderFields fs).toList.reverse ++ ['{']) := by
    simp [render_object]
  rw [trimEnd, hlast, List.dropWhile_cons_of_neg (by decide), ← hlast, List.reverse_reverse,
    String.ofList_toList]

/-! ## Decoders on values without places -/

variable (src : Source)

theorem Decoder.uint_value {k bits : Nat} (name : String) (hk : k < 2 ^ bits) (hbits : bits ≤ 64) :
    Decoder.uint bits name src (toNode (Json.nat k)) = .ok k :=
  Decoder.uint_read src name hk hbits (forget_toNode _)

theorem Decoder.int64_value {v : Int} (hlo : -2 ^ 63 ≤ v) (hhi : v < 2 ^ 63) :
    Decoder.int64 src (toNode (Json.int v)) = .ok v :=
  Decoder.int64_read src hlo hhi (forget_toNode _)

theorem Decoder.string_value (s : String) : Decoder.string src (toNode (.string s)) = .ok s :=
  Decoder.string_read src (forget_toNode _)

theorem Decoder.option_value {α : Type} (d : Decoder α) {j : Json} (hj : j ≠ .null) :
    Decoder.option d src (toNode j) = (d src (toNode j)).map some :=
  Decoder.option_read src d hj (forget_toNode _)

/-- Members kept without places, keyed again, are the members they were. -/
theorem keyed_fieldsToNodes (fs : List (String × Json)) :
    (fs.map fun kv => (kv.1, toNode kv.2)).map
        (fun (k, v) => (some (⟨.ok k, Pos.none, Pos.none⟩ : Key), v)) = fieldsToNodes fs := by
  induction fs with
  | nil => rfl
  | cons kv fs ih => simp [fieldsToNodes, ih]

theorem exactItems_strings (ns : List String) : ExactItems (ns.map .string) := by
  induction ns with
  | nil => trivial
  | cons s ns ih => exact ⟨trivial, ih⟩

end Json

namespace Wire

/-! ## Requests -/

namespace Request

/-- The numbers of a request fit their wire types: the watchdog a `u64`, the
namespace a `u16` and a written value an `i64`. -/
def Fits : Request → Prop
  | .hello _ w _ _ _ _ => w < 2 ^ 64
  | .read ns _ => ns < 2 ^ 16
  | .write ns _ v => ns < 2 ^ 16 ∧ -2 ^ 63 ≤ v ∧ v < 2 ^ 63
  | .getNamespaceArray | .close => True

instance : DecidablePred Fits := fun r => by
  cases r <;> unfold Fits <;> infer_instance

/-- The kind of a request. -/
def op : Request → Op
  | .hello .. => .hello
  | .getNamespaceArray => .getNamespaceArray
  | .read .. => .read
  | .write .. => .write
  | .close => .close

theorem variant_name (r : Request) : Decoder.variant? Op.names r.name = some r.op := by
  cases r <;> rfl

theorem toMembers_eq (r : Request) : r.toMembers = ("op", .string r.name) :: r.toMembers.tail := by
  cases r <;> rfl

/-- The fields of a request: none is called `op` or `seq`. -/
theorem fields_keys (r : Request) : ∀ kv ∈ r.toMembers.tail, kv.1 ≠ "op" ∧ kv.1 ≠ "seq" := by
  cases r with
  | hello s w p m u pw => cases u <;> cases pw <;> simp [toMembers]
  | _ => simp [toMembers]

theorem exactFields_toMembers (r : Request) (hr : r.Fits) : ExactFields r.toMembers := by
  cases r with
  | hello s w p m u pw => cases u <;> cases pw <;> simp [toMembers, ExactFields, Exact, Json.nat]
  | write ns id v =>
    obtain ⟨-, hlo, hhi⟩ := hr
    simp [toMembers, ExactFields, Exact, Json.nat, exact_int hlo hhi]
  | _ => simp [toMembers, ExactFields, Exact, Json.nat]

variable (src : Source) (byIndex : Bool)

/-- Members other than `op`, read strictly, are kept without places. -/
theorem splitOp_fields (op : Option Op) :
    ∀ (fs : List (String × Json)) (kept : Leftovers), (∀ kv ∈ fs, kv.1 ≠ "op") →
      splitOp src byIndex (fieldsToNodes fs) op kept =
        .ok (op, kept ++ fs.map fun kv => (kv.1, toNode kv.2))
  | [], kept, _ => by simp [splitOp, fieldsToNodes]
  | (k, v) :: fs, kept, h => by
    have hk : k ≠ "op" := h (k, v) List.mem_cons_self
    simp only [fieldsToNodes, splitOp, if_neg hk, strictFault_toNode, forget_toNode]
    rw [splitOp_fields op fs _ fun kv hkv => h kv (List.mem_cons_of_mem _ hkv)]
    simp

theorem splitOp_toMembers (r : Request) :
    splitOp src byIndex (fieldsToNodes r.toMembers) none [] =
      .ok (some r.op, r.toMembers.tail.map fun kv => (kv.1, toNode kv.2)) := by
  rw [toMembers_eq, fieldsToNodes, splitOp, if_pos rfl]
  simp only [opDecoder, toNode, variant_name, placeAt, List.tail_cons]
  rw [splitOp_fields src byIndex _ _ _ fun kv hkv => (fields_keys r kv hkv).1]
  simp

/-- The second phase reads a request's fields back, once its kind is known. -/
theorem ofKept_fields (r : Request) (hr : r.Fits) :
    ofKept r.op (r.toMembers.tail.map fun kv => (kv.1, toNode kv.2)) = .ok r := by
  rw [ofKept]
  dsimp only
  rw [keyed_fieldsToNodes]
  -- the members are the fields of the kind, in order, each read once
  cases r with
  | hello s w p m u pw =>
    cases u <;> cases pw <;>
    simp_all [Fits, toMembers, op, decodeStruct, decodeStruct.members, fieldsOf, Field.of,
      Decoder.uint_value, Decoder.string_value, Decoder.option_value, build, required, placeAt,
      fieldsToNodes, Except.map, bind, Except.bind, pure, Except.pure]
  | _ =>
    simp_all [Fits, toMembers, op, decodeStruct, decodeStruct.members, fieldsOf, Field.of,
      Decoder.uint_value, Decoder.int64_value, Decoder.string_value, build, required, placeAt,
      fieldsToNodes, Except.map, bind, Except.bind, pure, Except.pure]

/-- A request's members, without places, read back as the request. -/
theorem ofMembers_toMembers (r : Request) (hr : r.Fits) :
    ofMembers src byIndex (fieldsToNodes r.toMembers) = .ok (.ok r) := by
  simp only [ofMembers, splitOp_toMembers, required, ofKept_fields r hr, bind, Except.bind, pure,
    Except.pure]

end Request

/-! ## Envelopes -/

namespace Envelope

/-- The numbers of an envelope fit their wire types. -/
def Fits (e : Envelope) : Prop := e.seq < 2 ^ 64 ∧ e.request.Fits

instance : DecidablePred Fits := fun _ => inferInstanceAs (Decidable (_ ∧ _))

theorem exact_toJson (e : Envelope) (he : e.Fits) : Exact e.toJson :=
  ⟨trivial, Request.exactFields_toMembers e.request he.2⟩

/-- No member of a request is `seq`, so the envelope buffers them all. -/
theorem fields_find_request (r : Request) :
    ∀ kv ∈ r.toMembers, fields.find? (·.name == kv.1) = none := by
  rw [Request.toMembers_eq]
  intro kv hkv
  rcases List.mem_cons.1 hkv with rfl | hkv
  · rfl
  · simp [fields, Field.of, (Request.fields_keys r kv hkv).2.symm]

/-- An envelope decodes from a node read from its text. -/
theorem decoder_read {n : Node} (e : Envelope) (he : e.Fits) (h : n.forget = toNode e.toJson) :
    decoder .text n = .ok e := by
  rw [toJson] at h
  obtain ⟨a, ms, f, rfl, hms⟩ := forget_eq_object h
  obtain ⟨b, c, v, ms', rfl, hv, hms'⟩ := forgetMembers_eq_cons hms
  have hseq := Decoder.uint_read .text "u64" he.1 le_rfl hv
  simp only [decoder, decodeStruct]
  rw [members_known .text fields true [] none [] "seq" b c v ms' _ (some e.seq) rfl (by simp)
      (by simp [Field.of, hseq, Except.map]), List.nil_append,
    members_leftovers .text fields ["seq"] (some e.seq) e.request.toMembers ms' [] hms'
      (fields_find_request e.request)]
  simp only [List.nil_append, keyed_fieldsToNodes, Request.ofMembers_toMembers _ _ e.request he.2]
  simp [required, placeAt, bind, Except.bind, pure, Except.pure]

/-- The line of an envelope parses back as the envelope. -/
theorem parse_encodeLine (e : Envelope) (he : e.Fits) : parse e.encodeLine = .ok e := by
  obtain ⟨n, hdoc, hn⟩ := readDocument_render e.toJson (exact_toJson e he)
  rw [parse, encodeLine, toJson, trimEnd_render_object, ← toJson]
  simp [decodeText, hdoc, decoder_read e he hn, bind, Except.bind, pure, Except.pure]

end Envelope

/-! ## Responses -/

namespace Response

/-- The numbers of a response fit their wire types. -/
def Fits (r : Response) : Prop := r.seq < 2 ^ 64 ∧ ∀ v ∈ r.value, -2 ^ 63 ≤ v ∧ v < 2 ^ 63

instance : DecidablePred Fits := fun _ => inferInstanceAs (Decidable (_ ∧ _))

/-- The record form as its required members, then each optional one present
or left out. -/
theorem toJson_eq (r : Response) :
    r.toJson = .object ([("seq", Json.nat r.seq), ("success", .bool r.success)] ++
      ((r.namespaces.map fun ns => ("namespaces", .array (ns.map .string))).toList ++
      ((r.value.map fun v => ("value", Json.int v)).toList ++
      ((r.code.map fun c => ("code", .string c.name)).toList ++
      (r.error.map fun m => ("error", .string m)).toList)))) := by
  obtain ⟨seq, success, ns, v, c, m⟩ := r
  cases ns <;> cases v <;> cases c <;> cases m <;> rfl

theorem exact_toJson (r : Response) (hr : r.Fits) : Exact r.toJson := by
  rw [toJson_eq]
  simp only [Exact, ExactFields, exactFields_append]
  refine ⟨⟨trivial, trivial, trivial⟩, ?_, ?_, ?_, ?_⟩
  · cases r.namespaces <;> simp [ExactFields, Exact, exactItems_strings]
  · cases hv : r.value with
    | none => trivial
    | some v =>
      obtain ⟨hlo, hhi⟩ := hr.2 v hv
      exact ⟨exact_int hlo hhi, trivial⟩
  · cases r.code <;> simp [ExactFields, Exact]
  · cases r.error <;> simp [ExactFields, Exact]

theorem variant_name (c : StatusCode) : Decoder.variant? StatusCode.names c.name = some c := by
  cases c <;> rfl

/-- The optional members of a response, each present or left out, fill the
record after `seq` and `success`. -/
theorem members_optionals (r : Response) (hr : ∀ v ∈ r.value, -2 ^ 63 ≤ v ∧ v < 2 ^ 63)
    (ns vs cs es : List (Option Key × Node))
    (hns : Node.forgetMembers ns = fieldsToNodes
      (r.namespaces.map fun l => ("namespaces", .array (l.map .string))).toList)
    (hvs : Node.forgetMembers vs = fieldsToNodes (r.value.map fun v => ("value", Json.int v)).toList)
    (hcs : Node.forgetMembers cs = fieldsToNodes (r.code.map fun c => ("code", .string c.name)).toList)
    (hes : Node.forgetMembers es = fieldsToNodes (r.error.map fun m => ("error", .string m)).toList) :
    ∃ seen, decodeStruct.members fields false .text ["seq", "success"]
        { seq := some r.seq, success := some r.success } [] (ns ++ (vs ++ (cs ++ es))) =
      .ok (seen, ⟨some r.seq, some r.success, r.namespaces, r.value, r.code, r.error⟩, []) := by
  rw [members_optional .text fields false _ { seq := some r.seq, success := some r.success } []
      "namespaces" _ r.namespaces rfl ?_ _ (fun v s => { s with namespaces := v })
      (fun a _ n hn => by
        simp [Field.of, Decoder.option_read .text _ (by simp) hn,
          Decoder.list_read .text Decoder.string Json.string
            (fun s n hn => Decoder.string_read .text hn) a hn, Except.map])
      rfl ns _ hns,
    members_optional .text fields false _
      { seq := some r.seq, success := some r.success, namespaces := r.namespaces } []
      "value" _ r.value rfl ?_ Json.int (fun v s => { s with value := v })
      (fun v hv n hn => by
        obtain ⟨hlo, hhi⟩ := hr v hv
        have hj : Json.int v ≠ .null := by unfold Json.int; split <;> simp
        simp [Field.of, Decoder.option_read .text _ hj hn, Decoder.int64_read .text hlo hhi hn,
          Except.map])
      rfl vs _ hvs,
    members_optional .text fields false _
      { seq := some r.seq, success := some r.success, namespaces := r.namespaces,
        value := r.value } []
      "code" _ r.code rfl ?_ _ (fun v s => { s with code := v })
      (fun c _ n hn => by
        simp [Field.of, Decoder.option_read .text _ (by simp) hn,
          Decoder.unitEnum_read .text StatusCode.names (variant_name c) hn, Except.map])
      rfl cs _ hcs,
    ← List.append_nil es,
    members_optional .text fields false _
      { seq := some r.seq, success := some r.success, namespaces := r.namespaces,
        value := r.value, code := r.code } []
      "error" _ r.error rfl ?_ _ (fun v s => { s with error := v })
      (fun m _ n hn => by
        simp [Field.of, Decoder.option_read .text _ (by simp) hn, Decoder.string_read .text hn,
          Except.map])
      rfl es _ hes]
  · exact ⟨_, by rw [decodeStruct.members]⟩
  -- each optional member is seen for the first time
  all_goals cases r.namespaces <;> cases r.value <;> cases r.code <;> simp

/-- A response decodes from a node read from its text: `seq` and `success`
first, then each optional member present or left out. -/
theorem decoder_read {n : Node} (r : Response) (hr : r.Fits) (h : n.forget = toNode r.toJson) :
    decoder .text n = .ok r := by
  rw [toJson_eq, List.cons_append, List.cons_append, List.nil_append] at h
  obtain ⟨a, ms, f, rfl, hms⟩ := forget_eq_object h
  obtain ⟨b₁, c₁, v₁, ms, rfl, hv₁, hms⟩ := forgetMembers_eq_cons hms
  obtain ⟨b₂, c₂, v₂, ms, rfl, hv₂, hms⟩ := forgetMembers_eq_cons hms
  obtain ⟨ns, ms, rfl, hns, hms⟩ := forgetMembers_eq_append hms
  obtain ⟨vs, ms, rfl, hvs, hms⟩ := forgetMembers_eq_append hms
  obtain ⟨cs, es, rfl, hcs, hes⟩ := forgetMembers_eq_append hms
  have hseq := Decoder.uint_read .text "u64" hr.1 le_rfl hv₁
  have hsuccess := Decoder.bool_read .text hv₂
  obtain ⟨seen, hrest⟩ := members_optionals r hr.2 ns vs cs es hns hvs hcs hes
  simp only [decoder, decodeStruct]
  rw [members_known .text fields false [] {} [] "seq" b₁ c₁ v₁ _ _ { seq := some r.seq } rfl
      (by simp) (by simp [Field.of, hseq, Except.map]),
    members_known .text fields false _ _ [] "success" b₂ c₂ v₂ _ _
      { seq := some r.seq, success := some r.success } rfl (by simp)
      (by simp [Field.of, hsuccess, Except.map]),
    List.nil_append, List.singleton_append, hrest]
  simp [required, placeAt, bind, Except.bind, pure, Except.pure]

/-- The line of a response reads back as the response. -/
theorem parse_encodeLine (r : Response) (hr : r.Fits) : parse r.encodeLine = .ok r := by
  obtain ⟨n, hdoc, hn⟩ := readDocument_render r.toJson (exact_toJson r hr)
  rw [parse, encodeLine, toJson_eq, trimEnd_render_object, ← toJson_eq]
  simp [decodeText, hdoc, decoder_read r hr hn, bind, Except.bind, pure, Except.pure]

end Response

/-! ## Streams of lines -/

/-- Values written each as one line, none longer than the bound, read back
from the stream of their lines, which then ends cleanly. -/
theorem readLines_values {α : Type} (line : α → String) (parse : String → Decoded α)
    (maxBytes : Nat) (xs : List α)
    (h : ∀ x ∈ xs, OneLine (line x) ∧ (encodeUtf8 (line x)).length ≤ maxBytes ∧
      parse (line x) = .ok x) :
    ∃ lines, readLines (xs.flatMap fun x => encodeUtf8 (line x)) maxBytes = (lines, none) ∧
      lines.map parse = xs.map .ok := by
  refine ⟨xs.map line, ?_, ?_⟩
  · rw [← List.flatMap_map]
    exact readLines_flatMap maxBytes _ fun t ht => by
      obtain ⟨x, hx, rfl⟩ := List.mem_map.1 ht
      exact ⟨(h x hx).1, (h x hx).2.1⟩
  · rw [List.map_map]
    exact List.map_congr_left fun x hx => (h x hx).2.2

/-- A stream of values whose lines read back, in whatever chunks it arrives:
the reader called until the end gives those lines, which parse as the values,
and the stream then ends cleanly. -/
theorem readAllLines_values {α : Type} (line : α → String) (parse : String → Decoded α) (maxBytes : Nat)
    (xs : List α) (h : ∀ x ∈ xs, OneLine (line x) ∧ (encodeUtf8 (line x)).length ≤ maxBytes ∧
      parse (line x) = .ok x) :
    ∃ lines, (∀ chunks : List (List UInt8), chunks.flatten = xs.flatMap (fun x => encodeUtf8 (line x)) →
      readAllLines maxBytes chunks = (lines, none)) ∧ lines.map parse = xs.map .ok := by
  obtain ⟨lines, hread, hparse⟩ := readLines_values line parse maxBytes xs h
  exact ⟨lines, fun chunks hc => by rw [readAllLines_eq_readLines, hc, hread], hparse⟩

/-- Envelopes and responses whose numbers fit their wire types, each line no
longer than the bound: however a stream of them is cut into chunks, the reader
called line by line until the end gives back their lines, which parse as the
values written, and the stream then ends cleanly. Each line is UTF-8 and ends
in its only line feed. -/
theorem wire_lines_roundTrip (maxBytes : Nat) (es : List Envelope) (rs : List Response)
    (hes : ∀ e ∈ es, e.Fits ∧ (encodeUtf8 e.encodeLine).length ≤ maxBytes)
    (hrs : ∀ r ∈ rs, r.Fits ∧ (encodeUtf8 r.encodeLine).length ≤ maxBytes) :
    (∃ lines, (∀ chunks : List (List UInt8), chunks.flatten = es.flatMap (fun e => encodeUtf8 e.encodeLine) →
        readAllLines maxBytes chunks = (lines, none)) ∧
      lines.map Envelope.parse = es.map .ok) ∧
    (∃ lines, (∀ chunks : List (List UInt8), chunks.flatten = rs.flatMap (fun r => encodeUtf8 r.encodeLine) →
        readAllLines maxBytes chunks = (lines, none)) ∧
      lines.map Response.parse = rs.map .ok) ∧
    (∀ e ∈ es, decodeUtf8 (encodeUtf8 e.encodeLine) = .ok e.encodeLine ∧
      ∃ body, encodeUtf8 e.encodeLine = body ++ [lineFeed] ∧ lineFeed ∉ body) ∧
    (∀ r ∈ rs, decodeUtf8 (encodeUtf8 r.encodeLine) = .ok r.encodeLine ∧
      ∃ body, encodeUtf8 r.encodeLine = body ++ [lineFeed] ∧ lineFeed ∉ body) := by
  have hel : ∀ e ∈ es, OneLine e.encodeLine := fun e he =>
    oneLine_render _ (Envelope.exact_toJson e (hes e he).1)
  have hrl : ∀ r ∈ rs, OneLine r.encodeLine := fun r hr =>
    oneLine_render _ (Response.exact_toJson r (hrs r hr).1)
  refine ⟨readAllLines_values _ _ maxBytes es fun e he => ⟨hel e he, (hes e he).2, ?_⟩,
    readAllLines_values _ _ maxBytes rs fun r hr => ⟨hrl r hr, (hrs r hr).2, ?_⟩,
    fun e he => ⟨decodeUtf8_encodeUtf8 _, (hel e he).encodeUtf8⟩,
    fun r hr => ⟨decodeUtf8_encodeUtf8 _, (hrl r hr).encodeUtf8⟩⟩
  · exact Envelope.parse_encodeLine e (hes e he).1
  · exact Response.parse_encodeLine r (hrs r hr).1

set_option maxRecDepth 8000 in
/-- A session's requests, with a session id holding a line break, a quote and
a character beyond ASCII, and their responses. -/
theorem wire_lines_roundTrip_onSession :
    let es : List Envelope := [⟨1, .hello "s\n\"é" 5000 "None" "None" (some "op") none⟩,
      ⟨2, .write 2 "line1_PC" (-5)⟩, ⟨3, .read 2 "line1_PC"⟩, ⟨4, .close⟩]
    let rs : List Response := [.ok 1, .ok 2, .withValue 3 (-5),
      .failure 4 .badNotWritable "'last_updated' is read-only"]
    ((∀ e ∈ es, e.Fits ∧ (encodeUtf8 e.encodeLine).length ≤ 16384) ∧
      (∀ r ∈ rs, r.Fits ∧ (encodeUtf8 r.encodeLine).length ≤ 16384)) ∧
    (∃ lines, (∀ chunks : List (List UInt8), chunks.flatten = es.flatMap (fun e => encodeUtf8 e.encodeLine) →
        readAllLines 16384 chunks = (lines, none)) ∧
      lines.map Envelope.parse = es.map .ok) ∧
    (∃ lines, (∀ chunks : List (List UInt8), chunks.flatten = rs.flatMap (fun r => encodeUtf8 r.encodeLine) →
        readAllLines 16384 chunks = (lines, none)) ∧
      lines.map Response.parse = rs.map .ok) ∧
    (∀ e ∈ es, decodeUtf8 (encodeUtf8 e.encodeLine) = .ok e.encodeLine ∧
      ∃ body, encodeUtf8 e.encodeLine = body ++ [lineFeed] ∧ lineFeed ∉ body) ∧
    (∀ r ∈ rs, decodeUtf8 (encodeUtf8 r.encodeLine) = .ok r.encodeLine ∧
      ∃ body, encodeUtf8 r.encodeLine = body ++ [lineFeed] ∧ lineFeed ∉ body) := by
  intro es rs
  have hes : ∀ e ∈ es, e.Fits ∧ (encodeUtf8 e.encodeLine).length ≤ 16384 := by decide
  have hrs : ∀ r ∈ rs, r.Fits ∧ (encodeUtf8 r.encodeLine).length ≤ 16384 := by decide
  exact ⟨⟨hes, hrs⟩, wire_lines_roundTrip 16384 es rs hes hrs⟩

end Wire

end LotBridge
