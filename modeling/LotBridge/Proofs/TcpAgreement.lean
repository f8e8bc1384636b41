import LotBridge.Gateway.Tcp
import LotBridge.Proofs.NamespaceAgreement
import LotBridge.Proofs.GatewaySessions
import LotBridge.Proofs.WireRoundTrip
import LotBridge.Proofs.ChunkedLines

/-!
# A controller and a simulated gateway over TCP agree on where the lines live

A simulated gateway set up for namespace `u` publishes the server namespace,
`urn:potline:sim` and `u`, in that order (`Simulator.published`), and serves
the registers under index 2. A controller configured with `u` looks under the
first position of `u` in that list. The two agree exactly when `u` is neither
of the first two entries (`Simulator.namespaceIndex_published`).

Over TCP every request is a line the server reads and answers with a line the
client reads back and checks. When both lines fit the framing, the server
serves the line as the request it carries (`Simulator.servePiece_encodeLine`)
and the client reads back exactly the response written
(`Tcp.exchange_served`). A call then runs `hello`, the namespace query, the
read or write, and `close` under sequence numbers 1 to 4, each response
carrying the number of its request. Between calls the link rests
(`Tcp.Resting`): no connection is held, every connection the gateway had has
ended with its responses numbered 1, 2, … in order, no session is open, and
the registers hold the register file; within a call it is `Tcp.Busy`. So a
call's first attempt does its job and rests again (`Tcp.advance_resting`).
Where `u` collides with an entry before it, every attempt fails at its read or
write, under an index the gateway does not serve, and rests again
(`Tcp.advance_colliding`).

Together with the gateway in memory, where the collision is with the server
namespace alone, this gives `registerCalls_agree`.

## Main definitions

* `Wire.Envelope.Framed`, `Wire.Response.Framed`: lines that fit.
* `Simulator.published`, `Simulator.Stores`: what a simulated gateway
  publishes and holds.
* `Tcp.Holding`, `Tcp.Resting`, `Tcp.Busy`: the link between and within
  calls.
* `Tcp.Reaches`: a client configured to reach a simulated gateway.
-/

namespace LotBridge

open Wire Json

/-! ## Lines that fit -/

namespace Wire

/-- An envelope whose numbers fit their wire types and whose line fits the
framing. -/
def Envelope.Framed (e : Envelope) : Prop :=
  e.Fits ∧ (Text.encodeUtf8 e.encodeLine).length ≤ Simulator.maxLineBytes

instance : DecidablePred Envelope.Framed := fun _ => inferInstanceAs (Decidable (_ ∧ _))

/-- A response whose numbers fit their wire types and whose line fits the
framing. -/
def Response.Framed (r : Response) : Prop :=
  r.Fits ∧ (Text.encodeUtf8 r.encodeLine).length ≤ Simulator.maxLineBytes

instance : DecidablePred Response.Framed := fun _ => inferInstanceAs (Decidable (_ ∧ _))

theorem length_encodeUtf8_le (s : String) : (Text.encodeUtf8 s).length ≤ 4 * s.length := by
  rw [← String.length_toList, Text.encodeUtf8]
  induction s.toList with
  | nil => simp
  | cons c cs ih =>
    have hc : (String.utf8EncodeChar c).length ≤ 4 := by
      rw [String.length_utf8EncodeChar]
      exact Char.utf8Size_le_four c
    simp only [List.flatMap_cons, List.length_append, List.length_cons]
    omega

/-- A number's text has at most twenty digits, so at most eighty bytes. -/
theorem length_render_natural_le (n : UInt64) :
    (Text.encodeUtf8 (render (.number (.natural n)))).length ≤ 80 := by
  have hdigits : (Nat.toDigits 10 n.toNat).length ≤ 20 :=
    (Nat.length_toDigits_le_iff (by decide) (by decide)).2 (Nat.lt_of_lt_of_le n.toNat_lt (by decide))
  have hlen : (render (.number (.natural n))).length ≤ 20 := by
    rw [← String.length_toList, render_natural]
    exact hdigits
  have := length_encodeUtf8_le (render (.number (.natural n)))
  omega

theorem length_render_int_le {v : Int} (h : 0 ≤ v) : (Text.encodeUtf8 (render (Json.int v))).length ≤ 80 := by
  rw [Json.int, if_neg (Int.not_lt.2 h)]
  exact length_render_natural_le _

theorem length_render_nat_le (n : Nat) : (Text.encodeUtf8 (render (Json.nat n))).length ≤ 80 :=
  length_render_natural_le _

/-- The line of a read fits, for a register whose name is short. -/
theorem Envelope.read_framed {seq ns : Nat} {id : String} (hseq : seq < 2 ^ 64) (hns : ns < 2 ^ 16)
    (hid : (Text.encodeUtf8 (quote id)).length ≤ 1000) : (⟨seq, .read ns id⟩ : Envelope).Framed := by
  refine ⟨⟨hseq, hns⟩, ?_⟩
  have h₁ := length_render_nat_le seq
  have h₂ := length_render_nat_le ns
  simp only [Envelope.encodeLine, Envelope.toJson, Request.toMembers, Request.name, render, renderFields,
    Text.encodeUtf8_append, List.length_append]
  generalize (Text.encodeUtf8 (render (Json.nat seq))).length = a at h₁ ⊢
  generalize (Text.encodeUtf8 (render (Json.nat ns))).length = b at h₂ ⊢
  generalize (Text.encodeUtf8 (quote id)).length = c at hid ⊢
  simp [Text.encodeUtf8, quote, escapeChar, Char.utf8Size, Simulator.maxLineBytes]
  omega

/-- The line of a write of a value that is not negative fits, for a register
whose name is short. -/
theorem Envelope.write_framed {seq ns : Nat} {id : String} {v : Int} (hseq : seq < 2 ^ 64)
    (hns : ns < 2 ^ 16) (hid : (Text.encodeUtf8 (quote id)).length ≤ 1000) (h₀ : 0 ≤ v) (hv : v < 2 ^ 63) :
    (⟨seq, .write ns id v⟩ : Envelope).Framed := by
  refine ⟨⟨hseq, hns, by omega, hv⟩, ?_⟩
  have h₁ := length_render_nat_le seq
  have h₂ := length_render_nat_le ns
  have h₃ := length_render_int_le h₀
  simp only [Envelope.encodeLine, Envelope.toJson, Request.toMembers, Request.name, render, renderFields,
    Text.encodeUtf8_append, List.length_append]
  generalize (Text.encodeUtf8 (render (Json.nat seq))).length = a at h₁ ⊢
  generalize (Text.encodeUtf8 (render (Json.nat ns))).length = b at h₂ ⊢
  generalize (Text.encodeUtf8 (render (Json.int v))).length = d at h₃ ⊢
  generalize (Text.encodeUtf8 (quote id)).length = c at hid ⊢
  simp [Text.encodeUtf8, quote, escapeChar, Char.utf8Size, Simulator.maxLineBytes]
  omega

/-- The line of a success carrying a value that is not negative fits. -/
theorem Response.withValue_framed {seq : Nat} {v : Int} (hseq : seq < 2 ^ 64) (h₀ : 0 ≤ v)
    (hv : v < 2 ^ 63) : (Response.withValue seq v).Framed := by
  refine ⟨⟨hseq, fun x hx => ?_⟩, ?_⟩
  · obtain rfl : v = x := Option.some.inj hx
    omega
  have h₁ := length_render_nat_le seq
  have h₂ := length_render_int_le h₀
  simp only [Response.encodeLine, Response.withValue, Response.ok, Response.toJson, Option.map, render,
    renderFields, List.cons_append, List.nil_append, List.append_nil, Text.encodeUtf8_append,
    List.length_append]
  generalize (Text.encodeUtf8 (render (Json.nat seq))).length = a at h₁ ⊢
  generalize (Text.encodeUtf8 (render (Json.int v))).length = d at h₂ ⊢
  simp [Text.encodeUtf8, quote, escapeChar, Char.utf8Size, Simulator.maxLineBytes]
  omega

/-- The line of a plain success fits. -/
theorem Response.ok_framed {seq : Nat} (hseq : seq < 2 ^ 64) : (Response.ok seq).Framed := by
  refine ⟨⟨hseq, fun x hx => by cases hx⟩, ?_⟩
  have h₁ := length_render_nat_le seq
  simp only [Response.encodeLine, Response.ok, Response.toJson, Option.map, render, renderFields,
    List.append_nil, Text.encodeUtf8_append, List.length_append]
  generalize (Text.encodeUtf8 (render (Json.nat seq))).length = a at h₁ ⊢
  simp [Text.encodeUtf8, quote, escapeChar, Char.utf8Size, Simulator.maxLineBytes]
  omega

example : (Response.ok 1).Framed := by decide
example : (Response.failure 3 .badNamespaceUnknown "unknown namespace index 0").Framed := by decide
example : (⟨2, .getNamespaceArray⟩ : Envelope).Framed := by decide

/-- An object's text has no blanks at either end. -/
theorem trim_render_object (fs : List (String × Json)) :
    Text.trim (render (.object fs)) = render (.object fs) := by
  have hfirst : (render (.object fs)).toList.dropWhile Text.isBlank = (render (.object fs)).toList := by
    rw [render_object, List.cons_append, List.dropWhile_cons_of_neg (by decide)]
  have hlast : (render (.object fs)).toList.reverse =
      '}' :: ((renderFields fs).toList.reverse ++ ['{']) := by
    simp [render_object]
  rw [Text.trim, Text.trimList, hfirst, hlast, List.dropWhile_cons_of_neg (by decide), ← hlast,
    List.reverse_reverse, String.ofList_toList]

theorem Envelope.trim_encodeLine (e : Envelope) : Text.trim e.encodeLine = render e.toJson := by
  rw [Envelope.encodeLine, Text.trim_append_blanks _ _ (by simp [Text.isBlank]), Envelope.toJson,
    trim_render_object]

theorem Envelope.parse_render {e : Envelope} (he : e.Fits) : Envelope.parse (render e.toJson) = .ok e := by
  have h := Envelope.parse_encodeLine e he
  rwa [Envelope.encodeLine, Envelope.parse, Text.trimEnd_append_blanks _ _ (by simp [Text.isBlank])] at h

/-- The bytes of a line are one piece of the stream. -/
theorem pieces_oneLine {t : String} (h : OneLine t) : pieces (Text.encodeUtf8 t) = [Text.encodeUtf8 t] := by
  obtain ⟨body, hbody, hlf⟩ := h.encodeUtf8
  rw [hbody, ← List.append_nil (body ++ [lineFeed]), List.append_assoc, List.singleton_append,
    pieces_line _ _ hlf]
  rfl

theorem Envelope.pieces_encodeLine {e : Envelope} (he : e.Fits) :
    pieces (Text.encodeUtf8 e.encodeLine) = [Text.encodeUtf8 e.encodeLine] :=
  pieces_oneLine (oneLine_render _ (Envelope.exact_toJson e he))

/-- One call of the client's line reader on a response line that fits gives
the line. -/
theorem Response.readLineFrom_encodeLine {r : Response} (hr : r.Framed) (rest : List (List UInt8)) :
    (readLineFrom Simulator.maxLineBytes [] (Text.encodeUtf8 r.encodeLine :: rest)).1 =
      .ok (some r.encodeLine) := by
  obtain ⟨body, hbody, hlf⟩ := (oneLine_render _ (Response.exact_toJson r hr.1)).encodeUtf8
  have hp : pieces ([] ++ (Text.encodeUtf8 r.encodeLine :: rest).flatten) =
      Text.encodeUtf8 r.encodeLine :: pieces rest.flatten := by
    rw [List.nil_append, List.flatten_cons, Response.encodeLine, hbody, List.append_assoc,
      List.singleton_append, pieces_line _ _ hlf, ← hbody]
  rw [(readLineFrom_piece _ [] _ (by simp) (by simp) hp).1, pieceResult, if_neg (Nat.not_lt.2 hr.2),
    intoText, Text.decodeUtf8_encodeUtf8]
  rfl

end Wire

namespace Simulator

section Served

variable (setup : Setup) (now : Int) (sess : Session) (t : Simulator)

/-- The line of an envelope is served as the envelope. -/
theorem serveLine_encodeLine {e : Envelope} (he : e.Fits) :
    serveLine setup now e.encodeLine sess t = respond setup now e sess t := by
  have hne : (Text.trim e.encodeLine).isEmpty = false := by
    have h : (render e.toJson).toList ≠ [] := by
      rw [Envelope.toJson, render_object]
      simp
    rw [Envelope.trim_encodeLine]
    simpa [String.isEmpty_iff] using h
  rw [serveLine_parsed setup now sess t _ hne (by rw [Envelope.trim_encodeLine]; exact Envelope.parse_render he)]

/-- A piece that is the line of an envelope, and fits, is served as the
envelope. -/
theorem servePiece_encodeLine {e : Envelope} (he : e.Framed) :
    servePiece setup now (Text.encodeUtf8 e.encodeLine) sess t = respond setup now e sess t := by
  have hlines : linesOf maxLineBytes [Text.encodeUtf8 e.encodeLine] = ([e.encodeLine], none) :=
    linesOf_encodeUtf8 maxLineBytes [e.encodeLine] (by simpa using he.2)
  rw [servePiece_framed setup now sess t hlines, serveLine_encodeLine setup now sess t he.1]

end Served

/-! ## What the gateway publishes, and the registers it holds -/

/-- The namespaces a simulated gateway set up for namespace `u` publishes. -/
def published (u : String) : List String := [serverNamespace, "urn:potline:sim", u]

/-- A controller configured with `u` looks under index 2, where the registers
are, unless `u` is one of the two namespaces published before it. -/
theorem namespaceIndex_published (u : String) :
    namespaceIndexIn u (published u) =
      .ok (if u = serverNamespace then 0 else if u = "urn:potline:sim" then 1 else linesNamespaceIndex) := by
  by_cases h₀ : u = serverNamespace
  · subst h₀
    simp [namespaceIndexIn, published, List.findIdx?_cons, maxNamespaceIndex]
  · have hne₀ : (serverNamespace == u) = false := beq_eq_false_iff_ne.2 (Ne.symm h₀)
    by_cases h₁ : u = "urn:potline:sim"
    · subst h₁
      simp [namespaceIndexIn, published, List.findIdx?_cons, maxNamespaceIndex, hne₀, h₀]
    · have hne₁ : ("urn:potline:sim" == u) = false := beq_eq_false_iff_ne.2 (Ne.symm h₁)
      simp [namespaceIndexIn, published, List.findIdx?_cons, maxNamespaceIndex, hne₀, hne₁, h₀, h₁,
        linesNamespaceIndex]

theorem lookup_replace_of_ne (xs : List (String × Int)) {name id : String} (v : Int) (h : id ≠ name) :
    (xs.map fun (n, w) => if n = name then (n, v) else (n, w)).lookup id = xs.lookup id := by
  induction xs with
  | nil => rfl
  | cons p rest ih =>
    obtain ⟨n, w⟩ := p
    by_cases hn : n = name
    · subst hn
      have hb : (id == n) = false := beq_eq_false_iff_ne.2 h
      simp only [List.map_cons, if_true, List.lookup_cons, hb]
      exact ih
    · by_cases hid : id = n
      · subst hid
        simp [hn]
      · have hb : (id == n) = false := beq_eq_false_iff_ne.2 hid
        simp only [List.map_cons, hn, if_false, List.lookup_cons, hb]
        exact ih

/-- Setting a register present already leaves the others. -/
theorem get_set_of_ne (t : Simulator) {k k' : RegisterKey} (v : Int) (hk : (t.values.lookup k.name).isSome)
    (h : k' ≠ k) : (t.set k v).get k' = t.get k' := by
  simp only [Simulator.set, hk, if_true, Simulator.get]
  obtain ⟨name⟩ := k
  obtain ⟨name'⟩ := k'
  exact lookup_replace_of_ne t.values v fun e => h (congrArg RegisterKey.mk e)

/-- The registers hold the register file `regs`, whose lots are not negative
and fit the wire. -/
structure Stores (regs : RegisterKey → Int) (t : Simulator) : Prop where
  seeded : Seeded t
  registers : ∀ l k, t.get (.activeLot l k) = some (regs (.activeLot l k))
  bounded : ∀ l k, 0 ≤ regs (.activeLot l k) ∧ regs (.activeLot l k) < 2 ^ 63

theorem stores_seeded : Stores (fun _ => 0) seeded :=
  ⟨rfl, fun l k => by cases l <;> cases k <;> rfl, fun _ _ => by decide⟩

theorem Stores.sessions {regs : RegisterKey → Int} {t : Simulator} (hs : Stores regs t) (n : Nat) :
    Stores regs { t with sessions := n } :=
  ⟨hs.seeded, hs.registers, hs.bounded⟩

/-- A write of an active-lot register, stamped at `now`, writes the file. -/
theorem Stores.write {regs : RegisterKey → Int} {t : Simulator} (hs : Stores regs t) (l : Line) (k : Component)
    {v : Int} (hv : 0 ≤ v ∧ v < 2 ^ 63) (now : Int) :
    Stores (writeFile regs (.activeLot l k) v) ((t.set (.activeLot l k) v).set .lastUpdated now) := by
  have hid : (RegisterKey.activeLot l k).name ∈ lotNames := mem_lotNames.2 ⟨l, k, rfl⟩
  have hsome : (t.values.lookup (RegisterKey.activeLot l k).name).isSome := by
    rw [hs.seeded.lookup_isSome, seededNames_eq]
    exact List.mem_append_left _ hid
  have hseeded : Seeded (t.set (.activeLot l k) v) := by
    unfold Seeded
    rw [set_names t _ v hsome]
    exact hs.seeded
  refine ⟨hs.seeded.write hid v now, fun l' k' => ?_, fun l' k' => ?_⟩
  · have hlast : (((t.set (.activeLot l k) v).values.lookup RegisterKey.lastUpdated.name)).isSome := by
      rw [hseeded.lookup_isSome, seededNames_eq]
      exact List.mem_append_right _ (List.mem_singleton_self _)
    rw [get_set_of_ne _ now hlast (RegisterKey.activeLot_ne_lastUpdated l' k')]
    -- the written register takes the value, every other one keeps its own
    by_cases hkey : RegisterKey.activeLot l' k' = .activeLot l k
    · rw [hkey, get_set, writeFile, if_pos rfl]
    · rw [get_set_of_ne t v hsome hkey, writeFile, if_neg hkey]
      exact hs.registers l' k'
  · by_cases hkey : RegisterKey.activeLot l' k' = .activeLot l k
    · rw [writeFile, if_pos hkey]
      exact hv
    · rw [writeFile, if_neg hkey]
      exact hs.bounded l' k'

/-! ## The connection the client holds -/

theorem modify_append_length {α : Type} (before : List α) (x : α) (f : α → α) :
    (before ++ [x]).modify before.length f = before ++ [f x] := by
  induction before with
  | nil => rfl
  | cons a before ih => simp [ih]

namespace Server

variable (setup : Setup) (now : Int) {s : Server} {before : List Connection}

/-- A piece arriving on the last connection, live with nothing pending, and
served: the turn's response is written, and the connection ends if the turn
says so, its session counted off. -/
theorem step_deliver_last {sess : Session} {w : List Response}
    (hs : s.conns = before ++ [⟨[], sess, w, true⟩]) (piece : List UInt8) (hp : pieces piece = [piece]) :
    (s.deliver before.length piece).step setup (.serve before.length now) =
      let turn := servePiece setup now piece sess s.table
      if turn.close then
        s.finish before.length ⟨[], turn.session, w ++ turn.response.toList, true⟩ turn.table
      else ⟨turn.table, before ++ [⟨[], turn.session, w ++ turn.response.toList, true⟩]⟩ := by
  have hconns : (s.deliver before.length piece).conns = before ++ [⟨[piece], sess, w, true⟩] := by
    simp only [deliver, hs, modify_append_length, List.nil_append, hp]
  have htable : (s.deliver before.length piece).table = s.table := rfl
  simp only [step, hconns, htable, List.getElem?_append_right (Nat.le_refl _), Nat.sub_self,
    List.getElem?_cons_zero, Bool.not_true, Bool.false_eq_true, if_false]
  obtain ⟨resp, close, sess', t'⟩ := servePiece setup now piece sess s.table
  cases close with
  | false => simp
  | true => simp [finish, hs, hconns]

end Server

end Simulator

/-! ## One exchange -/

namespace Tcp

open Simulator

/-- The checks let a response through that carries the request's number and
reports a success. -/
theorem check_ok (node : String) {seq : Nat} {resp : Response} (hseq : resp.seq = seq)
    (hs : resp.success = true) : check node seq resp = .ok resp := by
  simp [check, hseq, hs]

/-- A response that carries the request's number and reports a failure fails
with its text. -/
theorem check_refused (node : String) {seq : Nat} {resp : Response} (hseq : resp.seq = seq)
    (hs : resp.success = false) : check node seq resp = .error (.operation node resp.errorText) := by
  simp [check, hseq, hs]

/-- The client reads the one response written after those it has read, and
checks it. -/
theorem receive_next (op node : String) (seq : Nat) {conn : Simulator.Connection} {l : Link}
    {w : List Response} {resp : Response} (hw : conn.written = w ++ [resp]) (hseen : l.seen = w.length)
    (hr : resp.Framed) : receive op node seq conn l = (check node seq resp, { l with seen := l.seen + 1 }) := by
  have hunread : unread l conn = [Text.encodeUtf8 resp.encodeLine] := by
    simp [unread, hw, hseen]
  unfold receive
  rw [hunread, Response.readLineFrom_encodeLine hr []]
  simp only [Response.parse_encodeLine resp hr.1]

/-- The client holds the connection after `before`, live with nothing
pending, with session `sess`; the server wrote it `written`, all of which the
client read, and the next request is numbered after them. -/
structure Holding (before : List Simulator.Connection) (sess : Simulator.Session) (written : List Response)
    (l : Link) : Prop where
  held : l.conn = some before.length
  conns_eq : l.server.conns = before ++ [⟨[], sess, written, true⟩]
  seen_eq : l.seen = written.length
  nextSeq_eq : l.nextSeq = written.length + 1

theorem Holding.nextSeq_append {before : List Simulator.Connection} {sess sess' : Simulator.Session}
    {w : List Response} {resp : Response} {l l' : Link} (h : Holding before sess w l)
    (h' : Holding before sess' (w ++ [resp]) l') : l'.nextSeq = l.nextSeq + 1 := by
  rw [h'.nextSeq_eq, h.nextSeq_eq, List.length_append, List.length_singleton]

section Exchange

variable (setup : Setup) {before : List Simulator.Connection} {sess : Simulator.Session} {w : List Response}
  {l : Link}

/-- **A request on a held connection is served as the request it is, and the
client reads back exactly the response written**, when the two lines fit:
the response joins those of the connection, which ends if serving it says
so. -/
theorem exchange_served (hl : Holding before sess w l) {r : Wire.Request} (he : (⟨l.nextSeq, r⟩ : Envelope).Framed)
    {resp : Response} {close : Bool} {sess' : Simulator.Session} {t' : Simulator}
    (hturn : respond setup l.now ⟨l.nextSeq, r⟩ sess l.server.table = ⟨some resp, close, sess', t'⟩)
    (hr : resp.Framed) (node : String) :
    exchange setup r node l =
      (check node l.nextSeq resp,
        { l with
          server := if close then l.server.finish before.length ⟨[], sess', w ++ [resp], true⟩ t'
            else ⟨t', before ++ [⟨[], sess', w ++ [resp], true⟩]⟩
          nextSeq := l.nextSeq + 1, seen := l.seen + 1 }) := by
  have hstep := Server.step_deliver_last setup l.now hl.conns_eq _ (Envelope.pieces_encodeLine he.1)
  rw [servePiece_encodeLine setup _ _ _ he, hturn] at hstep
  unfold exchange
  rw [hl.held]
  dsimp only
  rw [hstep]
  cases close with
  | false =>
    simp only [Bool.false_eq_true, if_false, List.getElem?_append_right (Nat.le_refl _), Nat.sub_self,
      List.getElem?_cons_zero]
    exact receive_next _ _ _ rfl hl.seen_eq hr
  | true =>
    simp only [if_true, Server.finish, hl.conns_eq, List.set_append_right _ _ (Nat.le_refl _), Nat.sub_self,
      List.set_cons_zero, List.getElem?_append_right (Nat.le_refl _), List.getElem?_cons_zero]
    exact receive_next _ _ _ rfl hl.seen_eq hr

end Exchange

/-! ## Between calls and within one -/

/-- Responses numbered 1, 2, … in the order they were written. -/
def Numbered (w : List Response) : Prop := w.map Response.seq = List.range' 1 w.length

theorem Numbered.append {w : List Response} (hw : Numbered w) {resp : Response} (hseq : resp.seq = w.length + 1) :
    Numbered (w ++ [resp]) := by
  unfold Numbered at hw ⊢
  rw [List.map_append, hw, List.length_append, List.length_singleton, List.range'_concat]
  simp [hseq, Nat.add_comm]

/-- Connections that have all ended, each with its responses numbered in
order. -/
def Ended (conns : List Simulator.Connection) : Prop :=
  ∀ conn ∈ conns, conn.live = false ∧ Numbered conn.written

/-- Between calls: the client holds no connection, every connection the
gateway had has ended, no session is open, and the registers hold `regs`. -/
structure Resting (regs : RegisterKey → Int) (l : Link) : Prop where
  idle : l.conn = none
  ended : Ended l.server.conns
  closed : l.server.table.sessions = 0
  stores : Stores regs l.server.table

theorem resting_init : Resting (fun _ => 0) {} :=
  ⟨rfl, (fun _ h => by cases h), rfl, stores_seeded⟩

/-- Within a call: the client holds the last connection, with open session
`sess` and the responses `written`, numbered in order; the connections before
it have ended, one session is open, and the registers hold `regs`. -/
structure Busy (regs : RegisterKey → Int) (before : List Simulator.Connection) (sess : Simulator.Session)
    (written : List Response) (l : Link) : Prop where
  holding : Holding before sess written l
  ended : Ended before
  numbered : Numbered written
  opened : sess.id.isSome
  open_one : l.server.table.sessions = 1
  stores : Stores regs l.server.table

section Requests

variable (setup : Setup) {regs : RegisterKey → Int} {before : List Simulator.Connection}
  {sess : Simulator.Session} {w : List Response} {l : Link}

/-- A request that the gateway answers with `resp`, keeping the connection
and the session, and leaving registers that hold `regs'`, keeps the call
going. -/
theorem Busy.kept (hb : Busy regs before sess w l) {r : Wire.Request} (he : (⟨l.nextSeq, r⟩ : Envelope).Framed)
    {resp : Response} {t' : Simulator}
    (hturn : respond setup l.now ⟨l.nextSeq, r⟩ sess l.server.table = ⟨some resp, false, sess, t'⟩)
    (hr : resp.Framed) (hseq : resp.seq = l.nextSeq) (ht : t'.sessions = 1) {regs' : RegisterKey → Int}
    (hst : Stores regs' t') (node : String) :
    ∃ l', exchange setup r node l = (check node l.nextSeq resp, l') ∧ Busy regs' before sess (w ++ [resp]) l' := by
  refine ⟨_, exchange_served setup hb.holding he hturn hr node, ?_⟩
  have hnext := hb.holding.nextSeq_eq
  refine ⟨⟨hb.holding.held, rfl, by simp [hb.holding.seen_eq], by simp [hnext]⟩, hb.ended,
    hb.numbered.append (hseq.trans hnext), hb.opened, ht, hst⟩

/-- `close` ends the call: the gateway ends the connection and counts its
session off, and the client lets go of it. -/
theorem Busy.closing (hb : Busy regs before sess w l) (he : (⟨l.nextSeq, .close⟩ : Envelope).Framed)
    (hr : (Response.ok l.nextSeq).Framed) :
    close setup l = (.ok (), (close setup l).2) ∧ Resting regs (close setup l).2 := by
  have hturn := respond_close setup l.now sess l.server.table hb.opened l.nextSeq
  have hex := exchange_served setup hb.holding he hturn hr "session"
  have hnext := hb.holding.nextSeq_eq
  have hcheck : check "session" l.nextSeq (Response.ok l.nextSeq) = .ok (Response.ok l.nextSeq) :=
    check_ok _ rfl rfl
  -- the connection ends, numbered through the response to `close`
  have hended : Ended (before ++ [⟨[], sess, w ++ [Response.ok l.nextSeq], false⟩]) := by
    intro conn hconn
    rcases List.mem_append.1 hconn with h | h
    · exact hb.ended conn h
    · rw [List.mem_singleton.1 h]
      exact ⟨rfl, hb.numbered.append hnext⟩
  simp only [Tcp.close, hex, hcheck, if_true, Server.finish, hb.opened, hb.holding.conns_eq,
    List.set_append_right _ _ (Nat.le_refl _), Nat.sub_self, List.set_cons_zero, drop, hb.holding.held]
  simp only [Server.step, List.getElem?_append_right (Nat.le_refl _), Nat.sub_self, List.getElem?_cons_zero,
    Bool.not_false, if_true]
  exact ⟨rfl, ⟨rfl, hended, by simp [hb.open_one], hb.stores.sessions _⟩⟩

/-- The namespace query is answered with the namespaces the gateway
publishes. -/
theorem Busy.namespaces_ok (hb : Busy regs before sess w l)
    (he : (⟨l.nextSeq, .getNamespaceArray⟩ : Envelope).Framed)
    (hr : (Response.withNamespaces l.nextSeq (published setup.namespaceUri)).Framed) :
    ∃ l', namespaces setup l = (.ok (published setup.namespaceUri), l') ∧
      Busy regs before sess (w ++ [Response.withNamespaces l.nextSeq (published setup.namespaceUri)]) l' := by
  obtain ⟨l', hex, hb'⟩ := hb.kept setup he
    (respond_getNamespaceArray setup l.now sess l.server.table hb.opened l.nextSeq) hr rfl hb.open_one hb.stores
    "namespace array"
  have hc : check "namespace array" l.nextSeq
      (.withNamespaces l.nextSeq [serverNamespace, "urn:potline:sim", setup.namespaceUri]) = .ok _ :=
    check_ok _ rfl rfl
  refine ⟨l', ?_, hb'⟩
  simp only [Tcp.namespaces, hex, hc]
  rfl

/-- A read of an active-lot register under index 2 gives the register's
value in the file. -/
theorem Busy.read_ok (hb : Busy regs before sess w l) (line : Line) (k : Component)
    (he : (⟨l.nextSeq, .read linesNamespaceIndex (RegisterKey.activeLot line k).name⟩ : Envelope).Framed) :
    ∃ l', read setup ⟨linesNamespaceIndex, .activeLot line k⟩ l = (.answer (.ok (regs (.activeLot line k))), l') ∧
      Busy regs before sess (w ++ [Response.withValue l.nextSeq (regs (.activeLot line k))]) l' := by
  have hreg : readRegister l.server.table (RegisterKey.activeLot line k).name = .ok (regs (.activeLot line k)) := by
    have h := hb.stores.registers line k
    simp only [Simulator.get] at h
    simp [readRegister, h]
  have hturn : respond setup l.now ⟨l.nextSeq, .read linesNamespaceIndex (RegisterKey.activeLot line k).name⟩ sess
      l.server.table = ⟨some (.withValue l.nextSeq (regs (.activeLot line k))), false, sess, l.server.table⟩ := by
    rw [respond_read setup l.now sess l.server.table hb.opened, checkNamespace_bind, if_pos rfl, hreg]
  obtain ⟨l', hex, hb'⟩ := hb.kept setup he hturn
    (Response.withValue_framed he.1.1 (hb.stores.bounded line k).1 (hb.stores.bounded line k).2) rfl
    hb.open_one hb.stores (Address.render ⟨linesNamespaceIndex, .activeLot line k⟩)
  have hc : check (Address.render ⟨linesNamespaceIndex, .activeLot line k⟩) l.nextSeq
      (.withValue l.nextSeq (regs (.activeLot line k))) = .ok _ := check_ok _ rfl rfl
  refine ⟨l', ?_, hb'⟩
  simp only [Tcp.read, hex, hc]
  rfl

/-- A write of an active-lot register under index 2 is acknowledged and
writes the file. -/
theorem Busy.write_ok (hb : Busy regs before sess w l) (line : Line) (k : Component) {v : Int}
    (hv : 0 ≤ v ∧ v < 2 ^ 63)
    (he : (⟨l.nextSeq, .write linesNamespaceIndex (RegisterKey.activeLot line k).name v⟩ : Envelope).Framed) :
    ∃ l', write setup ⟨linesNamespaceIndex, .activeLot line k⟩ v l = (.answer (.ok ()), l') ∧
      Busy (writeFile regs (.activeLot line k) v) before sess (w ++ [Response.ok l.nextSeq]) l' := by
  have hid : (RegisterKey.activeLot line k).name ∈ lotNames := mem_lotNames.2 ⟨line, k, rfl⟩
  have hturn : respond setup l.now ⟨l.nextSeq, .write linesNamespaceIndex (RegisterKey.activeLot line k).name v⟩
      sess l.server.table = ⟨some (.ok l.nextSeq), false, sess,
        (l.server.table.set (.activeLot line k) v).set .lastUpdated l.now⟩ := by
    rw [respond_write setup l.now sess l.server.table hb.opened, checkNamespace_bind, if_pos rfl,
      writeRegister_of_lot hb.stores.seeded hid]
  obtain ⟨l', hex, hb'⟩ := hb.kept setup he hturn (Response.ok_framed he.1.1) rfl
    (by simp [hb.open_one]) (hb.stores.write line k hv l.now)
    (Address.render ⟨linesNamespaceIndex, .activeLot line k⟩)
  have hc : check (Address.render ⟨linesNamespaceIndex, .activeLot line k⟩) l.nextSeq (.ok l.nextSeq) = .ok _ :=
    check_ok _ rfl rfl
  refine ⟨l', ?_, hb'⟩
  simp only [Tcp.write, hex, hc]
  rfl

/-- The failure of a request under a namespace index the gateway does not
serve. -/
def unserved (seq ns : Nat) : Response :=
  .failure seq .badNamespaceUnknown ("unknown namespace index " ++ toString ns)

/-- A read under another index than 2 is refused. -/
theorem Busy.read_unserved (hb : Busy regs before sess w l) {ns : Nat} (hns : ns ≠ linesNamespaceIndex)
    (key : RegisterKey) (he : (⟨l.nextSeq, .read ns key.name⟩ : Envelope).Framed)
    (hr : (unserved l.nextSeq ns).Framed) :
    ∃ e l', read setup ⟨ns, key⟩ l = (.answer (.error e), l') ∧
      Busy regs before sess (w ++ [unserved l.nextSeq ns]) l' := by
  have hturn : respond setup l.now ⟨l.nextSeq, .read ns key.name⟩ sess l.server.table =
      ⟨some (unserved l.nextSeq ns), false, sess, l.server.table⟩ := by
    rw [respond_read setup l.now sess l.server.table hb.opened, checkNamespace_bind, if_neg hns]
    rfl
  obtain ⟨l', hex, hb'⟩ := hb.kept setup he hturn hr rfl hb.open_one hb.stores (Address.render ⟨ns, key⟩)
  have hc : check (Address.render ⟨ns, key⟩) l.nextSeq (unserved l.nextSeq ns) = .error _ :=
    check_refused _ rfl rfl
  refine ⟨.operation (Address.render ⟨ns, key⟩) (unserved l.nextSeq ns).errorText, l', ?_, hb'⟩
  simp only [Tcp.read, hex, hc]

/-- A write under another index than 2 is refused. -/
theorem Busy.write_unserved (hb : Busy regs before sess w l) {ns : Nat} (hns : ns ≠ linesNamespaceIndex)
    (key : RegisterKey) (v : Int) (he : (⟨l.nextSeq, .write ns key.name v⟩ : Envelope).Framed)
    (hr : (unserved l.nextSeq ns).Framed) :
    ∃ e l', write setup ⟨ns, key⟩ v l = (.answer (.error e), l') ∧
      Busy regs before sess (w ++ [unserved l.nextSeq ns]) l' := by
  have hturn : respond setup l.now ⟨l.nextSeq, .write ns key.name v⟩ sess l.server.table =
      ⟨some (unserved l.nextSeq ns), false, sess, l.server.table⟩ := by
    rw [respond_write setup l.now sess l.server.table hb.opened, checkNamespace_bind, if_neg hns]
    rfl
  obtain ⟨l', hex, hb'⟩ := hb.kept setup he hturn hr rfl hb.open_one hb.stores (Address.render ⟨ns, key⟩)
  have hc : check (Address.render ⟨ns, key⟩) l.nextSeq (unserved l.nextSeq ns) = .error _ :=
    check_refused _ rfl rfl
  refine ⟨.operation (Address.render ⟨ns, key⟩) (unserved l.nextSeq ns).errorText, l', ?_, hb'⟩
  simp only [Tcp.write, hex, hc]
  rfl

/-- A call whose third request was answered closes with its fourth, and
rests. -/
theorem Busy.closing_third {sess' : Simulator.Session} {resp : Response} {l' : Link} {regs' : RegisterKey → Int}
    (hb : Busy regs before sess w l) (hseq : l.nextSeq = 3) (hb' : Busy regs' before sess' (w ++ [resp]) l') :
    Resting regs' (close setup l').2 := by
  have hseq' : l'.nextSeq = 4 := by rw [hb.holding.nextSeq_append hb'.holding, hseq]
  exact (hb'.closing setup (by rw [hseq']; decide) (by rw [hseq']; decide)).2

end Requests

/-! ## One call -/

/-- An active-lot register's name is short. -/
theorem length_quote_activeLot_le (line : Line) (k : Component) :
    (Text.encodeUtf8 (quote (RegisterKey.activeLot line k).name)).length ≤ 1000 := by
  cases line <;> cases k <;> decide

/-- A client configured to reach a simulated gateway set up as `setup`, both
for namespace `u`: the gateway admits the client's credentials, the endpoint
reads, with no NUL in its host, and the lines of `hello` and of the
namespace list fit. -/
structure Reaches (setup : Setup) (u : String) (cfg : Config.Connection) (ids : Nat → String) : Prop where
  setup_uri : setup.namespaceUri = u
  cfg_uri : cfg.namespaceUri = u
  admits : setup.admits cfg.security.username cfg.security.password = true
  endpoint : ∃ ep, Endpoint.parse cfg.endpoint = .ok ep ∧ ep.host.toList.contains (Char.ofNat 0) = false
  hello_framed : ∀ n, (⟨1, hello cfg (ids n)⟩ : Envelope).Framed
  published_framed : (Response.withNamespaces 2 (published u)).Framed

section Calls

variable {setup : Setup} {u : String} {cfg : Config.Connection} {ids : Nat → String}
  (hreach : Reaches setup u cfg ids)
include hreach

/-- From rest, connecting opens a new connection, after all the others, and
the gateway accepts its `hello` as response 1, opening one session. -/
theorem Resting.connect {regs : RegisterKey → Int} {l : Link} (hr : Resting regs l) :
    ∃ l', connect setup ids cfg l = (.answer (.ok ()), l') ∧
      Busy regs l.server.conns ⟨some (ids l.opened)⟩ [Response.ok 1] l' := by
  obtain ⟨ep, hep, hnul⟩ := hreach.endpoint
  have hhold : Holding l.server.conns {} []
      { l with server := l.server.step setup (.accept []), conn := some l.server.conns.length, seen := 0,
               nextSeq := 1, timeoutMs := cfg.requestTimeoutMs, opened := l.opened + 1 } := ⟨rfl, rfl, rfl, rfl⟩
  have hturn : respond setup l.now ⟨1, hello cfg (ids l.opened)⟩ {} l.server.table =
      ⟨some (.ok 1), false, ⟨some (ids l.opened)⟩, { l.server.table with sessions := l.server.table.sessions + 1 }⟩ := by
    rw [hello, respond_hello, if_pos hreach.admits]
    rfl
  obtain ⟨l', hex, hb⟩ : ∃ l', exchange setup (hello cfg (ids l.opened)) "session"
      { l with server := l.server.step setup (.accept []), conn := some l.server.conns.length, seen := 0,
               nextSeq := 1, timeoutMs := cfg.requestTimeoutMs, opened := l.opened + 1 } =
        (check "session" 1 (.ok 1), l') ∧ Busy regs l.server.conns ⟨some (ids l.opened)⟩ [Response.ok 1] l' :=
    ⟨_, exchange_served setup hhold (hreach.hello_framed l.opened) hturn (by decide) "session",
      ⟨⟨rfl, rfl, rfl, rfl⟩, hr.ended, rfl, rfl, by simp [hr.closed], hr.stores.sessions _⟩⟩
  have hc : check "session" 1 (.ok 1) = .ok (.ok 1) := check_ok _ rfl rfl
  refine ⟨l', ?_, hb⟩
  simp only [Tcp.connect, hep, hnul, Bool.false_eq_true, if_false, hex, hc]

/-- Connecting from rest and asking for the namespaces: the call holds its
connection with responses 1 and 2 read. -/
theorem Resting.opened {regs : RegisterKey → Int} {l : Link} (hr : Resting regs l) :
    ∃ l₁ l₂, Tcp.connect setup ids cfg l = (.answer (.ok ()), l₁) ∧
      Tcp.namespaces setup l₁ = (.ok (published u), l₂) ∧ l₂.nextSeq = 3 ∧ ∃ sess w, Busy regs l.server.conns sess w l₂ := by
  obtain ⟨l₁, hc, hb₁⟩ := hr.connect hreach
  have hseq₁ : l₁.nextSeq = 2 := hb₁.holding.nextSeq_eq
  obtain ⟨l₂, hns, hb₂⟩ := hb₁.namespaces_ok setup (by rw [hseq₁]; decide)
    (by rw [hseq₁, hreach.setup_uri]; exact hreach.published_framed)
  refine ⟨l₁, l₂, hc, hreach.setup_uri ▸ hns, ?_, _, _, hb₂⟩
  rw [hb₂.holding.nextSeq_eq]
  rfl

/-- **An attempt from rest does the job and closes**, when the client's
namespace is neither of the two published before it: it connects, finds
index 2, reads or writes the register and closes, the gateway left at rest
with the file after the job. -/
theorem advance_resting (hu₀ : u ≠ serverNamespace) (hu₁ : u ≠ "urn:potline:sim") {regs : RegisterKey → Int}
    {l : Link} (hr : Resting regs l) (now : Nat) (t : Tracker) (line : Line) (k : Component) (v : Option Int)
    (hv : ∀ x ∈ v, 0 ≤ x ∧ x < 2 ^ 63) :
    ∃ l', Session.advance (gateway setup ids) cfg now ⟨t, (⟨.activeLot line k, v⟩ : Job).work, .opening⟩ l =
        (.finished (.ok ((⟨.activeLot line k, v⟩ : Job).onFile regs).1)
          ((((t.step .connect).2.step .connected).2.step .resolved).2.step .completed).2, l') ∧
      Resting ((⟨.activeLot line k, v⟩ : Job).onFile regs).2 l' := by
  obtain ⟨l₁, l₂, hc, hns, hseq₂, sess, w, hb₂⟩ := hr.opened hreach
  -- the controller's namespace is third in the list: index 2, where the registers are
  have hidx : namespaceIndexIn cfg.namespaceUri (published u) = .ok linesNamespaceIndex := by
    rw [hreach.cfg_uri, namespaceIndex_published, if_neg hu₀, if_neg hu₁]
  cases v with
  | none =>
    obtain ⟨l₃, hread, hb₃⟩ := hb₂.read_ok setup line k
      (Envelope.read_framed (by rw [hseq₂]; decide) (by decide) (length_quote_activeLot_le line k))
    have hrest := hb₂.closing_third setup hseq₂ hb₃
    refine ⟨(close setup l₃).2, ?_, hrest⟩
    simp [Session.advance, Session.connected, Session.perform, Job.work, Job.onFile, gateway, hc, hns, hidx, hread]
  | some v =>
    have hv' := hv v rfl
    obtain ⟨l₃, hwrite, hb₃⟩ := hb₂.write_ok setup line k hv'
      (Envelope.write_framed (by rw [hseq₂]; decide) (by decide) (length_quote_activeLot_le line k) hv'.1 hv'.2)
    have hrest := hb₂.closing_third setup hseq₂ hb₃
    refine ⟨(close setup l₃).2, ?_, hrest⟩
    simp [Session.advance, Session.connected, Session.perform, Job.work, Job.onFile, gateway, hc, hns, hidx, hwrite]

/-- **Where the client's namespace collides, every attempt fails** at its read
or write, under an index the gateway does not serve, and closes, leaving the
gateway at rest. -/
theorem advance_colliding (hu : u = serverNamespace ∨ u = "urn:potline:sim") {regs : RegisterKey → Int}
    {l : Link} (hr : Resting regs l) (now : Nat) (t : Tracker) (line : Line) (k : Component) (v : Option Int)
    (hv : ∀ x ∈ v, 0 ≤ x ∧ x < 2 ^ 63) :
    ∃ e t' l', Session.advance (gateway setup ids) cfg now ⟨t, (⟨.activeLot line k, v⟩ : Job).work, .opening⟩ l =
      (.finished (.error e) t', l') ∧ Resting regs l' := by
  obtain ⟨l₁, l₂, hc, hns, hseq₂, sess, w, hb₂⟩ := hr.opened hreach
  -- the controller's namespace is found first at index 0 or 1, where nothing is served
  obtain ⟨i, hidx, hi⟩ : ∃ i, namespaceIndexIn cfg.namespaceUri (published u) = .ok i ∧ (i = 0 ∨ i = 1) := by
    rw [hreach.cfg_uri, namespaceIndex_published]
    split_ifs with h₀ h₁
    · exact ⟨0, rfl, .inl rfl⟩
    · exact ⟨1, rfl, .inr rfl⟩
    · exact absurd (hu.resolve_left h₀) h₁
  have hne : i ≠ linesNamespaceIndex := by rcases hi with rfl | rfl <;> decide
  have hi₁ : i < 2 ^ 16 := by rcases hi with rfl | rfl <;> decide
  have hunserved : (unserved l₂.nextSeq i).Framed := by rw [hseq₂]; rcases hi with rfl | rfl <;> decide +kernel
  cases v with
  | none =>
    obtain ⟨e, l₃, hread, hb₃⟩ := hb₂.read_unserved setup hne (.activeLot line k)
      (Envelope.read_framed (by rw [hseq₂]; decide) hi₁ (length_quote_activeLot_le line k)) hunserved
    have hrest := hb₂.closing_third setup hseq₂ hb₃
    refine ⟨e, ((((t.step .connect).2.step .connected).2.step .resolved).2.step .fault).2, (close setup l₃).2, ?_,
      hrest⟩
    simp [Session.advance, Session.connected, Session.perform, Session.abandon, Job.work, gateway, hc, hns, hidx,
      hread]
  | some v =>
    have hv' := hv v rfl
    obtain ⟨e, l₃, hwrite, hb₃⟩ := hb₂.write_unserved setup hne (.activeLot line k) v
      (Envelope.write_framed (by rw [hseq₂]; decide) hi₁ (length_quote_activeLot_le line k) hv'.1 hv'.2) hunserved
    have hrest := hb₂.closing_third setup hseq₂ hb₃
    refine ⟨e, ((((t.step .connect).2.step .connected).2.step .resolved).2.step .fault).2, (close setup l₃).2, ?_,
      hrest⟩
    simp [Session.advance, Session.connected, Session.perform, Session.abandon, Job.work, gateway, hc, hns, hidx,
      hwrite]

end Calls

/-- The gateway over TCP answers every connection, read and write: a
response that never comes is a timeout, not silence. -/
theorem gateway_answers (setup : Setup) (ids : Nat → String) : (gateway setup ids).Answers where
  connect cfg l := by
    simp only [gateway, Tcp.connect]
    split
    · simp
    · split
      · simp
      · split <;> simp
  read a l := by
    simp only [gateway, Tcp.read]
    split
    · simp
    · split <;> simp
  write a v l := by
    simp [gateway, Tcp.write]

section Controller

variable {setup : Setup} {u : String} {cfg : Config.Connection} {ids : Nat → String}
  (hreach : Reaches setup u cfg ids) {c : Controller Link} (hgw : c.gateway = gateway setup ids)
  (hconn : c.connection = cfg)
include hreach hgw hconn

/-- **Register jobs over TCP answer as the register file**, for lots that fit
the wire, when the client's namespace collides with none published before
it: a call's first attempt does the job and closes, leaving the gateway at
rest. -/
theorem Controller.files_resting (hu₀ : u ≠ serverNamespace) (hu₁ : u ≠ "urn:potline:sim") :
    c.Files (fun v => 0 ≤ v ∧ v < 2 ^ 63) Resting := by
  intro regs st line k v hr hv
  refine Controller.perform_of_advance (hgw ▸ gateway_answers setup ids) _ st fun now => ?_
  obtain ⟨l', hadv, hr'⟩ := advance_resting hreach hu₀ hu₁ hr now {} line k v hv
  rw [hgw, hconn]
  exact ⟨_, l', hadv, hr'⟩

/-- Where the client's namespace collides, every attempt of a register job
fails and leaves the gateway at rest. -/
theorem refuses_colliding (hu : u = serverNamespace ∨ u = "urn:potline:sim") (line : Line) (k : Component)
    (v : Option Int) (hv : ∀ x ∈ v, 0 ≤ x ∧ x < 2 ^ 63) :
    c.gateway.Refuses c.connection (fun l => ∃ regs, Resting regs l) ⟨.activeLot line k, v⟩ := by
  rintro now t l ⟨regs, hr⟩
  obtain ⟨e, t', l', hadv, hr'⟩ := advance_colliding hreach hu hr now t line k v hv
  rw [hgw, hconn]
  exact ⟨e, t', l', hadv, regs, hr'⟩

end Controller

end Tcp

/-! ## Agreement -/

/-- **A controller and a gateway for namespace `u` agree on where the lines
live exactly when `u` collides with no namespace the gateway publishes before
it.**

Over TCP, against a simulated gateway that admits the client and whose lines
fit, with lots that fit the wire: when `u` is neither the server namespace nor
`urn:potline:sim`, the controller resolves index 2, where the registers are,
its register calls answer as a register file starting at zero, and after each
call no session is open and every connection has ended, its responses
numbered as its requests were. When `u` is one of the two, every register
call fails.

In memory, against a gateway created for `u`: when `u` is not the server
namespace, the controller resolves index 1, where the registers are, all
zero, its register calls answer as a register file starting at zero, and no
connection is left open; on the server namespace every register call fails. -/
theorem registerCalls_agree (u : String) (policy : Retry.Policy) (cmds : List Command)
    (hcmds : ∀ cmd ∈ cmds, cmd.onRegisters = true) :
    (∀ (setup : Simulator.Setup) (cfg : Config.Connection) (ids : Nat → String), Tcp.Reaches setup u cfg ids →
      (∀ cmd ∈ cmds, ∀ n ∈ cmd.lot?, n < 2 ^ 63) →
      let c : Controller Tcp.Link := ⟨Tcp.gateway setup ids, cfg, policy⟩
      let steps := c.execAll cmds { gate := {} }
      (u ≠ Simulator.serverNamespace → u ≠ "urn:potline:sim" →
        namespaceIndexIn u (Simulator.published u) = .ok Simulator.linesNamespaceIndex ∧
          steps.map (·.1) = answersOnFile (fun _ => 0) cmds ∧
          ∀ p ∈ steps, p.2.gate.server.table.sessions = 0 ∧ Tcp.Ended p.2.gate.server.conns) ∧
      (u = Simulator.serverNamespace ∨ u = "urn:potline:sim" → ∀ p ∈ steps, p.1.failed = true)) ∧
    (∀ (conn : Config.Connection) (stamp : Nat), conn.namespaceUri = u →
      let c : Controller MemoryGateway := ⟨MemoryGateway.gateway, conn, policy⟩
      let steps := c.execAll cmds { gate := MemoryGateway.create u stamp }
      (u ≠ MemoryGateway.serverNamespace →
        namespaceIndexIn u (MemoryGateway.create u stamp).namespaces = .ok 1 ∧
          (∀ l k, (MemoryGateway.create u stamp).slot? 1 (RegisterKey.activeLot l k).name = some 0) ∧
          steps.map (·.1) = answersOnFile (fun _ => 0) cmds ∧ ∀ p ∈ steps, p.2.gate.openSessions = 0) ∧
      (u = MemoryGateway.serverNamespace → ∀ p ∈ steps, p.1.failed = true)) := by
  refine ⟨fun setup cfg ids hreach hlots => ?_, fun conn stamp hconn => ⟨fun hu => ?_, fun hu => ?_⟩⟩
  · -- lots that fit the wire, as the register file takes them
    have hfits : ∀ cmd ∈ cmds, ∀ n ∈ cmd.lot?, (0 : Int) ≤ n ∧ (n : Int) < 2 ^ 63 :=
      fun cmd h n hn => ⟨Int.natCast_nonneg n, by exact_mod_cast hlots cmd h n hn⟩
    refine ⟨fun hu₀ hu₁ => ?_, fun hu => ?_⟩
    · have hidx := Simulator.namespaceIndex_published u
      rw [if_neg hu₀, if_neg hu₁] at hidx
      have h₀ : Tcp.Resting (fun _ => 0) ({ gate := {} } : Controller.State Tcp.Link).gate := Tcp.resting_init
      obtain ⟨hanswers, hall⟩ :=
        (Tcp.Controller.files_resting hreach (c := ⟨_, _, policy⟩) rfl rfl hu₀ hu₁).execAll h₀ cmds hcmds hfits
      refine ⟨hidx, hanswers, fun p hp => ?_⟩
      obtain ⟨regs, hr⟩ := hall p hp
      exact ⟨hr.closed, hr.ended⟩
    · exact Controller.execAll_refused (c := ⟨_, _, policy⟩) (Tcp.gateway_answers setup ids)
        (fun l k v hv => Tcp.refuses_colliding hreach rfl rfl hu l k v hv) ⟨_, Tcp.resting_init⟩ cmds hcmds hfits
  · obtain ⟨hidx, hzero, hanswers, hopen⟩ := registerCalls_agree_inMemory hu conn hconn policy stamp cmds hcmds
    exact ⟨hconn ▸ hidx, hzero, hanswers, hopen⟩
  · subst hu
    exact registerCalls_fail_onServerNamespace conn hconn policy stamp cmds hcmds

/-- Lot 5 written to line 1's register and read back, over TCP and in memory,
for the namespace the gateways are set up with by default. -/
theorem registerCalls_agree_onLines :
    let cmds : List Command := [.set .one .pc 5, .get .one .pc]
    let policy : Retry.Policy := ⟨1, fun _ _ => true, fun _ => 10⟩
    (Controller.execAll ⟨Tcp.gateway {} fun _ => "s1", {}, policy⟩ cmds { gate := {} }).map (·.1) =
        [.done true, .value (some 5)] ∧
      (Controller.execAll ⟨MemoryGateway.gateway, {}, policy⟩ cmds
        { gate := MemoryGateway.create "urn:potline:lines" 0 }).map (·.1) = [.done true, .value (some 5)] := by
  intro cmds policy
  have hreach : Tcp.Reaches {} "urn:potline:lines" {} (fun _ => "s1") :=
    ⟨rfl, rfl, rfl, ⟨⟨"localhost", 4840⟩, by decide, by decide⟩, fun _ => by decide +kernel, by decide +kernel⟩
  have hfile : answersOnFile (fun _ => 0) cmds = [.done true, .value (some 5)] := by
    simp [cmds, answersOnFile, Command.onFile, writeFile]
  have hlots : ∀ cmd ∈ cmds, ∀ n ∈ cmd.lot?, n < 2 ^ 63 := by decide
  have hu₀ : "urn:potline:lines" ≠ Simulator.serverNamespace := by decide
  have hu₁ : "urn:potline:lines" ≠ "urn:potline:sim" := by decide
  have hu : "urn:potline:lines" ≠ MemoryGateway.serverNamespace := by decide
  have hagree := registerCalls_agree "urn:potline:lines" policy cmds (by decide)
  rw [← hfile]
  exact ⟨((hagree.1 {} {} (fun _ => "s1") hreach hlots).1 hu₀ hu₁).2.1, ((hagree.2 {} 0 rfl).1 hu).2.2.1⟩

end LotBridge
