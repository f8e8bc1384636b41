import LotBridge.Simulator.Serve
import LotBridge.Proofs.MemoryRegisters

/-!
# A simulated gateway over any interleaving of sessions

A simulated gateway serves any number of connections, one line at a time,
each line served as a whole on the shared registers and session count
(`Simulator.Server.step`). Whatever the interleaving, it keeps two things
(`Simulator.Server.run_safe`): its registers are the five seeded ones, in
their order, and its session count is the number of live connections whose
session is open.

Both are carried by what serving one request does (`Simulator.respond`): a
write that is let through sets one of the four active-lot registers and
stamps `last_updated` (`respond_write_table`), nothing else touches a
register, and an accepted `hello` is the only thing that opens a session,
counting it if it was not open (`respond_balance`). A connection that ends
counts its session off.

Line by line: a blank line is skipped, a line that does not read is answered
with a decoding failure under sequence number 0, and a request gets exactly
one response, under its own sequence number (`respond_response`). Before an
accepted `hello` every other request is refused and changes nothing
(`respond_gate`); a `hello` is accepted exactly when no credentials are set
up or it gives the configured ones, and a refused one ends the connection
(`respond_hello`). A line longer than the framing allows, or no UTF-8, ends
the connection unanswered (`servePiece_refused`), even when it holds a
request that reads (`oversizedRequest_unanswered`).

## Main definitions

* `Simulator.seededNames`, `Simulator.lotNames`, `Simulator.Seeded`.
* `Simulator.Connection.active`, `Simulator.Server.Safe`.
* `Simulator.Serving`: what serving lines does, field by field.
-/

namespace LotBridge

namespace Simulator

open Wire

/-! ## Registers -/

/-- The names of the seeded registers, in their order. -/
def seededNames : List String := RegisterKey.all.map (·.name)

/-- The names of the four active-lot registers. -/
def lotNames : List String :=
  Line.all.flatMap fun l => Component.all.map fun c => (RegisterKey.activeLot l c).name

/-- A table holds exactly the seeded registers, in their order. -/
def Seeded (t : Simulator) : Prop := t.values.map Prod.fst = seededNames

theorem seededNames_eq : seededNames = lotNames ++ [RegisterKey.lastUpdated.name] := rfl

theorem mem_lotNames {id : String} :
    id ∈ lotNames ↔ ∃ l c, id = (RegisterKey.activeLot l c).name := by
  constructor
  · intro h
    simp only [lotNames, List.mem_flatMap, List.mem_map] at h
    obtain ⟨l, -, c, -, rfl⟩ := h
    exact ⟨l, c, rfl⟩
  · rintro ⟨l, c, rfl⟩
    cases l <;> cases c <;> simp [lotNames, Line.all, Component.all]

theorem lastUpdated_not_mem_lotNames : RegisterKey.lastUpdated.name ∉ lotNames := by
  intro h
  obtain ⟨l, c, hlc⟩ := mem_lotNames.1 h
  exact RegisterKey.activeLot_ne_lastUpdated l c (congrArg RegisterKey.mk hlc).symm

theorem lookup_isSome_iff (xs : List (String × Int)) (a : String) :
    (xs.lookup a).isSome ↔ a ∈ xs.map Prod.fst := by
  induction xs with
  | nil => simp
  | cons p rest ih =>
    obtain ⟨n, w⟩ := p
    by_cases h : a = n
    · subst h
      simp
    · have hb : (a == n) = false := by simpa using h
      simp [List.lookup_cons, hb, ih, h]

theorem Seeded.lookup_isSome {t : Simulator} (hs : Seeded t) (id : String) :
    (t.values.lookup id).isSome ↔ id ∈ seededNames := by
  rw [lookup_isSome_iff, hs]

theorem names_replace (xs : List (String × Int)) (name : String) (v : Int) :
    (xs.map fun (n, w) => if n = name then (n, v) else (n, w)).map Prod.fst = xs.map Prod.fst := by
  induction xs with
  | nil => rfl
  | cons p rest ih =>
    obtain ⟨n, w⟩ := p
    by_cases h : n = name <;> simp [h, ih]

theorem set_names (t : Simulator) (k : RegisterKey) (v : Int) (h : (t.values.lookup k.name).isSome) :
    (t.set k v).values.map Prod.fst = t.values.map Prod.fst := by
  simp only [Simulator.set, h, if_true]
  exact names_replace t.values k.name v

@[simp] theorem set_sessions (t : Simulator) (k : RegisterKey) (v : Int) :
    (t.set k v).sessions = t.sessions := by
  unfold Simulator.set
  split <;> rfl

/-- A write to an active-lot register keeps the seeded registers. -/
theorem Seeded.write {t : Simulator} (hs : Seeded t) {id : String} (hid : id ∈ lotNames)
    (v now : Int) : Seeded ((t.set ⟨id⟩ v).set .lastUpdated now) := by
  have hmem : id ∈ seededNames := by
    rw [seededNames_eq]
    exact List.mem_append_left _ hid
  have hlast : RegisterKey.lastUpdated.name ∈ seededNames := by
    rw [seededNames_eq]
    exact List.mem_append_right _ (List.mem_singleton_self _)
  have h1 : Seeded (t.set ⟨id⟩ v) := by
    unfold Seeded
    rw [set_names t ⟨id⟩ v ((hs.lookup_isSome id).2 hmem)]
    exact hs
  unfold Seeded
  rw [set_names _ .lastUpdated now ((h1.lookup_isSome _).2 hlast)]
  exact h1

theorem writeRegister_of_lot {t : Simulator} (hs : Seeded t) {id : String} (hid : id ∈ lotNames)
    (now v : Int) : writeRegister t now id v = .ok ((t.set ⟨id⟩ v).set .lastUpdated now) := by
  have hne : id ≠ RegisterKey.lastUpdated.name := fun h => lastUpdated_not_mem_lotNames (h ▸ hid)
  have hsome : (t.values.lookup id).isSome := by
    rw [hs.lookup_isSome, seededNames_eq]
    exact List.mem_append_left _ hid
  simp [writeRegister, hne, hsome]

theorem writeRegister_of_not_lot {t : Simulator} (hs : Seeded t) {id : String} (hid : id ∉ lotNames)
    (now v : Int) : ∃ err, writeRegister t now id v = .error err := by
  unfold writeRegister
  split
  · exact ⟨_, rfl⟩
  · have hnone : (t.values.lookup id).isSome = false := by
      rw [Bool.eq_false_iff, ne_eq, hs.lookup_isSome, seededNames_eq]
      simp only [List.mem_append, List.mem_singleton, not_or]
      exact ⟨hid, by assumption⟩
    simp [hnone]

theorem checkNamespace_bind {α : Type} (ns : Nat) (f : Unit → Except (StatusCode × String) α) :
    (checkNamespace ns).bind f =
      if ns = linesNamespaceIndex then f ()
      else .error (.badNamespaceUnknown, "unknown namespace index " ++ toString ns) := by
  unfold checkNamespace
  split <;> rfl

/-! ## One request -/

section Respond

variable (setup : Setup) (now : Int) (sess : Session) (t : Simulator)

/-- Whether a session is open, as a count. -/
def Session.count (s : Session) : Nat := if s.id.isSome then 1 else 0

theorem respond_gate (e : Envelope) (hs : sess.id = none) (hh : e.request.isHello = false) :
    respond setup now e sess t =
      ⟨some (.failure e.seq .badSessionNotActivated ("'" ++ e.request.name ++ "' before hello")),
        false, sess, t⟩ := by
  simp [respond, hs, hh]

theorem respond_hello (seq : Nat) (sid : String) (w : Nat) (p m : String) (u pw : Option String) :
    respond setup now ⟨seq, .hello sid w p m u pw⟩ sess t =
      if setup.admits u pw then
        ⟨some (.ok seq), false, ⟨some sid⟩,
          if sess.id.isNone then { t with sessions := t.sessions + 1 } else t⟩
      else ⟨some (.failure seq .badUserAccessDenied "invalid user name or password"), true, sess, t⟩ := by
  simp [respond, Request.isHello]

theorem respond_getNamespaceArray (hs : sess.id.isSome) (seq : Nat) :
    respond setup now ⟨seq, .getNamespaceArray⟩ sess t =
      ⟨some (.withNamespaces seq [serverNamespace, "urn:potline:sim", setup.namespaceUri]),
        false, sess, t⟩ := by
  obtain ⟨_ | sid⟩ := sess
  · simp at hs
  · rfl

theorem respond_read (hs : sess.id.isSome) (seq ns : Nat) (id : String) :
    respond setup now ⟨seq, .read ns id⟩ sess t =
      match (checkNamespace ns).bind fun _ => readRegister t id with
      | .ok v => ⟨some (.withValue seq v), false, sess, t⟩
      | .error (c, m) => ⟨some (.failure seq c m), false, sess, t⟩ := by
  obtain ⟨_ | sid⟩ := sess
  · simp at hs
  · rfl

theorem respond_write (hs : sess.id.isSome) (seq ns : Nat) (id : String) (v : Int) :
    respond setup now ⟨seq, .write ns id v⟩ sess t =
      match (checkNamespace ns).bind fun _ => writeRegister t now id v with
      | .ok t' => ⟨some (.ok seq), false, sess, t'⟩
      | .error (c, m) => ⟨some (.failure seq c m), false, sess, t⟩ := by
  obtain ⟨_ | sid⟩ := sess
  · simp at hs
  · rfl

theorem respond_close (hs : sess.id.isSome) (seq : Nat) :
    respond setup now ⟨seq, .close⟩ sess t = ⟨some (.ok seq), true, sess, t⟩ := by
  obtain ⟨_ | sid⟩ := sess
  · simp at hs
  · rfl

theorem writeRegister_sessions {now : Int} {id : String} {v : Int} {t' : Simulator}
    (h : (checkNamespace ns).bind (fun _ => writeRegister t now id v) = .ok t') :
    t'.sessions = t.sessions := by
  rw [checkNamespace_bind] at h
  split at h
  · unfold writeRegister at h
    split at h
    · cases h
    · split at h
      · cases h
        simp
      · cases h
  · cases h

/-- A request other than `hello` keeps the session and the session count. -/
theorem respond_of_not_hello (e : Envelope) (hh : e.request.isHello = false) :
    (respond setup now e sess t).session = sess ∧
      (respond setup now e sess t).table.sessions = t.sessions := by
  cases hsid : sess.id with
  | none => simp [respond_gate setup now sess t e hsid hh]
  | some sid =>
    have hs : sess.id.isSome := by simp [hsid]
    obtain ⟨seq, r⟩ := e
    cases r with
    | hello => simp [Request.isHello] at hh
    | getNamespaceArray => simp [respond_getNamespaceArray setup now sess t hs]
    | close => simp [respond_close setup now sess t hs]
    | read ns id =>
      rw [respond_read setup now sess t hs]
      split <;> simp
    | write ns id v =>
      rw [respond_write setup now sess t hs]
      split
      · rename_i t' hw
        exact ⟨rfl, writeRegister_sessions t hw⟩
      · simp

/-- Serving a request opens the connection's session only by an accepted
`hello`, and counts it then if it was not open. -/
theorem respond_balance (e : Envelope) :
    (respond setup now e sess t).table.sessions + sess.count =
      t.sessions + (respond setup now e sess t).session.count := by
  cases hh : e.request.isHello with
  | false =>
    obtain ⟨hs, ht⟩ := respond_of_not_hello setup now sess t e hh
    rw [hs, ht]
  | true =>
    obtain ⟨seq, r⟩ := e
    cases r with
    | hello sid w p m u pw =>
      rw [respond_hello]
      by_cases ha : setup.admits u pw
      · cases hsid : sess.id
        · simp [ha, Session.count, hsid]
        · simp [ha, Session.count, hsid]
      · simp [ha]
    | _ => simp [Request.isHello] at hh

theorem respond_response (e : Envelope) :
    ∃ r, (respond setup now e sess t).response = some r ∧ r.seq = e.seq := by
  cases hh : e.request.isHello with
  | false =>
    cases hsid : sess.id with
    | none =>
      rw [respond_gate setup now sess t e hsid hh]
      exact ⟨_, rfl, rfl⟩
    | some sid =>
      have hs : sess.id.isSome := by simp [hsid]
      obtain ⟨seq, r⟩ := e
      cases r with
      | hello => simp [Request.isHello] at hh
      | getNamespaceArray =>
        rw [respond_getNamespaceArray setup now sess t hs]
        exact ⟨_, rfl, rfl⟩
      | close =>
        rw [respond_close setup now sess t hs]
        exact ⟨_, rfl, rfl⟩
      | read ns id =>
        rw [respond_read setup now sess t hs]
        split <;> exact ⟨_, rfl, rfl⟩
      | write ns id v =>
        rw [respond_write setup now sess t hs]
        split <;> exact ⟨_, rfl, rfl⟩
  | true =>
    obtain ⟨seq, r⟩ := e
    cases r with
    | hello sid w p m u pw =>
      rw [respond_hello]
      split <;> exact ⟨_, rfl, rfl⟩
    | _ => simp [Request.isHello] at hh

/-- A write is let through exactly when the session is open, the namespace is
that of the registers and the register is an active-lot one; it then sets the
register and stamps `last_updated` with the time of the write. -/
theorem respond_write_table (hs : Seeded t) (seq ns : Nat) (id : String) (v : Int) :
    (respond setup now ⟨seq, .write ns id v⟩ sess t).table =
      if sess.id.isSome ∧ ns = linesNamespaceIndex ∧ id ∈ lotNames then
        (t.set ⟨id⟩ v).set .lastUpdated now
      else t := by
  cases hsid : sess.id with
  | none => simp [respond_gate setup now sess t ⟨seq, .write ns id v⟩ hsid rfl]
  | some sid =>
    have hopen : sess.id.isSome := by simp [hsid]
    rw [respond_write setup now sess t hopen, checkNamespace_bind]
    by_cases hns : ns = linesNamespaceIndex
    · by_cases hid : id ∈ lotNames
      · simp [hns, hid, writeRegister_of_lot hs hid]
      · obtain ⟨err, herr⟩ := writeRegister_of_not_lot hs hid now v
        simp [hns, hid, herr]
    · simp [hns]

theorem respond_seeded (hs : Seeded t) (e : Envelope) : Seeded (respond setup now e sess t).table := by
  cases hh : e.request.isHello with
  | false =>
    cases hsid : sess.id with
    | none => simpa [respond_gate setup now sess t e hsid hh] using hs
    | some sid =>
      have hopen : sess.id.isSome := by simp [hsid]
      obtain ⟨seq, r⟩ := e
      cases r with
      | hello => simp [Request.isHello] at hh
      | getNamespaceArray => simpa [respond_getNamespaceArray setup now sess t hopen] using hs
      | close => simpa [respond_close setup now sess t hopen] using hs
      | read ns id =>
        rw [respond_read setup now sess t hopen]
        split <;> exact hs
      | write ns id v =>
        rw [respond_write_table setup now sess t hs]
        split
        · rename_i h
          exact hs.write h.2.2 v now
        · exact hs
  | true =>
    obtain ⟨seq, r⟩ := e
    cases r with
    | hello sid w p m u pw =>
      rw [respond_hello]
      split
      · split <;> exact hs
      · exact hs
    | _ => simp [Request.isHello] at hh

theorem admits_iff (u pw : Option String) :
    setup.admits u pw = true ↔ setup.credentials = none ∨
      ∃ user pass, setup.credentials = some (user, pass) ∧ u = some user ∧ pw = some pass := by
  unfold Setup.admits
  cases setup.credentials with
  | none => simp
  | some cred =>
    obtain ⟨user, pass⟩ := cred
    constructor
    · intro h
      simp only [Bool.and_eq_true, beq_iff_eq] at h
      exact .inr ⟨user, pass, rfl, h⟩
    · rintro (h | ⟨_, _, h, hu, hp⟩)
      · cases h
      · cases h
        simp [hu, hp]

theorem respond_hello_success (seq : Nat) (sid : String) (w : Nat) (p m : String)
    (u pw : Option String) :
    (respond setup now ⟨seq, .hello sid w p m u pw⟩ sess t).response.map Response.success =
      some (setup.admits u pw) := by
  rw [respond_hello]
  split <;> simp_all [Response.ok, Response.failure]

theorem respond_hello_close (seq : Nat) (sid : String) (w : Nat) (p m : String)
    (u pw : Option String) :
    (respond setup now ⟨seq, .hello sid w p m u pw⟩ sess t).close = !setup.admits u pw := by
  rw [respond_hello]
  split <;> simp_all

/-- Only an accepted `hello` changes a connection's session, and it opens it. -/
theorem respond_session (e : Envelope) :
    (respond setup now e sess t).session = sess ∨
      ∃ sid w p m u pw, e.request = .hello sid w p m u pw ∧ setup.admits u pw = true ∧
        (respond setup now e sess t).session = ⟨some sid⟩ := by
  cases hh : e.request.isHello with
  | false => exact .inl (respond_of_not_hello setup now sess t e hh).1
  | true =>
    obtain ⟨seq, r⟩ := e
    cases r with
    | hello sid w p m u pw =>
      rw [respond_hello]
      by_cases ha : setup.admits u pw
      · exact .inr ⟨sid, w, p, m, u, pw, rfl, ha, by simp [ha]⟩
      · exact .inl (by simp [ha])
    | _ => simp [Request.isHello] at hh

end Respond

/-! ## One line -/

section Lines

variable (setup : Setup) (now : Int) (sess : Session) (t : Simulator)

theorem serveLine_blank (line : String) (h : (Text.trim line).isEmpty = true) :
    serveLine setup now line sess t = ⟨none, false, sess, t⟩ := by
  simp [serveLine, h]

theorem serveLine_parsed (line : String) (h : (Text.trim line).isEmpty = false) {e : Envelope}
    (he : Envelope.parse (Text.trim line) = .ok e) :
    serveLine setup now line sess t = respond setup now e sess t := by
  simp [serveLine, h, he]

theorem serveLine_unparsed (line : String) (h : (Text.trim line).isEmpty = false)
    {err : Json.DecodeError} (he : Envelope.parse (Text.trim line) = .error err) :
    serveLine setup now line sess t = ⟨some (.failure 0 .badDecodingError err.render), false, sess, t⟩ := by
  simp [serveLine, h, he]

/-- What serving a line keeps: the seeded registers, and the count of sessions
against the connection's session. -/
theorem serveLine_keeps (hs : Seeded t) (line : String) :
    Seeded (serveLine setup now line sess t).table ∧
      (serveLine setup now line sess t).table.sessions + sess.count =
        t.sessions + (serveLine setup now line sess t).session.count := by
  dsimp only [serveLine]
  split
  · exact ⟨hs, rfl⟩
  · split
    · exact ⟨respond_seeded setup now sess t hs _, respond_balance setup now sess t _⟩
    · exact ⟨hs, rfl⟩

theorem servePiece_framed {piece : List UInt8} {line : String}
    (h : linesOf maxLineBytes [piece] = ([line], none)) :
    servePiece setup now piece sess t = serveLine setup now line sess t := by
  simp [servePiece, h]

/-- A piece longer than a line may be, or no UTF-8, ends the connection
unanswered. -/
theorem servePiece_refused (piece : List UInt8)
    (h : maxLineBytes < piece.length ∨ ∃ err, Text.decodeUtf8 piece = .error err) :
    servePiece setup now piece sess t = ⟨none, true, sess, t⟩ := by
  rcases h with hlong | ⟨err, herr⟩
  · simp [servePiece, linesOf, hlong]
  · by_cases hlong : maxLineBytes < piece.length
    · simp [servePiece, linesOf, hlong]
    · simp [servePiece, linesOf, hlong, herr]

theorem servePiece_keeps (hs : Seeded t) (piece : List UInt8) :
    Seeded (servePiece setup now piece sess t).table ∧
      (servePiece setup now piece sess t).table.sessions + sess.count =
        t.sessions + (servePiece setup now piece sess t).session.count := by
  unfold servePiece
  split
  · exact serveLine_keeps setup now sess t hs _
  · exact ⟨hs, rfl⟩

end Lines

/-! ## Runs -/

/-- A connection that counts: live, with an open session. -/
def Connection.active (c : Connection) : Bool := c.live && c.session.id.isSome

namespace Server

/-- What every run keeps: the seeded registers, and a session count equal to
the live connections with an open session. -/
def Safe (s : Server) : Prop := Seeded s.table ∧ s.table.sessions = s.conns.countP Connection.active

theorem safe_init : ({} : Server).Safe := ⟨rfl, rfl⟩

theorem count_le_one (s : Session) : s.count ≤ 1 := by
  unfold Session.count
  split <;> omega

theorem active_ind {c : Connection} (h : c.live = true) :
    (if c.active = true then 1 else 0) = c.session.count := by
  simp [Connection.active, Session.count, h]

/-- Serving a line of live connection `c`, seen before as `conn₀`, leaves the
registers `t` and the connection `conn`; when the session count of `t` is
balanced against the two sessions, the server stays safe, whether the
connection goes on or ends. -/
theorem safe_replace {s : Server} (hs : s.Safe) {c : Nat} {conn₀ : Connection}
    (hc : s.conns[c]? = some conn₀) (hlive : conn₀.live = true) (conn : Connection) {t : Simulator}
    (ht : Seeded t)
    (hbal : t.sessions + conn₀.session.count = s.table.sessions + conn.session.count) :
    (conn.live = true → (⟨t, s.conns.set c conn⟩ : Server).Safe) ∧ (s.finish c conn t).Safe := by
  obtain ⟨hlen, hget⟩ := List.getElem?_eq_some_iff.1 hc
  have hset := List.countP_set (p := Connection.active) (a := conn) hlen
  have hend := List.countP_set (p := Connection.active) (a := { conn with live := false }) hlen
  rw [hget, active_ind hlive] at hset hend
  have hoff : (if ({ conn with live := false } : Connection).active = true then 1 else 0) = 0 := by
    simp [Connection.active]
  rw [hoff] at hend
  -- an open session of the connection is counted, so the count is not zero
  have hpos : 0 < conn₀.session.count → 0 < s.conns.countP Connection.active := fun h => by
    refine List.countP_pos_iff.2 ⟨conn₀, List.mem_of_getElem? hc, ?_⟩
    simp only [Session.count] at h
    split at h
    · simp_all [Connection.active]
    · omega
  have h₀ := count_le_one conn₀.session
  have h₁ := count_le_one conn.session
  have hsafe := hs.2
  refine ⟨fun hl => ⟨ht, ?_⟩, ⟨?_, ?_⟩⟩
  · show t.sessions = (s.conns.set c conn).countP Connection.active
    rw [hset, active_ind hl]
    omega
  · unfold finish
    split <;> exact ht
  · show (s.finish c conn t).table.sessions = (s.conns.set c { conn with live := false }).countP _
    rw [hend]
    unfold finish
    by_cases hopen : conn.session.id.isSome
    · have : conn.session.count = 1 := by simp [Session.count, hopen]
      simp only [hopen, if_true]
      omega
    · have : conn.session.count = 0 := by simp [Session.count, hopen]
      simp only [hopen, Bool.false_eq_true, if_false]
      omega

theorem step_safe (setup : Setup) {s : Server} (hs : s.Safe) (ev : Event) : (s.step setup ev).Safe := by
  cases ev with
  | accept stream =>
    refine ⟨hs.1, ?_⟩
    simp [step, List.countP_append, Connection.active, hs.2]
  | serve c now =>
    simp only [step]
    cases hc : s.conns[c]? with
    | none => exact hs
    | some conn =>
      dsimp only
      cases hlive : conn.live with
      | false => exact hs
      | true =>
        simp only [Bool.not_true, Bool.false_eq_true, if_false]
        cases hp : conn.pending with
        | nil => exact (safe_replace hs hc hlive conn hs.1 rfl).2
        | cons p ps =>
          dsimp only
          obtain ⟨hseed, hbal⟩ := servePiece_keeps setup now conn.session s.table hs.1 p
          have hrep := safe_replace hs hc hlive
            ⟨ps, (servePiece setup now p conn.session s.table).session,
              conn.written ++ (servePiece setup now p conn.session s.table).response.toList, true⟩
            hseed hbal
          split
          · exact hrep.2
          · exact hrep.1 rfl

/-- Whatever the events, in whatever order, the registers are the seeded ones
and the session count is that of the live connections with an open session. -/
theorem run_safe (setup : Setup) (events : List Event) : (run setup events).Safe := by
  suffices h : ∀ s : Server, s.Safe → (events.foldl (step setup) s).Safe from h {} safe_init
  induction events with
  | nil => exact fun _ hs => hs
  | cons ev rest ih => exact fun s hs => ih _ (step_safe setup hs ev)

end Server

/-! ## The whole -/

/-- What a gateway set up as `setup` does, over any interleaving of its
connections and line by line. -/
structure Serving (setup : Setup) : Prop where
  /-- After any events the registers are the seeded ones, and the session
  count is that of the live connections with an open session. -/
  safe : ∀ events, (Server.run setup events).Safe
  /-- A blank line is skipped. -/
  blank : ∀ now line sess t, (Text.trim line).isEmpty = true →
    serveLine setup now line sess t = ⟨none, false, sess, t⟩
  /-- A request gets one response, under its own sequence number. -/
  answered : ∀ now line sess t e, (Text.trim line).isEmpty = false →
    Envelope.parse (Text.trim line) = .ok e →
      ∃ r, (serveLine setup now line sess t).response = some r ∧ r.seq = e.seq
  /-- Another line that does not read gets a decoding failure under sequence
  number 0, and changes nothing. -/
  undecodable : ∀ now line sess t err, (Text.trim line).isEmpty = false →
    Envelope.parse (Text.trim line) = .error err →
      serveLine setup now line sess t = ⟨some (.failure 0 .badDecodingError err.render), false, sess, t⟩
  /-- A piece of the stream that the framing takes is served as its line. -/
  framed : ∀ now piece line sess t, linesOf maxLineBytes [piece] = ([line], none) →
    servePiece setup now piece sess t = serveLine setup now line sess t
  /-- A piece too long for a line, or no UTF-8, ends the connection unanswered. -/
  unframed : ∀ now piece sess t,
    (maxLineBytes < piece.length ∨ ∃ err, Text.decodeUtf8 piece = .error err) →
      servePiece setup now piece sess t = ⟨none, true, sess, t⟩
  /-- Without an open session, a request other than `hello` is refused and
  changes nothing. -/
  gated : ∀ now e sess t, sess.id = none → e.request.isHello = false →
    respond setup now e sess t =
      ⟨some (.failure e.seq .badSessionNotActivated ("'" ++ e.request.name ++ "' before hello")),
        false, sess, t⟩
  /-- A `hello` succeeds exactly when no credentials are set up or it gives
  the configured ones; a `hello` that fails ends the connection. -/
  hello : ∀ now seq sid w p m u pw sess t,
    ((respond setup now ⟨seq, .hello sid w p m u pw⟩ sess t).response.map Response.success =
        some true ↔ setup.credentials = none ∨
          ∃ user pass, setup.credentials = some (user, pass) ∧ u = some user ∧ pw = some pass) ∧
      ((respond setup now ⟨seq, .hello sid w p m u pw⟩ sess t).response.map Response.success =
        some false → (respond setup now ⟨seq, .hello sid w p m u pw⟩ sess t).close = true)
  /-- Only an accepted `hello` changes a session, and it opens it. -/
  opened : ∀ now e sess t, (respond setup now e sess t).session = sess ∨
    ∃ sid w p m u pw, e.request = .hello sid w p m u pw ∧ setup.admits u pw = true ∧
      (respond setup now e sess t).session = ⟨some sid⟩
  /-- A write changes the registers exactly when the session is open, the
  namespace is 2 and the register is an active-lot one; it then sets that
  register and stamps `last_updated` with the time of the write. -/
  write : ∀ now seq ns id v sess t, Seeded t →
    (respond setup now ⟨seq, .write ns id v⟩ sess t).table =
      if sess.id.isSome ∧ ns = linesNamespaceIndex ∧ id ∈ lotNames then
        (t.set ⟨id⟩ v).set .lastUpdated now
      else t

theorem gateway_serving_safe (setup : Setup) : Serving setup where
  safe := Server.run_safe setup
  blank now line sess t h := serveLine_blank setup now sess t line h
  answered now line sess t e hb he := by
    rw [serveLine_parsed setup now sess t line hb he]
    exact respond_response setup now sess t e
  undecodable now line sess t _ hb he := serveLine_unparsed setup now sess t line hb he
  framed now _ _ sess t h := servePiece_framed setup now sess t h
  unframed now piece sess t h := servePiece_refused setup now sess t piece h
  gated now e sess t hs hh := respond_gate setup now sess t e hs hh
  hello now seq sid w p m u pw sess t := by
    rw [respond_hello_success, respond_hello_close, ← admits_iff]
    constructor
    · simp
    · intro h
      simp_all
  opened now e sess t := respond_session setup now sess t e
  write now seq ns id v sess t hs := respond_write_table setup now sess t hs seq ns id v

/-- A write to line 1's PC register on a fresh gateway, with an open session,
sets it and stamps `last_updated`. -/
theorem gateway_serving_safe_onFreshWrite :
    (respond {} 5 ⟨2, .write 2 "Lijn1_PC_nr_actieve_partij" 42⟩ ⟨some "s1"⟩ seeded).table =
      (seeded.set ⟨"Lijn1_PC_nr_actieve_partij"⟩ 42).set .lastUpdated 5 := by
  rw [(gateway_serving_safe {}).write 5 2 2 "Lijn1_PC_nr_actieve_partij" 42 ⟨some "s1"⟩ seeded rfl]
  exact if_pos ⟨rfl, rfl, mem_lotNames.2 ⟨.one, .pc, rfl⟩⟩

theorem blanks_newline (n : Nat) :
    ∀ b ∈ (String.ofList (List.replicate n ' ') ++ "\n").toList, Text.isBlank b = true := by
  intro b hb
  simp only [String.toList_append, String.toList_ofList, List.mem_append, List.mem_replicate] at hb
  rcases hb with ⟨-, rfl⟩ | hb
  · rfl
  · have : b = '\n' := by simpa using hb
    subst this
    rfl

/-- A line padded with blanks reads as the line itself, but a long enough
padding makes the framing refuse it. -/
theorem padded_unanswered (setup : Setup) (now : Int) (sess : Session) (t : Simulator)
    (req : String) (n : Nat) (hn : maxLineBytes < req.length + n + 1) :
    Text.trim (req ++ (String.ofList (List.replicate n ' ') ++ "\n")) = Text.trim req ∧
      servePiece setup now (Text.encodeUtf8 (req ++ (String.ofList (List.replicate n ' ') ++ "\n")))
        sess t = ⟨none, true, sess, t⟩ := by
  refine ⟨Text.trim_append_blanks _ _ (blanks_newline n), ?_⟩
  apply servePiece_refused
  left
  have hlen : (req ++ (String.ofList (List.replicate n ' ') ++ "\n")).length = req.length + n + 1 := by
    simp only [String.length_append, String.length_ofList, List.length_replicate]
    rfl
  calc maxLineBytes < req.length + n + 1 := hn
    _ = (req ++ (String.ofList (List.replicate n ' ') ++ "\n")).length := hlen.symm
    _ ≤ _ := Text.length_le_encodeUtf8 _

/-- A request that reads, sent on one line too long for the framing, is never
answered: the connection ends. -/
theorem oversizedRequest_unanswered :
    Envelope.parse (Text.trim ("\x7b\"seq\":7,\"op\":\"get_namespace_array\"\x7d" ++
        (String.ofList (List.replicate 16400 ' ') ++ "\n"))) = .ok ⟨7, .getNamespaceArray⟩ ∧
      servePiece {} 0 (Text.encodeUtf8 ("\x7b\"seq\":7,\"op\":\"get_namespace_array\"\x7d" ++
        (String.ofList (List.replicate 16400 ' ') ++ "\n"))) {} seeded = ⟨none, true, {}, seeded⟩ := by
  have hlen : ("\x7b\"seq\":7,\"op\":\"get_namespace_array\"\x7d").length = 36 := by rfl
  obtain ⟨htrim, hserve⟩ := padded_unanswered {} 0 {} seeded
    "\x7b\"seq\":7,\"op\":\"get_namespace_array\"\x7d" 16400
    (by rw [hlen]; simp only [maxLineBytes]; omega)
  refine ⟨?_, hserve⟩
  rw [htrim]
  rfl

end Simulator

end LotBridge
