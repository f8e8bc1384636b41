import LotBridge.Proofs.GatewayLog
import LotBridge.Gateway.Memory

/-!
# A session closes what it opened, once

A session connects, looks the plant's namespace up in the list the gateway
publishes, works through its steps at the index found, and closes the
connection, whatever happened after connecting. Run to its end on a logged
gateway, it leaves one of four logs (`Session.Scoped`):

* the connection was refused, or did not answer in time: the connection
  request alone, and no closing;
* connected, but the namespace query failed or did not give a usable index:
  the query, then the closing;
* connected and resolved at index `i`: the query, the reads and writes of the
  work at index `i` up to the first that failed (all of them on success), then
  the closing.

So a session closes exactly once when its connection was accepted, as its
last request, and never otherwise (`Session.Scoped.closes`). That holds
whatever the gateway answers, as long as it answers reads and writes
(`Gateway.AnswersRegisters`): a connection may go unanswered, and then times
out (`Session.finish_scoped`). What closing answers is never looked at: a
gateway that answers it otherwise gives the same run (`Session.finish_closeAnswer`).

## Main definitions

* `Step.request`, `Step.requests`: the reads and writes of work at an index.
* `Gateway.AnswersRegisters`: a gateway that answers every read and write.
* `Session.Scoped`: the requests a session made, by how it ended.
* `Gateway.answeringClose`: a gateway answering closing otherwise.
-/

namespace LotBridge

/-- The read or write a step makes at namespace index `i`; the other steps ask
nothing of the gateway. -/
def Step.request (i : Nat) : Step → Option Gateway.Request
  | .read k => some (.read ⟨i, k⟩)
  | .write k v => some (.write ⟨i, k⟩ v)
  | .pause _ | .namespaceIndex | .resolve _ => none

/-- The reads and writes of work at namespace index `i`, in order. -/
def Step.requests (i : Nat) (work : List Step) : List Gateway.Request :=
  work.filterMap (Step.request i)

namespace Step

@[simp] theorem requests_nil (i : Nat) : requests i [] = [] := rfl

@[simp] theorem requests_read (i : Nat) (k : RegisterKey) (rest : List Step) :
    requests i (.read k :: rest) = .read ⟨i, k⟩ :: requests i rest := rfl

@[simp] theorem requests_write (i : Nat) (k : RegisterKey) (v : Int) (rest : List Step) :
    requests i (.write k v :: rest) = .write ⟨i, k⟩ v :: requests i rest := rfl

@[simp] theorem requests_pause (i ms : Nat) (rest : List Step) :
    requests i (.pause ms :: rest) = requests i rest := rfl

@[simp] theorem requests_namespaceIndex (i : Nat) (rest : List Step) :
    requests i (.namespaceIndex :: rest) = requests i rest := rfl

@[simp] theorem requests_resolve (i : Nat) (k : RegisterKey) (rest : List Step) :
    requests i (.resolve k :: rest) = requests i rest := rfl

/-- Work neither connects nor closes. -/
theorem count_requests (i : Nat) (work : List Step) :
    (requests i work).count .connect = 0 ∧ (requests i work).count .close = 0 := by
  induction work with
  | nil => simp
  | cons s rest ih => cases s <;> simp [ih]

end Step

/-- A gateway that answers every read and write of a register; a connection
may still go unanswered. -/
structure Gateway.AnswersRegisters {σ : Type} (gw : Gateway σ) : Prop where
  read : ∀ a g, (gw.read a g).1 ≠ .silent
  write : ∀ a v g, (gw.write a v g).1 ≠ .silent

/-- Gateway `gw` answering closing by `answer`, its effect on the state kept. -/
def Gateway.answeringClose {σ : Type} (gw : Gateway σ) (answer : σ → Except Failure Unit) :
    Gateway σ :=
  { gw with close := fun g => (answer g, (gw.close g).2) }

namespace Session

variable {σ : Type} (gw : Gateway σ) (conn : Config.Connection)

/-- The requests `L` a session of `work` made of gateway `gw` from state `g`,
by how it ended with result `r`. -/
inductive Scoped (work : List Step) (g : σ) :
    List Gateway.Request → Except Failure (List Yield) → Prop
  /-- The connection was refused: nothing more was asked. -/
  | refused {e : Failure} : (gw.connect conn g).1 = .answer (.error e) →
      Scoped work g [.connect] (.error e)
  /-- The connection did not answer, and the connect timeout expired. -/
  | timedOut : (gw.connect conn g).1 = .silent →
      Scoped work g [.connect] (.error (connectTimedOut conn))
  /-- Connected, but the namespace query failed or gave no usable index: the
  connection was closed at once. -/
  | unresolved {e : Failure} : (gw.connect conn g).1 = .answer (.ok ()) →
      ((gw.namespaces (gw.connect conn g).2).1 = .error e ∨
        ∃ published, (gw.namespaces (gw.connect conn g).2).1 = .ok published ∧
          namespaceIndexIn conn.namespaceUri published = .error e) →
      Scoped work g [.connect, .namespaces, .close] (.error e)
  /-- Connected and resolved at index `i`: the reads and writes of the work at
  that index, up to the first that failed and all of them on success, then the
  closing. -/
  | worked {published : List String} {i : Nat} {mid : List Gateway.Request}
      {r : Except Failure (List Yield)} : (gw.connect conn g).1 = .answer (.ok ()) →
      (gw.namespaces (gw.connect conn g).2).1 = .ok published →
      namespaceIndexIn conn.namespaceUri published = .ok i →
      mid <+: Step.requests i work → (∀ ys, r = .ok ys → mid = Step.requests i work) →
      Scoped work g (.connect :: .namespaces :: mid ++ [.close]) r

variable {gw conn}

/-- **A session closes once what it opened.** When its connection was
accepted, a session closed it exactly once, as its last request; when not, it
asked for the connection and nothing more. -/
theorem Scoped.closes {work : List Step} {g : σ} {L : List Gateway.Request}
    {r : Except Failure (List Yield)} (h : Scoped gw conn work g L r) :
    ((gw.connect conn g).1 = .answer (.ok ()) → L.count .close = 1 ∧ L.getLast? = some .close) ∧
      ((gw.connect conn g).1 ≠ .answer (.ok ()) → L = [.connect]) := by
  cases h with
  | refused hc => exact ⟨fun hok => (by rw [hc] at hok; cases hok), fun _ => rfl⟩
  | timedOut hc => exact ⟨fun hok => (by rw [hc] at hok; cases hok), fun _ => rfl⟩
  | unresolved hc _ => exact ⟨fun _ => by decide, fun hno => absurd hc hno⟩
  | @worked published i mid r hc _ _ hmid _ =>
    -- the work in between neither connects nor closes
    have hclose : mid.count .close = 0 :=
      Nat.le_zero.1 (Nat.le_trans (hmid.sublist.count_le _)
        (Nat.le_of_eq (Step.count_requests i work).2))
    exact ⟨fun _ => ⟨by simp [hclose], by simp [List.getLast?_cons, List.getLast?_append]⟩,
      fun hno => absurd hc hno⟩

/-! ## The stages of a session -/

section Runs

variable (gw conn)

/-- A session never cancelled that ends in a run ends there. -/
theorem finishFrom_finished {fuel now : Nat} {s : Session} {g : σ} {r : Except Failure (List Yield)}
    {t : Tracker} {g' : σ} (h : advance gw conn now s g = (.finished r t, g')) :
    finishFrom gw conn none (fuel + 1) now s g = (⟨.finished r, t, now⟩, g') := by
  simp [finishFrom, h]

/-- A session never cancelled that waits for a time goes on at that time. -/
theorem finishFrom_waiting {fuel now w : Nat} {s s' : Session} {g g' : σ}
    (h : advance gw conn now s g = (.waiting (some w) s', g')) :
    finishFrom gw conn none (fuel + 1) now s g = finishFrom gw conn none fuel w s' g' := by
  simp [finishFrom, h]

theorem advance_working (now : Nat) (t : Tracker) (work : List Step) (i : Nat) (todo : List Step)
    (done : List Yield) (g : σ) :
    advance gw conn now ⟨t, work, .working i todo done⟩ g = perform gw now t work i todo done g := rfl

end Runs

section Connected

variable (gw conn) (now : Nat) (t : Tracker) (work : List Step)

/-- A session once connected: the namespace query fails or gives no usable
index, and the session closes at once; or it goes on with its work at the
index found. -/
theorem connected_scoped (g : σ) (log : List Gateway.Request) :
    (∃ e t', ((gw.namespaces g).1 = .error e ∨ ∃ published, (gw.namespaces g).1 = .ok published ∧
          namespaceIndexIn conn.namespaceUri published = .error e) ∧
        connected gw.logged conn now t work (g, log) =
          (.finished (.error e) t', ((gw.close (gw.namespaces g).2).2, log ++ [.namespaces, .close]))) ∨
    (∃ published i t', (gw.namespaces g).1 = .ok published ∧
        namespaceIndexIn conn.namespaceUri published = .ok i ∧
        connected gw.logged conn now t work (g, log) =
          perform gw.logged now t' work i work [] ((gw.namespaces g).2, log ++ [.namespaces])) := by
  cases hns : gw.namespaces g with
  | mk answer g₁ =>
    cases answer with
    | error e =>
      exact Or.inl ⟨e, ((t.step .connected).2.step .fault).2, Or.inl rfl,
        by simp [connected, abandon, hns]⟩
    | ok published =>
      cases hidx : namespaceIndexIn conn.namespaceUri published with
      | error e =>
        exact Or.inl ⟨e, ((t.step .connected).2.step .fault).2, Or.inr ⟨published, rfl, hidx⟩,
          by simp [connected, abandon, hns, hidx]⟩
      | ok i =>
        exact Or.inr ⟨published, i, ((t.step .connected).2.step .resolved).2, rfl, hidx,
          by simp [connected, hns, hidx]⟩

end Connected

section Stages

variable (gw conn)
variable (hans : gw.AnswersRegisters) (now : Nat) (t : Tracker) (work : List Step) (i : Nat)
include hans

/-- A read or write at the index found, answered: the work goes on after it,
or fails there and the connection is closed. -/
theorem perform_request {step : Step} {req : Gateway.Request} (hreq : step.request i = some req)
    (rest : List Step) (done : List Yield) (g : σ) (log : List Gateway.Request) :
    (∃ done' g₁, perform gw.logged now t work i (step :: rest) done (g, log) =
        perform gw.logged now t work i rest done' (g₁, log ++ [req])) ∨
    (∃ e g₁, perform gw.logged now t work i (step :: rest) done (g, log) =
        (.finished (.error e) (t.step .fault).2, ((gw.close g₁).2, log ++ [req, .close]))) := by
  cases step with
  | read k =>
    simp only [Step.request, Option.some.injEq] at hreq
    subst hreq
    have hsil := hans.read ⟨i, k⟩ g
    cases hread : gw.read ⟨i, k⟩ g with
    | mk reply g₁ =>
      rw [hread] at hsil
      cases reply with
      | answer res =>
        cases res with
        | ok v => exact Or.inl ⟨.number v :: done, g₁, by simp [perform, hread]⟩
        | error e => exact Or.inr ⟨e, g₁, by simp [perform, abandon, hread]⟩
      | silent => exact absurd rfl hsil
  | write k v =>
    simp only [Step.request, Option.some.injEq] at hreq
    subst hreq
    have hsil := hans.write ⟨i, k⟩ v g
    cases hwrite : gw.write ⟨i, k⟩ v g with
    | mk reply g₁ =>
      rw [hwrite] at hsil
      cases reply with
      | answer res =>
        cases res with
        | ok u => exact Or.inl ⟨.unit :: done, g₁, by simp [perform, hwrite]⟩
        | error e => exact Or.inr ⟨e, g₁, by simp [perform, abandon, hwrite]⟩
      | silent => exact absurd rfl hsil
  | pause _ | namespaceIndex | resolve _ => simp [Step.request] at hreq

omit hans in
/-- A step that asks nothing of the gateway: the work goes on at once, or
waits for a pause. -/
theorem perform_quiet {step : Step} (hreq : step.request i = none) (rest : List Step)
    (done : List Yield) (g : σ) :
    (∃ done', perform gw now t work i (step :: rest) done g = perform gw now t work i rest done' g) ∨
    (∃ w done', perform gw now t work i (step :: rest) done g =
        (.waiting (some w) ⟨t, work, .working i rest done'⟩, g)) := by
  cases step with
  | read _ | write _ _ => simp [Step.request] at hreq
  | pause ms =>
    by_cases hms : ms = 0
    · exact Or.inl ⟨.unit :: done, by simp [perform, hms]⟩
    · exact Or.inr ⟨now + ms, .unit :: done, by simp [perform, hms]⟩
  | namespaceIndex => exact Or.inl ⟨.index i :: done, rfl⟩
  | resolve k => exact Or.inl ⟨.address ⟨i, k⟩ :: done, rfl⟩

/-- The steps at the index found, from any point of the work: the session
ends, having made the reads and writes up to the first that failed, and
closed; or it pauses, having made those up to the pause. -/
theorem perform_scoped (todo : List Step) (done : List Yield) (g : σ) (log : List Gateway.Request) :
    (∃ mid r t' g', mid <+: Step.requests i todo ∧
        (∀ ys, r = .ok ys → mid = Step.requests i todo) ∧
        perform gw.logged now t work i todo done (g, log) =
          (.finished r t', (g', log ++ mid ++ [.close]))) ∨
    (∃ mid w rest done' g', mid ++ Step.requests i rest = Step.requests i todo ∧
        rest.length < todo.length ∧
        perform gw.logged now t work i todo done (g, log) =
          (.waiting (some w) ⟨t, work, .working i rest done'⟩, (g', log ++ mid))) := by
  induction todo generalizing done g log with
  | nil =>
    exact Or.inl ⟨[], .ok done.reverse, (t.step .completed).2, (gw.close g).2, List.nil_prefix,
      fun _ _ => rfl, by simp [perform]⟩
  | cons step rest ih =>
    cases hreq : step.request i with
    | some req =>
      -- a read or write made: the rest of the work follows it in the log
      have hreqs : Step.requests i (step :: rest) = req :: Step.requests i rest := by
        simp [Step.requests, hreq]
      rw [hreqs]
      rcases perform_request gw hans now t work i hreq rest done g log with
        ⟨done', g₁, hstep⟩ | ⟨e, g₁, hstep⟩
      · rw [hstep]
        rcases ih done' g₁ (log ++ [req]) with
          ⟨mid, r, t', g', hmid, hall, h⟩ | ⟨mid, w, rest', done'', g', hmid, hlen, h⟩
        · exact Or.inl ⟨req :: mid, r, t', g', (List.prefix_cons_inj _).2 hmid,
            fun ys hr => by rw [hall ys hr], by simpa using h⟩
        · exact Or.inr ⟨req :: mid, w, rest', done'', g', by simp [hmid], by simp; omega,
            by simpa using h⟩
      · -- the first failure: the connection is closed after it
        exact Or.inl ⟨[req], .error e, (t.step .fault).2, (gw.close g₁).2, by simp,
          fun _ hr => (by cases hr), by simpa using hstep⟩
    | none =>
      have hreqs : Step.requests i (step :: rest) = Step.requests i rest := by
        simp [Step.requests, hreq]
      rw [hreqs]
      rcases perform_quiet gw.logged now t work i hreq rest done (g, log) with
        ⟨done', hstep⟩ | ⟨w, done', hstep⟩
      · rw [hstep]
        rcases ih done' g log with h | ⟨mid, w, rest', done'', g', hmid, hlen, h⟩
        · exact Or.inl h
        · exact Or.inr ⟨mid, w, rest', done'', g', hmid, by simp; omega, h⟩
      · -- a pause that waits: nothing asked yet
        exact Or.inr ⟨[], w, rest, done', g, by simp, by simp, by simpa using hstep⟩

/-- A session at work, never cancelled, with fuel for its pauses: it ends,
having made the reads and writes up to the first that failed, then closed. -/
theorem finishFrom_working (fuel : Nat) (todo : List Step) (done : List Yield) (now : Nat) (g : σ)
    (log : List Gateway.Request) (hfuel : todo.length < fuel) :
    ∃ mid r t' time g', mid <+: Step.requests i todo ∧
      (∀ ys, r = .ok ys → mid = Step.requests i todo) ∧
      finishFrom gw.logged conn none fuel now ⟨t, work, .working i todo done⟩ (g, log) =
        (⟨.finished r, t', time⟩, (g', log ++ mid ++ [.close])) := by
  induction fuel generalizing todo done now g log with
  | zero => omega
  | succ fuel ih =>
    rcases perform_scoped gw hans now t work i todo done g log with
      ⟨mid, r, t', g', hmid, hall, h⟩ | ⟨mid, w, rest, done', g', hreq, hlen, h⟩
    · rw [← advance_working gw.logged conn] at h
      exact ⟨mid, r, t', now, g', hmid, hall, finishFrom_finished gw.logged conn h⟩
    · -- the pause is over at `w`: the session goes on from there
      rw [← advance_working gw.logged conn] at h
      obtain ⟨mid', r, t', time, g'', hmid', hall, h'⟩ :=
        ih rest done' w g' (log ++ mid) (by omega)
      refine ⟨mid ++ mid', r, t', time, g'', ?_, ?_, ?_⟩
      · rw [← hreq]
        exact (List.prefix_append_right_inj mid).2 hmid'
      · intro ys hr
        rw [← hreq, hall ys hr]
      · rw [finishFrom_waiting gw.logged conn h, h', List.append_assoc log mid mid']

/-- **A session run to its end closes once what it opened.** On a gateway that
answers every read and write, a session never cancelled ends, whatever the
gateway answers, and the requests it made are those `Scoped` allows for its
result. -/
theorem finish_scoped (g : σ) (log : List Gateway.Request) :
    ∃ r L, (finish gw.logged conn none now t work (g, log)).1.ending = .finished r ∧
      (finish gw.logged conn none now t work (g, log)).2.2 = log ++ L ∧ Scoped gw conn work g L r := by
  have hfuel : finish gw.logged conn none now t work (g, log) =
      finishFrom gw.logged conn none (work.length + 1 + 1) now ⟨t, work, .opening⟩ (g, log) := rfl
  rw [hfuel]
  cases hc : gw.connect conn g with
  | mk reply g₁ =>
    cases reply with
    | answer res =>
      cases res with
      | ok u =>
        have hadv : advance gw.logged conn now ⟨t, work, .opening⟩ (g, log) =
            connected gw.logged conn now (t.step .connect).2 work (g₁, log ++ [.connect]) := by
          simp [advance, hc]
        rcases connected_scoped gw conn now (t.step .connect).2 work g₁ (log ++ [.connect]) with
          ⟨e, t', hfail, hcon⟩ | ⟨published, i, t', hns, hidx, hcon⟩
        · rw [hcon] at hadv
          refine ⟨.error e, [.connect, .namespaces, .close], ?_, ?_,
            .unresolved (by rw [hc]) (by rwa [hc])⟩ <;> simp [finishFrom_finished gw.logged conn hadv]
        · rw [hcon] at hadv
          rcases perform_scoped gw hans now t' work i work [] (gw.namespaces g₁).2
              (log ++ [.connect] ++ [.namespaces]) with
            ⟨mid, r, t'', g', hmid, hall, h⟩ | ⟨mid, w, rest, done', g', hreq, hlen, h⟩
          · rw [h] at hadv
            refine ⟨r, .connect :: .namespaces :: mid ++ [.close], ?_, ?_,
              .worked (by rw [hc]) (by rwa [hc]) hidx hmid hall⟩ <;>
              simp [finishFrom_finished gw.logged conn hadv]
          · -- a pause in the work: the session goes on when it is over
            rw [h] at hadv
            obtain ⟨mid', r, t'', time, g'', hmid', hall, h'⟩ :=
              finishFrom_working gw conn hans t' work i (work.length + 1) rest done' w g'
                (log ++ [.connect] ++ [.namespaces] ++ mid) (by omega)
            have hprefix : mid ++ mid' <+: Step.requests i work := by
              rw [← hreq]
              exact (List.prefix_append_right_inj mid).2 hmid'
            have hall' : ∀ ys, r = .ok ys → mid ++ mid' = Step.requests i work := by
              intro ys hr
              rw [← hreq, hall ys hr]
            refine ⟨r, .connect :: .namespaces :: (mid ++ mid') ++ [.close], ?_, ?_,
              .worked (by rw [hc]) (by rwa [hc]) hidx hprefix hall'⟩
            · rw [finishFrom_waiting gw.logged conn hadv, h']
            · rw [finishFrom_waiting gw.logged conn hadv, h']
              simp
      | error e =>
        have hadv : advance gw.logged conn now ⟨t, work, .opening⟩ (g, log) =
            (.finished (.error e) ((t.step .connect).2.step .fault).2, (g₁, log ++ [.connect])) := by
          simp [advance, hc]
        refine ⟨.error e, [.connect], ?_, ?_, .refused (by rw [hc])⟩ <;>
          simp [finishFrom_finished gw.logged conn hadv]
    | silent =>
      -- an unanswered connection fails at the connect timeout, at once or when it
      -- expires, and nothing more is asked
      have hrun : ∃ t' time, finishFrom gw.logged conn none (work.length + 1 + 1) now
          ⟨t, work, .opening⟩ (g, log) =
            (⟨.finished (.error (connectTimedOut conn)), t', time⟩, (g₁, log ++ [.connect])) := by
        by_cases hzero : conn.connectTimeoutMs = 0
        · have hadv : advance gw.logged conn now ⟨t, work, .opening⟩ (g, log) =
              (.finished (.error (connectTimedOut conn)) ((t.step .connect).2.step .fault).2,
                (g₁, log ++ [.connect])) := by
            simp [advance, hc, hzero]
          exact ⟨_, _, finishFrom_finished gw.logged conn hadv⟩
        · have hadv : advance gw.logged conn now ⟨t, work, .opening⟩ (g, log) =
              (.waiting (some (now + conn.connectTimeoutMs)) ⟨(t.step .connect).2, work, .connecting⟩,
                (g₁, log ++ [.connect])) := by
            simp [advance, hc, hzero]
          have hexpired : advance gw.logged conn (now + conn.connectTimeoutMs)
              ⟨(t.step .connect).2, work, .connecting⟩ (g₁, log ++ [.connect]) =
                (.finished (.error (connectTimedOut conn)) ((t.step .connect).2.step .fault).2,
                  (g₁, log ++ [.connect])) := rfl
          exact ⟨_, _, (finishFrom_waiting gw.logged conn hadv).trans
            (finishFrom_finished gw.logged conn hexpired)⟩
      obtain ⟨t', time, hrun⟩ := hrun
      exact ⟨.error (connectTimedOut conn), [.connect], by rw [hrun], by rw [hrun],
        .timedOut (by rw [hc])⟩

/-- On the gateway in memory, a write whose connection is refused asks for the
connection alone; one whose connection is accepted writes at the plant's
index, 1, then closes. -/
example : (finish MemoryGateway.gateway.logged {} none 0 {} [.write (.activeLot .one .pc) 5]
      ({ MemoryGateway.create "urn:potline:lines" 0 with unreachable := true }, [])).2.2 =
        [.connect] ∧
    (finish MemoryGateway.gateway.logged {} none 0 {} [.write (.activeLot .one .pc) 5]
      (MemoryGateway.create "urn:potline:lines" 0, [])).2.2 =
        [.connect, .namespaces, .write ⟨1, .activeLot .one .pc⟩ 5, .close] := by
  decide +kernel

end Stages

/-! ## The answer to closing -/

section CloseAnswer

variable (gw conn) (answer : σ → Except Failure Unit)

@[simp] theorem answeringClose_connect : (gw.answeringClose answer).connect = gw.connect := rfl

@[simp] theorem answeringClose_namespaces :
    (gw.answeringClose answer).namespaces = gw.namespaces := rfl

@[simp] theorem answeringClose_read : (gw.answeringClose answer).read = gw.read := rfl

@[simp] theorem answeringClose_write : (gw.answeringClose answer).write = gw.write := rfl

@[simp] theorem answeringClose_release : (gw.answeringClose answer).release = gw.release := rfl

@[simp] theorem answeringClose_close (g : σ) :
    ((gw.answeringClose answer).close g).2 = (gw.close g).2 := rfl

theorem perform_answeringClose (now : Nat) (t : Tracker) (work : List Step) (index : Nat)
    (todo : List Step) (done : List Yield) (g : σ) :
    perform (gw.answeringClose answer) now t work index todo done g =
      perform gw now t work index todo done g := by
  induction todo generalizing done g with
  | nil => rfl
  | cons step rest ih => cases step <;> simp [perform, abandon, ih]

theorem advance_answeringClose (now : Nat) (s : Session) (g : σ) :
    advance (gw.answeringClose answer) conn now s g = advance gw conn now s g := by
  obtain ⟨t, work, stage⟩ := s
  cases stage <;>
    simp [advance, connected, abandon, perform_answeringClose]

/-- **What closing answers is never looked at.** A gateway that answers
closing otherwise, changing its state as `gw` does, gives every session the
same run, cancelled or not, and leaves the same state. -/
theorem finish_closeAnswer (cancel : Option Nat) (now : Nat) (t : Tracker) (work : List Step)
    (g : σ) :
    finish (gw.answeringClose answer) conn cancel now t work g =
      finish gw conn cancel now t work g := by
  suffices h : ∀ fuel now s g, finishFrom (gw.answeringClose answer) conn cancel fuel now s g =
      finishFrom gw conn cancel fuel now s g from h _ _ _ _
  intro fuel
  induction fuel with
  | zero => intro now s g; rfl
  | succ fuel ih =>
    intro now s g
    simp [finishFrom, advance_answeringClose, ih]

end CloseAnswer

end Session

end LotBridge
