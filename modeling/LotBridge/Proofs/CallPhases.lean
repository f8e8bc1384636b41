import LotBridge.Proofs.GatewayLog

/-!
# A controller call walks the phase graph

One call of a line controller runs attempts under the retry policy, and each
attempt is a session: it asks for a connection, resolves the namespace, makes
its read or write, and closes the connection. The session reports `connect`,
`connected`, `resolved` and `completed` to the call's tracker, or `fault`
where it fails, and the call reports `giveUp` when it fails for good.

Every one of these events fits the phase the tracker is in, so the tracker
ignores none of them, whatever the gateway answers and whatever the policy
decides. After failed attempts `as` the tracker is fixed by them alone
(`Tracker.after`): it is `errored`, has counted one attempt for each, and
remembers where the last one stopped. So at the end of a call the tracker is
`succeeded` exactly when the call succeeded, has counted exactly the
connections the call asked for, and on failure names the phase in which the
last attempt stopped: `connecting` when its connection failed or timed out,
`namespace_resolving` when the namespace query failed or did not give a usable
index, and `ready` when the read or write failed.

The argument has three layers, one per function of the model: the attempt
(`Session.advance` and the functions under it), the retry loop
(`Call.attemptFrom`, with the invariant `CallInv`), and runs of a call advanced
at any times (`Call.runAt`).

## Main definitions

* `Phase.Working`, `Tracker.after`: where a fault is accepted, and the tracker
  after failed attempts.
* `CallInv`, `Ended`: a call of a job under way, and its end.
* `Call.runAt`: a call advanced at given times.
-/

namespace LotBridge

/-- The phases of an attempt at work, in which a fault is accepted. -/
def Phase.Working (p : Phase) : Prop :=
  p = .connecting ∨ p = .namespaceResolving ∨ p = .ready

namespace Tracker

/-- The tracker of a call after the failed attempts `as`, each given by the
phase it stopped in and its namespace index. -/
def after (as : List (Phase × Nat)) : Tracker where
  phase := if as = [] then .idle else .errored
  attempts := as.length
  failedIn := as.getLast?.map (·.1)
  ignored := 0

@[simp] theorem after_nil : after [] = {} := rfl

/-! ## Events that fit -/

section Accepted

variable {t : Tracker}

theorem step_connect (h : t.phase = .idle ∨ t.phase = .errored) :
    t.step .connect = (true, { t with phase := .connecting, attempts := t.attempts + 1 }) := by
  rcases h with h | h <;> simp [step, h, Phase.next]

theorem step_connected (h : t.phase = .connecting) :
    t.step .connected = (true, { t with phase := .namespaceResolving }) := by
  simp [step, h, Phase.next]

theorem step_resolved (h : t.phase = .namespaceResolving) :
    t.step .resolved = (true, { t with phase := .ready }) := by
  simp [step, h, Phase.next]

theorem step_completed (h : t.phase = .ready) :
    t.step .completed = (true, { t with phase := .succeeded }) := by
  simp [step, h, Phase.next]

theorem step_fault (h : t.phase.Working) :
    t.step .fault = (true, { t with phase := .errored, failedIn := some t.phase }) := by
  rcases h with h | h | h <;> simp [step, h, Phase.next]

theorem step_giveUp (h : t.phase = .idle ∨ t.phase = .errored) :
    t.step .giveUp = (true, { t with phase := .failed }) := by
  rcases h with h | h <;> simp [step, h, Phase.next]

end Accepted

/-- One more failed attempt, stopped in `p`, gives the tracker after it. -/
theorem after_append (as : List (Phase × Nat)) (p : Phase) (i : Nat) :
    { after as with phase := .errored, attempts := as.length + 1, failedIn := some p } =
      after (as ++ [(p, i)]) := by
  simp [after]

end Tracker

/-! ## One attempt -/

section Attempt

variable {σ : Type} (gw : Gateway σ) (conn : Config.Connection) (now : Nat) (j : Job)

/-- The read or write of an attempt, once its namespace index is known: it
completes, fails in `ready`, or waits for an answer that never comes. The
request is logged either way, and the connection closed unless it waits. -/
theorem perform_job {t : Tracker} (ht : t.phase = .ready) (index : Nat) (g : σ)
    (log : List Gateway.Request) :
    (∃ ys g', Session.perform gw.logged now t j.work index j.work [] (g, log) =
        (.finished (.ok ys) { t with phase := .succeeded }, (g', log ++ [j.request index, .close]))) ∨
    (∃ e g', Session.perform gw.logged now t j.work index j.work [] (g, log) =
        (.finished (.error e) { t with phase := .errored, failedIn := some .ready },
          (g', log ++ [j.request index, .close]))) ∨
    (∃ g', Session.perform gw.logged now t j.work index j.work [] (g, log) =
        (.waiting none ⟨t, j.work, .stalled⟩, (g', log ++ [j.request index]))) := by
  have hdone := Tracker.step_completed ht
  have hfault := Tracker.step_fault (t := t) (Or.inr (Or.inr ht))
  obtain ⟨k, v⟩ := j
  cases v with
  | none =>
    cases hread : gw.read ⟨index, k⟩ g with
    | mk reply g' =>
      cases reply with
      | answer r =>
        cases r with
        | ok v =>
          refine Or.inl ⟨[.number v], (gw.close g').2, ?_⟩
          simp [Job.work, Job.request, Session.perform, hread, hdone]
        | error e =>
          refine Or.inr (Or.inl ⟨e, (gw.close g').2, ?_⟩)
          simp [Job.work, Job.request, Session.perform, Session.abandon, hread, hfault, ht]
      | silent =>
        refine Or.inr (Or.inr ⟨g', ?_⟩)
        simp [Job.work, Job.request, Session.perform, hread]
  | some v =>
    cases hwrite : gw.write ⟨index, k⟩ v g with
    | mk reply g' =>
      cases reply with
      | answer r =>
        cases r with
        | ok u =>
          refine Or.inl ⟨[.unit], (gw.close g').2, ?_⟩
          simp [Job.work, Job.request, Session.perform, hwrite, hdone]
        | error e =>
          refine Or.inr (Or.inl ⟨e, (gw.close g').2, ?_⟩)
          simp [Job.work, Job.request, Session.perform, Session.abandon, hwrite, hfault, ht]
      | silent =>
        refine Or.inr (Or.inr ⟨g', ?_⟩)
        simp [Job.work, Job.request, Session.perform, hwrite]

/-- An attempt once connected: the namespace query fails or gives no usable
index, and the attempt fails in `namespace_resolving`; or the read or write is
made at the index found, as in `perform_job`. -/
theorem connected_job {t : Tracker} (ht : t.phase = .connecting) (g : σ) (log : List Gateway.Request) :
    (∃ e g', Session.connected gw.logged conn now t j.work (g, log) =
        (.finished (.error e) { t with phase := .errored, failedIn := some .namespaceResolving },
          (g', log ++ [.namespaces, .close]))) ∨
    (∃ i ys g', Session.connected gw.logged conn now t j.work (g, log) =
        (.finished (.ok ys) { t with phase := .succeeded },
          (g', log ++ [.namespaces, j.request i, .close]))) ∨
    (∃ i e g', Session.connected gw.logged conn now t j.work (g, log) =
        (.finished (.error e) { t with phase := .errored, failedIn := some .ready },
          (g', log ++ [.namespaces, j.request i, .close]))) ∨
    (∃ i g', Session.connected gw.logged conn now t j.work (g, log) =
        (.waiting none ⟨{ t with phase := .ready }, j.work, .stalled⟩,
          (g', log ++ [.namespaces, j.request i]))) := by
  have hup := Tracker.step_connected ht
  have hfault := Tracker.step_fault (t := { t with phase := .namespaceResolving }) (Or.inr (Or.inl rfl))
  have hres := Tracker.step_resolved (t := { t with phase := .namespaceResolving }) rfl
  cases hns : gw.namespaces g with
  | mk answer g₁ =>
    cases answer with
    | error e =>
      refine Or.inl ⟨e, (gw.close g₁).2, ?_⟩
      simp [Session.connected, Session.abandon, hup, hns, hfault]
    | ok published =>
      cases hidx : namespaceIndexIn conn.namespaceUri published with
      | error e =>
        refine Or.inl ⟨e, (gw.close g₁).2, ?_⟩
        simp [Session.connected, Session.abandon, hup, hns, hidx, hfault]
      | ok index =>
        have hconn : Session.connected gw.logged conn now t j.work (g, log) =
            Session.perform gw.logged now { t with phase := .ready } j.work index j.work []
              (g₁, log ++ [.namespaces]) := by
          simp [Session.connected, hup, hns, hidx, hres]
        rw [hconn]
        rcases perform_job gw now j (t := { t with phase := .ready }) rfl index g₁
            (log ++ [.namespaces]) with ⟨ys, g', h⟩ | ⟨e, g', h⟩ | ⟨g', h⟩
        · exact Or.inr (Or.inl ⟨index, ys, g', by simpa using h⟩)
        · exact Or.inr (Or.inr (Or.inl ⟨index, e, g', by simpa using h⟩))
        · exact Or.inr (Or.inr (Or.inr ⟨index, g', by simpa using h⟩))

/-- An attempt from its start: it fails in the phase it stopped in, succeeds
after the read or write, waits for its connection until the connect timeout,
or waits for ever for the answer to its read or write. Its requests are those
of an attempt stopped in that phase. -/
theorem advance_opening_job {t : Tracker} (ht : t.phase = .idle ∨ t.phase = .errored) (g : σ)
    (log : List Gateway.Request) :
    (∃ e p i g', p.Working ∧ Session.advance gw.logged conn now ⟨t, j.work, .opening⟩ (g, log) =
        (.finished (.error e)
          { t with phase := .errored, attempts := t.attempts + 1, failedIn := some p },
          (g', log ++ j.attemptLog p i))) ∨
    (∃ i ys g', Session.advance gw.logged conn now ⟨t, j.work, .opening⟩ (g, log) =
        (.finished (.ok ys) { t with phase := .succeeded, attempts := t.attempts + 1 },
          (g', log ++ j.attemptLog .succeeded i))) ∨
    (∃ g', 0 < conn.connectTimeoutMs ∧
      Session.advance gw.logged conn now ⟨t, j.work, .opening⟩ (g, log) =
        (.waiting (some (now + conn.connectTimeoutMs))
          ⟨{ t with phase := .connecting, attempts := t.attempts + 1 }, j.work, .connecting⟩,
          (g', log ++ [.connect]))) ∨
    (∃ i g', Session.advance gw.logged conn now ⟨t, j.work, .opening⟩ (g, log) =
        (.waiting none ⟨{ t with phase := .ready, attempts := t.attempts + 1 }, j.work, .stalled⟩,
          (g', log ++ [.connect, .namespaces, j.request i]))) := by
  have hup := Tracker.step_connect ht
  have hfault := Tracker.step_fault
    (t := { t with phase := .connecting, attempts := t.attempts + 1 }) (Or.inl rfl)
  cases hc : gw.connect conn g with
  | mk reply g₁ =>
    cases reply with
    | answer r =>
      cases r with
      | ok u =>
        have hadv : Session.advance gw.logged conn now ⟨t, j.work, .opening⟩ (g, log) =
            Session.connected gw.logged conn now
              { t with phase := .connecting, attempts := t.attempts + 1 } j.work
              (g₁, log ++ [.connect]) := by
          simp [Session.advance, hup, hc]
        rw [hadv]
        rcases connected_job gw conn now j (t := { t with phase := .connecting, attempts := t.attempts + 1 })
            rfl g₁ (log ++ [.connect]) with
          ⟨e, g', h⟩ | ⟨i, ys, g', h⟩ | ⟨i, e, g', h⟩ | ⟨i, g', h⟩
        · exact Or.inl ⟨e, .namespaceResolving, 0, g', Or.inr (Or.inl rfl), by simpa [Job.attemptLog] using h⟩
        · exact Or.inr (Or.inl ⟨i, ys, g', by simpa [Job.attemptLog] using h⟩)
        · exact Or.inl ⟨e, .ready, i, g', Or.inr (Or.inr rfl), by simpa [Job.attemptLog] using h⟩
        · exact Or.inr (Or.inr (Or.inr ⟨i, g', by simpa using h⟩))
      | error e =>
        refine Or.inl ⟨e, .connecting, 0, g₁, Or.inl rfl, ?_⟩
        simp [Session.advance, hup, hc, hfault, Job.attemptLog]
    | silent =>
      by_cases hzero : conn.connectTimeoutMs = 0
      · refine Or.inl ⟨connectTimedOut conn, .connecting, 0, g₁, Or.inl rfl, ?_⟩
        simp [Session.advance, hup, hc, hfault, hzero, Job.attemptLog]
      · refine Or.inr (Or.inr (Or.inl ⟨g₁, Nat.pos_of_ne_zero hzero, ?_⟩))
        simp [Session.advance, hup, hc, hzero]

end Attempt

/-! ## The attempt under way and its end -/

/-- The session of an attempt at job `j` after the failed attempts `as`, with
the log of the call so far: the tracker is fixed by `as` and the stage, and
the log holds the earlier attempts and what this one asked. -/
def AttemptInv (j : Job) (as : List (Phase × Nat)) (s : Session) (log : List Gateway.Request) : Prop :=
  s.work = j.work ∧
    match s.stage with
    | .opening => s.tracker = Tracker.after as ∧ log = j.attemptsLog as
    | .connecting =>
      s.tracker = { Tracker.after as with phase := .connecting, attempts := as.length + 1 } ∧
        log = j.attemptsLog as ++ [.connect]
    | .stalled =>
      s.tracker = { Tracker.after as with phase := .ready, attempts := as.length + 1 } ∧
        ∃ i, log = j.attemptsLog as ++ [.connect, .namespaces, j.request i]
    | .working .. => False

/-- How the attempt after the failed attempts `as` ended: after its read or
write on success, or stopped by a fault in a working phase, its requests
closing the log and the tracker fixed by the attempts. -/
def AttemptEnd (j : Job) (as : List (Phase × Nat)) (r : Except Failure (List Yield)) (t : Tracker)
    (log : List Gateway.Request) : Prop :=
  match r with
  | .ok _ => ∃ i, t = { Tracker.after as with phase := .succeeded, attempts := as.length + 1 } ∧
      log = j.attemptsLog (as ++ [(.succeeded, i)])
  | .error _ => ∃ p i, p.Working ∧ t = Tracker.after (as ++ [(p, i)]) ∧
      log = j.attemptsLog (as ++ [(p, i)])

theorem after_phase (as : List (Phase × Nat)) :
    (Tracker.after as).phase = .idle ∨ (Tracker.after as).phase = .errored := by
  by_cases has : as = [] <;> simp [Tracker.after, has]

section Attempt

variable {σ : Type} (gw : Gateway σ) (conn : Config.Connection) (now : Nat) (j : Job)

/-- One run of the session of an attempt, up to its next wait or its end,
keeps `AttemptInv` or ends as `AttemptEnd` says; it waits only for a later
time, or for ever. -/
theorem advance_attemptInv {as : List (Phase × Nat)} {s : Session} {log : List Gateway.Request}
    (h : AttemptInv j as s log) (g : σ) :
    (∃ w s' g' log', Session.advance gw.logged conn now s (g, log) = (.waiting w s', (g', log')) ∧
        (∀ x ∈ w, now < x) ∧ AttemptInv j as s' log') ∨
    (∃ r t g' log', Session.advance gw.logged conn now s (g, log) = (.finished r t, (g', log')) ∧
        AttemptEnd j as r t log') := by
  obtain ⟨t, work, stage⟩ := s
  obtain ⟨hwork, hstage⟩ := h
  simp only at hwork hstage
  subst hwork
  cases stage with
  | opening =>
    obtain ⟨rfl, rfl⟩ := hstage
    rcases advance_opening_job gw conn now j (after_phase as) g (j.attemptsLog as) with
      ⟨e, p, i, g', hp, h⟩ | ⟨i, ys, g', h⟩ | ⟨g', hpos, h⟩ | ⟨i, g', h⟩
    · refine Or.inr ⟨.error e, _, g', _, h, p, i, hp, ?_, ?_⟩
      · rw [← Tracker.after_append as p i]
        simp [Tracker.after]
      · rw [Job.attemptsLog_append_single]
    · refine Or.inr ⟨.ok ys, _, g', _, h, i, by simp [Tracker.after], ?_⟩
      rw [Job.attemptsLog_append_single]
    · refine Or.inl ⟨_, _, g', _, h, by simpa using hpos, rfl, by simp [Tracker.after], rfl⟩
    · refine Or.inl ⟨_, _, g', _, h, by simp, rfl, by simp [Tracker.after], i, by simp⟩
  | connecting =>
    obtain ⟨rfl, rfl⟩ := hstage
    have hfault := Tracker.step_fault
      (t := { Tracker.after as with phase := .connecting, attempts := as.length + 1 }) (Or.inl rfl)
    refine Or.inr ⟨.error (connectTimedOut conn), _, g, _, rfl, .connecting, 0, Or.inl rfl, ?_, ?_⟩
    · rw [hfault, ← Tracker.after_append as .connecting 0]
    · rw [Job.attemptsLog_append_single]
      rfl
  | stalled =>
    exact Or.inl ⟨none, _, g, log, rfl, by simp, rfl, hstage⟩
  | working index todo done => exact hstage.elim

end Attempt

/-! ## The retry loop -/

/-- A call of job `j` under way: an attempt with its index, or the pause
before one, after as many failed attempts, all allowed by the policy. -/
def CallInv (j : Job) (policy : Retry.Policy) : Call → List Gateway.Request → Prop
  | .trying a s, log => ∃ as : List (Phase × Nat), as.length = a ∧ a < policy.limit ∧
      (∀ x ∈ as, x.1.Working) ∧ AttemptInv j as s log
  | .pausing a t work, log => ∃ as : List (Phase × Nat), as.length = a ∧ a < policy.limit ∧
      (∀ x ∈ as, x.1.Working) ∧ AttemptInv j as ⟨t, work, .opening⟩ log

/-- How a call of job `j` ended: after failed attempts the policy allowed
another try after, its last attempt ended as `AttemptEnd` says. -/
def Ended (j : Job) (policy : Retry.Policy) (r : Except Failure (List Yield)) (t : Tracker)
    (log : List Gateway.Request) : Prop :=
  ∃ as : List (Phase × Nat), as.length < policy.limit ∧ (∀ x ∈ as, x.1.Working) ∧
    AttemptEnd j as r t log

theorem callInv_start (j : Job) (policy : Retry.Policy) : CallInv j policy (Call.start j.work) [] :=
  ⟨[], rfl, Retry.limit_pos policy, by simp, rfl, rfl, rfl⟩

section Loop

variable {σ : Type} (gw : Gateway σ) (conn : Config.Connection) (policy : Retry.Policy) (now : Nat)
  (j : Job)

/-- The retry loop from attempt `a` keeps `CallInv` while it waits and ends
as `Ended` says. The fuel only bounds attempts made without a pause; whatever
it is, the attempts never pass the policy's limit. -/
theorem attemptFrom_inv (fuel : Nat) {a : Nat} {as : List (Phase × Nat)} {s : Session}
    {log : List Gateway.Request} (hlen : as.length = a) (hlt : a < policy.limit)
    (hworking : ∀ x ∈ as, x.1.Working) (h : AttemptInv j as s log) (g : σ) :
    (∃ w c' g' log', Call.attemptFrom gw.logged conn policy now fuel a s (g, log) =
        (.waiting w c', (g', log')) ∧ (∀ x ∈ w, now < x) ∧ CallInv j policy c' log') ∨
    (∃ r t g' log', Call.attemptFrom gw.logged conn policy now fuel a s (g, log) =
        (.finished r t, (g', log')) ∧ Ended j policy r t log') := by
  induction fuel using Nat.strongRecOn generalizing a as s g log with
  | ind fuel ih =>
    rw [Call.attemptFrom]
    rcases advance_attemptInv gw conn now j h g with
      ⟨w, s', g', log', hadv, hwake, hinv⟩ | ⟨r, t, g', log', hadv, hend⟩
    · rw [hadv]
      exact Or.inl ⟨w, .trying a s', g', log', rfl, hwake, as, hlen, hlt, hworking, hinv⟩
    · rw [hadv]
      cases r with
      | ok ys => exact Or.inr ⟨.ok ys, t, g', log', rfl, as, hlen ▸ hlt, hworking, hend⟩
      | error e =>
        obtain ⟨p, i, hp, rfl, rfl⟩ := hend
        -- the attempts so far, this one included, for the next attempt or the pause before it
        have hworking' : ∀ x ∈ as ++ [(p, i)], x.1.Working := by
          intro x hx
          rcases List.mem_append.1 hx with hx | hx
          · exact hworking x hx
          · rw [List.mem_singleton.1 hx]
            exact hp
        have hinv' : AttemptInv j (as ++ [(p, i)]) ⟨Tracker.after (as ++ [(p, i)]), s.work, .opening⟩
            (j.attemptsLog (as ++ [(p, i)])) := ⟨h.1, rfl, rfl⟩
        have hended : Ended j policy (.error e) (Tracker.after (as ++ [(p, i)]))
            (j.attemptsLog (as ++ [(p, i)])) := ⟨as, hlen ▸ hlt, hworking, p, i, hp, rfl, rfl⟩
        simp only
        by_cases hretry : (a + 1 < policy.limit && policy.shouldRetry a e) = true
        · have hnext : a + 1 < policy.limit := by
            simp only [Bool.and_eq_true, decide_eq_true_eq] at hretry
            exact hretry.1
          have hlen' : (as ++ [(p, i)]).length = a + 1 := by simp [hlen]
          rw [if_pos hretry]
          by_cases hd : policy.delay a = 0
          · rw [if_pos hd]
            -- a retry without a pause goes on at once while fuel is left
            cases fuel with
            | zero => exact Or.inr ⟨_, _, g', _, rfl, hended⟩
            | succ n => exact ih n (Nat.lt_succ_self n) hlen' hnext hworking' hinv' g'
          · rw [if_neg hd]
            refine Or.inl ⟨_, _, g', _, rfl, ?_, as ++ [(p, i)], hlen', hnext, hworking', hinv'⟩
            intro x hx
            rw [Option.mem_def, Option.some.injEq] at hx
            omega
        · rw [if_neg hretry]
          exact Or.inr ⟨_, _, g', _, rfl, hended⟩

/-- A call keeps `CallInv` from one wait to the next, and ends as `Ended`
says. -/
theorem advance_callInv {c : Call} {log : List Gateway.Request} (h : CallInv j policy c log) (g : σ) :
    (∃ w c' g' log', c.advance gw.logged conn policy now (g, log) = (.waiting w c', (g', log')) ∧
        (∀ x ∈ w, now < x) ∧ CallInv j policy c' log') ∨
    (∃ r t g' log', c.advance gw.logged conn policy now (g, log) = (.finished r t, (g', log')) ∧
        Ended j policy r t log') := by
  cases c with
  | trying a s =>
    obtain ⟨as, hlen, hlt, hworking, hinv⟩ := h
    exact attemptFrom_inv gw conn policy now j _ hlen hlt hworking hinv g
  | pausing a t work =>
    obtain ⟨as, hlen, hlt, hworking, hinv⟩ := h
    exact attemptFrom_inv gw conn policy now j _ hlen hlt hworking hinv g

end Loop

/-! ## Calls advanced at any times -/

/-- A call advanced at the given times, one after another, as long as it
waits; still under way when the times run out. -/
def Call.runAt {σ : Type} (gw : Gateway σ) (conn : Config.Connection) (policy : Retry.Policy) :
    List Nat → Call → σ → Progress Call × σ
  | [], c, g => (.waiting none c, g)
  | now :: times, c, g =>
    match c.advance gw conn policy now g with
    | (.waiting _ c', g') => Call.runAt gw conn policy times c' g'
    | (.finished r t, g') => (.finished r t, g')

section Runs

variable {σ : Type} (gw : Gateway σ) (conn : Config.Connection) (policy : Retry.Policy) (j : Job)

/-- Advancing a call still under way at one more time. -/
theorem runAt_append {times : List Nat} {c c' : Call} {g g' : σ}
    (h : Call.runAt gw conn policy times c g = (.waiting none c', g')) (now : Nat) :
    Call.runAt gw conn policy (times ++ [now]) c g =
      match c'.advance gw conn policy now g' with
      | (.waiting _ c'', g'') => (.waiting none c'', g'')
      | (.finished r t, g'') => (.finished r t, g'') := by
  induction times generalizing c g with
  | nil =>
    cases h
    simp only [List.nil_append, Call.runAt]
  | cons first times ih =>
    simp only [List.cons_append, Call.runAt] at h ⊢
    cases hadv : c.advance gw conn policy first g with
    | mk progress g1 =>
      cases progress with
      | waiting w c1 =>
        simp only [hadv] at h ⊢
        exact ih h
      | finished r t =>
        simp only [hadv] at h
        cases h

theorem runAt_inv (times : List Nat) {c : Call} {log : List Gateway.Request}
    (h : CallInv j policy c log) (g : σ) :
    (∃ c' g' log', Call.runAt gw.logged conn policy times c (g, log) = (.waiting none c', (g', log')) ∧
        CallInv j policy c' log') ∨
    (∃ r t g' log', Call.runAt gw.logged conn policy times c (g, log) = (.finished r t, (g', log')) ∧
        Ended j policy r t log') := by
  induction times generalizing c g log with
  | nil => exact Or.inl ⟨c, g, log, rfl, h⟩
  | cons now times ih =>
    rcases advance_callInv gw conn policy now j h g with
      ⟨w, c', g', log', hadv, -, hinv⟩ | ⟨r, t, g', log', hadv, hend⟩
    · simp only [Call.runAt, hadv]
      exact ih hinv g'
    · simp only [Call.runAt, hadv]
      exact Or.inr ⟨r, t, g', log', rfl, hend⟩

/-- What the end of a call tells: its tracker ignored no event; the requests
it made are its attempts one after another, at most as many as the policy
allows, each cut short by a fault but the last, and the tracker counted one
attempt for each and so one for each connection asked for. After a success the
tracker is `succeeded`; after a failure it names as the phase of the failure
the one the last attempt stopped in, and it accepts the final `giveUp`, which
makes it `failed` and changes nothing else. -/
theorem ended_walks_phaseGraph {r : Except Failure (List Yield)} {t : Tracker}
    {log : List Gateway.Request} (h : Ended j policy r t log) :
    t.ignored = 0 ∧ t.attempts = log.count .connect ∧
      ∃ as p i, log = j.attemptsLog (as ++ [(p, i)]) ∧ t.attempts = as.length + 1 ∧
        t.attempts ≤ policy.limit ∧ (∀ x ∈ as, x.1.Working) ∧
        match r with
        | .ok _ => p = .succeeded ∧ t.phase = .succeeded
        | .error _ => p.Working ∧ t.failedIn = some p ∧
            t.step .giveUp = (true, { t with phase := .failed }) := by
  obtain ⟨as, hlt, hworking, hend⟩ := h
  have hlimit : as.length + 1 ≤ policy.limit := hlt
  cases r with
  | ok ys =>
    obtain ⟨i, rfl, rfl⟩ := hend
    refine ⟨rfl, ?_, as, .succeeded, i, rfl, rfl, hlimit, hworking, rfl, rfl⟩
    simp [Job.count_connect_attemptsLog]
  | error e =>
    obtain ⟨p, i, hp, rfl, rfl⟩ := hend
    have hlen : (Tracker.after (as ++ [(p, i)])).attempts = as.length + 1 := by
      simp [Tracker.after]
    refine ⟨rfl, by rw [Job.count_connect_attemptsLog]; rfl, as, p, i, rfl, hlen,
      hlen ▸ hlimit, hworking, hp, by simp [Tracker.after], ?_⟩
    exact Tracker.step_giveUp (after_phase _)

/-- **A call walks the phase graph.** A call of any job on any gateway, under
any policy and advanced at any times, that has ended, ended as
`ended_walks_phaseGraph` says. -/
theorem call_walks_phaseGraph (times : List Nat) (g : σ) :
    match Call.runAt gw.logged conn policy times (Call.start j.work) (g, []) with
    | (.finished r t, (_, log)) =>
      t.ignored = 0 ∧ t.attempts = log.count .connect ∧
        ∃ as p i, log = j.attemptsLog (as ++ [(p, i)]) ∧ t.attempts = as.length + 1 ∧
          t.attempts ≤ policy.limit ∧ (∀ x ∈ as, x.1.Working) ∧
          match r with
          | .ok _ => p = .succeeded ∧ t.phase = .succeeded
          | .error _ => p.Working ∧ t.failedIn = some p ∧
              t.step .giveUp = (true, { t with phase := .failed })
    | (.waiting _ _, _) => True := by
  rcases runAt_inv gw conn policy j times (callInv_start j policy) g with
    ⟨c', g', log', hrun, -⟩ | ⟨r, t, g', log', hrun, hend⟩
  · rw [hrun]
    trivial
  · rw [hrun]
    -- the statement matches on the result inside the existential, so split it first
    cases r with
    | ok ys => exact ended_walks_phaseGraph policy j hend
    | error e => exact ended_walks_phaseGraph policy j hend

end Runs

end LotBridge
