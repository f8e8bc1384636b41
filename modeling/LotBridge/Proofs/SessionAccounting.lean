import LotBridge.Proofs.NamespaceAgreement
import LotBridge.Proofs.ScopedSessions

/-!
# Every session a controller opens is closed, counted and written down

A test bench counts, in a gateway in memory, the connections asked for, the
sessions open, and the writes acknowledged, and injects faults between any two
requests (`Gateway.Switched`). Whatever the faults, a controller leaves the
counts as its calls explain them (`Accounted`):

* every session it opened is closed again, so the sessions open are as many
  as before;
* every attempt asks for exactly one connection, so the connections asked for
  grow by the attempts the ended calls counted;
* the writes acknowledged grow by the writes of the calls that succeeded, in
  the order the calls ended.

A connection attempt is atomic here: the gateway answers at once, so an
attempt connects, makes its requests and closes within one run of its call
(`advance_opening_counted`). The counts are kept by every move of the lanes,
the calls under way included (`Controller.Ends.accounts`), and so by every
run of them (`Controller.runLanes_accounted`) and every request a controller
carries out (`Controller.exec_accounted`).

## Main definitions

* `Gateway.SessionCounters`: counters of connections asked for and open.
* `Call.tracker`, `Lane.underWay`: the attempts of the calls under way.
* `EndedCall`, `Accounted`: ended calls, and what they did to the counts.
* `Controller.Ends`, `Controller.EndsAlong`: moves of the lanes with the calls
  they ended.
* `Command.queues`: the jobs a request runs.
-/

namespace LotBridge

open Relation

/-! ## Counters of sessions -/

/-- Counters, kept in a gateway's state, of the connections asked for and of
the sessions open: a connection asked for counts one more, and opens a session
if it is accepted; closing counts one session fewer; nothing else changes
them. -/
structure Gateway.SessionCounters {σ : Type} (gw : Gateway σ) where
  asked : σ → Nat
  opened : σ → Nat
  connect : ∀ c g, asked (gw.connect c g).2 = asked g + 1
  connect_ok : ∀ c g, (gw.connect c g).1 = .answer (.ok ()) →
    opened (gw.connect c g).2 = opened g + 1
  connect_refused : ∀ c g, (gw.connect c g).1 ≠ .answer (.ok ()) →
    opened (gw.connect c g).2 = opened g
  namespaces : ∀ g, asked (gw.namespaces g).2 = asked g ∧ opened (gw.namespaces g).2 = opened g
  read : ∀ a g, asked (gw.read a g).2 = asked g ∧ opened (gw.read a g).2 = opened g
  write : ∀ a v g, asked (gw.write a v g).2 = asked g ∧ opened (gw.write a v g).2 = opened g
  close : ∀ g, asked (gw.close g).2 = asked g ∧ opened (gw.close g).2 = opened g - 1

namespace MemoryGateway

@[simp] theorem inject_connects (g : MemoryGateway) (f : Faults) :
    (g.inject f).connects = g.connects := rfl

@[simp] theorem inject_openSessions (g : MemoryGateway) (f : Faults) :
    (g.inject f).openSessions = g.openSessions := rfl

/-- A connection attempt is counted, and opens a session exactly when it is
accepted. -/
theorem connect_counts (c : Config.Connection) (g : MemoryGateway) :
    (connect c g).2.connects = g.connects + 1 ∧
      ((connect c g).1 = .answer (.ok ()) → (connect c g).2.openSessions = g.openSessions + 1) ∧
      ((connect c g).1 ≠ .answer (.ok ()) → (connect c g).2.openSessions = g.openSessions) := by
  unfold connect
  dsimp only
  split
  · exact ⟨rfl, fun h => (by cases h), fun _ => rfl⟩
  · split
    · exact ⟨rfl, fun h => (by cases h), fun _ => rfl⟩
    · exact ⟨rfl, fun _ => rfl, fun h => absurd rfl h⟩

theorem write_counts (a : Address) (v : Int) (g : MemoryGateway) :
    (write a v g).2.connects = g.connects ∧ (write a v g).2.openSessions = g.openSessions := by
  unfold write
  split
  · exact ⟨rfl, rfl⟩
  · split
    · exact ⟨rfl, rfl⟩
    · split <;> exact ⟨rfl, rfl⟩

end MemoryGateway

namespace Gateway.Switched

variable {σ : Type} {gw : Gateway σ} {mem : σ → MemoryGateway} (hsw : gw.Switched mem)

/-- A switched gateway counts, in its held gateway in memory, the connections
asked for and the sessions open. -/
def counters : gw.SessionCounters where
  asked s := (mem s).connects
  opened s := (mem s).openSessions
  connect c s := by
    obtain ⟨f, h⟩ := hsw.connect c s
    rw [(parts h).2]
    exact (MemoryGateway.connect_counts c _).1
  connect_ok c s hok := by
    obtain ⟨f, h⟩ := hsw.connect c s
    rw [(parts h).1] at hok
    rw [(parts h).2]
    exact (MemoryGateway.connect_counts c _).2.1 hok
  connect_refused c s hno := by
    obtain ⟨f, h⟩ := hsw.connect c s
    rw [(parts h).1] at hno
    rw [(parts h).2]
    exact (MemoryGateway.connect_counts c _).2.2 hno
  namespaces s := by
    obtain ⟨f, h⟩ := hsw.namespaces s
    rw [(parts h).2]
    exact ⟨rfl, rfl⟩
  read a s := by
    obtain ⟨f, h⟩ := hsw.read a s
    rw [(parts h).2, MemoryGateway.read_state]
    exact ⟨rfl, rfl⟩
  write a v s := by
    obtain ⟨f, h⟩ := hsw.write a v s
    rw [(parts h).2]
    exact MemoryGateway.write_counts a v _
  close s := by
    obtain ⟨f, h⟩ := hsw.close s
    rw [(parts h).2]
    exact ⟨rfl, rfl⟩

@[simp] theorem counters_asked (s : σ) : hsw.counters.asked s = (mem s).connects := rfl

@[simp] theorem counters_opened (s : σ) : hsw.counters.opened s = (mem s).openSessions := rfl

end Gateway.Switched

/-! ## One attempt -/

section Attempt

variable {σ : Type} {gw : Gateway σ} (hans : gw.Answers) (cnt : gw.SessionCounters)
  (conn : Config.Connection) (now : Nat) (j : Job)
include hans

/-- The read or write of an attempt, at the index found: it ends at once and
closes the connection; the tracker counts no attempt more, and is `errored`
after a failure. -/
theorem perform_counted {t : Tracker} (ht : t.phase = .ready) (index : Nat) (g : σ) :
    ∃ r t' g', Session.perform gw now t j.work index j.work [] g = (.finished r t', g') ∧
      t'.attempts = t.attempts ∧ (∀ e, r = .error e → t'.phase = .errored) ∧
      cnt.asked g' = cnt.asked g ∧ cnt.opened g' = cnt.opened g - 1 := by
  have hdone := Tracker.step_completed ht
  have hfault := Tracker.step_fault (t := t) (Or.inr (Or.inr ht))
  obtain ⟨k, v⟩ := j
  cases v with
  | none =>
    have hsil := hans.read ⟨index, k⟩ g
    have hcount := cnt.read ⟨index, k⟩ g
    cases hread : gw.read ⟨index, k⟩ g with
    | mk reply g₁ =>
      rw [hread] at hsil hcount
      have hclose := cnt.close g₁
      cases reply with
      | answer r =>
        cases r with
        | ok x =>
          refine ⟨.ok [.number x], (t.step .completed).2, (gw.close g₁).2,
            by simp [Job.work, Session.perform, hread], by rw [hdone], fun _ h => (by cases h), ?_⟩
          simp_all
        | error e =>
          refine ⟨.error e, (t.step .fault).2, (gw.close g₁).2,
            by simp [Job.work, Session.perform, Session.abandon, hread], by rw [hfault],
            fun _ _ => by rw [hfault], ?_⟩
          simp_all
      | silent => exact absurd rfl hsil
  | some v =>
    have hsil := hans.write ⟨index, k⟩ v g
    have hcount := cnt.write ⟨index, k⟩ v g
    cases hwrite : gw.write ⟨index, k⟩ v g with
    | mk reply g₁ =>
      rw [hwrite] at hsil hcount
      have hclose := cnt.close g₁
      cases reply with
      | answer r =>
        cases r with
        | ok u =>
          refine ⟨.ok [.unit], (t.step .completed).2, (gw.close g₁).2,
            by simp [Job.work, Session.perform, hwrite], by rw [hdone], fun _ h => (by cases h), ?_⟩
          simp_all
        | error e =>
          refine ⟨.error e, (t.step .fault).2, (gw.close g₁).2,
            by simp [Job.work, Session.perform, Session.abandon, hwrite], by rw [hfault],
            fun _ _ => by rw [hfault], ?_⟩
          simp_all
      | silent => exact absurd rfl hsil

/-- An attempt once connected ends at once and closes the connection; the
tracker counts no attempt more, and is `errored` after a failure. -/
theorem connected_counted {t : Tracker} (ht : t.phase = .connecting) (g : σ) :
    ∃ r t' g', Session.connected gw conn now t j.work g = (.finished r t', g') ∧
      t'.attempts = t.attempts ∧ (∀ e, r = .error e → t'.phase = .errored) ∧
      cnt.asked g' = cnt.asked g ∧ cnt.opened g' = cnt.opened g - 1 := by
  have hup := Tracker.step_connected ht
  have hfault := Tracker.step_fault (t := { t with phase := .namespaceResolving }) (Or.inr (Or.inl rfl))
  have hres := Tracker.step_resolved (t := { t with phase := .namespaceResolving }) rfl
  have hcount := cnt.namespaces g
  cases hns : gw.namespaces g with
  | mk answer g₁ =>
    rw [hns] at hcount
    have hclose := cnt.close g₁
    -- a namespace that is not found: the connection is closed at once
    have habandon : ∀ e, Session.abandon gw e (t.step .connected).2 g₁ =
        (.finished (.error e) (((t.step .connected).2).step .fault).2, (gw.close g₁).2) := fun _ => rfl
    cases answer with
    | error e =>
      refine ⟨.error e, (((t.step .connected).2).step .fault).2, (gw.close g₁).2,
        by simp [Session.connected, hns, habandon], by simp [hup, hfault],
        fun _ _ => by simp [hup, hfault], ?_⟩
      simp_all
    | ok published =>
      cases hidx : namespaceIndexIn conn.namespaceUri published with
      | error e =>
        refine ⟨.error e, (((t.step .connected).2).step .fault).2, (gw.close g₁).2,
          by simp [Session.connected, hns, hidx, habandon], by simp [hup, hfault],
          fun _ _ => by simp [hup, hfault], ?_⟩
        simp_all
      | ok index =>
        obtain ⟨r, t', g', hperf, hatt, herr, hasked, hopened⟩ :=
          perform_counted hans cnt now j (t := { t with phase := .ready }) rfl index g₁
        refine ⟨r, t', g', ?_, by rw [hatt], herr, by rw [hasked, hcount.1],
          by rw [hopened, hcount.2]⟩
        simp [Session.connected, hns, hidx, hup, hres, hperf]

/-- **An attempt is atomic on a gateway that answers.** From its start, an
attempt of a job ends within one run: it asks for one connection, leaves the
sessions open as they were, and counts one attempt more in its tracker, which
is `errored` after a failure. -/
theorem advance_opening_counted {t : Tracker} (ht : t.phase = .idle ∨ t.phase = .errored) (g : σ) :
    ∃ r t' g', Session.advance gw conn now ⟨t, j.work, .opening⟩ g = (.finished r t', g') ∧
      t'.attempts = t.attempts + 1 ∧ (∀ e, r = .error e → t'.phase = .errored) ∧
      cnt.asked g' = cnt.asked g + 1 ∧ cnt.opened g' = cnt.opened g := by
  have hup := Tracker.step_connect ht
  have hsil := hans.connect conn g
  have hasked := cnt.connect conn g
  cases hc : gw.connect conn g with
  | mk reply g₁ =>
    rw [hc] at hsil hasked
    cases reply with
    | answer r =>
      cases r with
      | ok u =>
        -- the connection opens a session, which the attempt closes again
        have hopen : cnt.opened g₁ = cnt.opened g + 1 := by
          simpa [hc] using cnt.connect_ok conn g (by rw [hc])
        obtain ⟨r, t', g', hcon, hatt, herr, hasked', hopened'⟩ :=
          connected_counted hans cnt conn now j
            (t := { t with phase := .connecting, attempts := t.attempts + 1 }) rfl g₁
        refine ⟨r, t', g', ?_, hatt, herr, by rw [hasked', hasked], by rw [hopened', hopen]; rfl⟩
        simp [Session.advance, hc, hup, hcon]
      | error e =>
        have hfault := Tracker.step_fault
          (t := { t with phase := .connecting, attempts := t.attempts + 1 }) (Or.inl rfl)
        have hrefused : cnt.opened g₁ = cnt.opened g := by
          simpa [hc] using cnt.connect_refused conn g (by rw [hc]; intro h; cases h)
        refine ⟨.error e, ((t.step .connect).2.step .fault).2, g₁,
          by simp [Session.advance, hc], by simp [hup, hfault], fun _ _ => by simp [hup, hfault],
          hasked, hrefused⟩
    | silent => exact absurd rfl hsil

end Attempt

/-! ## The retry loop -/

/-- The tracker a call reports to. -/
def Call.tracker : Call → Tracker
  | .trying _ s => s.tracker
  | .pausing _ t _ => t

section Loop

variable {σ : Type} {gw : Gateway σ} (hans : gw.Answers) (cnt : gw.SessionCounters)
  (conn : Config.Connection) (policy : Retry.Policy) (now : Nat) (j : Job)
include hans

/-- The retry loop from an attempt at its start, its tracker new or after a
failed attempt: it ends, or pauses before a later attempt with an `errored`
tracker. Either way each of its attempts asked for one connection, counted in
the tracker, and closed the session it opened. -/
theorem attemptFrom_counted (fuel a : Nat) {t : Tracker} (ht : t.phase = .idle ∨ t.phase = .errored)
    (g : σ) :
    ∃ p g', Call.attemptFrom gw conn policy now fuel a ⟨t, j.work, .opening⟩ g = (p, g') ∧
      cnt.opened g' = cnt.opened g ∧
      ((∃ r t', p = .finished r t' ∧ cnt.asked g' + t.attempts = cnt.asked g + t'.attempts) ∨
        (∃ w a' t', p = .waiting w (.pausing a' t' j.work) ∧ t'.phase = .errored ∧
          cnt.asked g' + t.attempts = cnt.asked g + t'.attempts)) := by
  induction fuel using Nat.strongRecOn generalizing a t g with
  | ind fuel ih =>
    obtain ⟨r₀, t₀, g₁, hadv, hatt, herr, hasked, hopened⟩ :=
      advance_opening_counted hans cnt conn now j ht g
    obtain ⟨p, g₁', hadv', h⟩ :=
      Call.attemptFrom_cases gw conn policy now fuel a ⟨t, j.work, .opening⟩ g
    rw [hadv] at hadv'
    obtain ⟨rfl, rfl⟩ := Prod.mk.inj hadv'
    rcases h with ⟨w, s', hp, -⟩ | ⟨r, t', hp, h⟩ | ⟨e, t', hp, -, -, -, h⟩ |
      ⟨e, t', n, hp, -, -, -, hn, h⟩
    · cases hp
    · -- the attempt ended the call
      obtain ⟨rfl, rfl⟩ := Progress.finished.inj hp
      exact ⟨_, _, h, hopened, Or.inl ⟨r₀, t₀, rfl, by omega⟩⟩
    · -- a failed attempt, then a pause before the next one
      obtain ⟨rfl, rfl⟩ := Progress.finished.inj hp
      exact ⟨_, _, h, hopened, Or.inr ⟨_, a + 1, t₀, rfl, herr e rfl, by omega⟩⟩
    · -- a failed attempt, and the next one at once
      obtain ⟨rfl, rfl⟩ := Progress.finished.inj hp
      obtain ⟨p', g', hrun, hopened', hend⟩ := ih n (by omega) (a + 1) (Or.inr (herr e rfl)) g₁
      rw [h]
      refine ⟨p', g', hrun, by rw [hopened', hopened], ?_⟩
      rcases hend with ⟨r, t', hp', hasked'⟩ | ⟨w, a', t', hp', herr', hasked'⟩
      · exact Or.inl ⟨r, t', hp', by omega⟩
      · exact Or.inr ⟨w, a', t', hp', herr', by omega⟩

/-- A job's call whose tracker is ready for an attempt, advanced: it ends, or
waits for a later attempt with an `errored` tracker; the sessions open are as
many as before, and the connections asked for grow by the attempts its
tracker counted meanwhile. -/
theorem advance_counted {c : Call} (hc : JobCall j policy c)
    (ht : c.tracker.phase = .idle ∨ c.tracker.phase = .errored) (g : σ) :
    ∃ p g', c.advance gw conn policy now g = (p, g') ∧ cnt.opened g' = cnt.opened g ∧
      ((∃ r t', p = .finished r t' ∧ cnt.asked g' + c.tracker.attempts = cnt.asked g + t'.attempts) ∨
        (∃ w c', p = .waiting w c' ∧ c'.tracker.phase = .errored ∧
          cnt.asked g' + c.tracker.attempts = cnt.asked g + c'.tracker.attempts)) := by
  obtain ⟨-, t, hshape⟩ := hc
  -- both shapes go on with an attempt at its start, reporting to the same tracker
  have hstart : c.advance gw conn policy now g =
      Call.attemptFrom gw conn policy now policy.limit c.attempt ⟨t, j.work, .opening⟩ g := by
    rcases hshape with h | h <;> rw [h] <;> rfl
  have htracker : c.tracker = t := by
    rcases hshape with h | h <;> rw [h] <;> rfl
  rw [htracker] at ht ⊢
  rw [hstart]
  obtain ⟨p, g', hrun, hopened, hend⟩ := attemptFrom_counted hans cnt conn policy now j policy.limit
    c.attempt ht g
  refine ⟨p, g', hrun, hopened, ?_⟩
  rcases hend with h | ⟨w, a', t', rfl, herr, hasked⟩
  · exact Or.inl h
  · exact Or.inr ⟨w, .pausing a' t' j.work, rfl, herr, hasked⟩

end Loop

/-! ## Calls under way and calls ended -/

/-- The attempts the call under way in a lane has made. -/
def Lane.underWay (lane : Lane) : Nat :=
  match lane.current with
  | some (_, c, _) => c.tracker.attempts
  | none => 0

/-- The attempts the calls under way in lanes have made. -/
def lanesUnderWay : List Lane → Nat
  | [] => 0
  | lane :: lanes => lane.underWay + lanesUnderWay lanes

/-- Setting one lane changes the attempts under way by the change of its own. -/
theorem lanesUnderWay_set {lanes : List Lane} {i : Nat} {lane : Lane} (h : lanes[i]? = some lane)
    (lane' : Lane) :
    lanesUnderWay (lanes.set i lane') + lane.underWay = lanesUnderWay lanes + lane'.underWay := by
  induction lanes generalizing i with
  | nil => simp at h
  | cons l ls ih =>
    cases i with
    | zero =>
      simp only [List.getElem?_cons_zero, Option.some.injEq] at h
      subst h
      simp only [List.set_cons_zero, lanesUnderWay]
      omega
    | succ i =>
      simp only [List.getElem?_cons_succ] at h
      have hrest := ih h
      simp only [List.set_cons_succ, lanesUnderWay]
      omega

/-- Lanes with no call under way have made no attempt under way. -/
theorem lanesUnderWay_eq_zero {lanes : List Lane} (h : ∀ l ∈ lanes, l.current = none) :
    lanesUnderWay lanes = 0 := by
  induction lanes with
  | nil => rfl
  | cons l ls ih =>
    have hl : l.underWay = 0 := by simp [Lane.underWay, h l List.mem_cons_self]
    simp only [lanesUnderWay, hl, ih fun x hx => h x (List.mem_cons_of_mem l hx)]

/-- A lane whose call under way has its tracker ready for an attempt: new, or
after a failed attempt. -/
def Lane.Fresh (lane : Lane) : Prop :=
  ∀ x ∈ lane.current, x.2.1.tracker.phase = .idle ∨ x.2.1.tracker.phase = .errored

/-- A call that ended: its job, its result, and the tracker it ended with. -/
structure EndedCall where
  job : Job
  result : Except Failure (List Yield)
  tracker : Tracker

/-- The writes an ended call left acknowledged. -/
def EndedCall.acked (e : EndedCall) : List (RegisterKey × Int) := e.job.ackedBy e.result

/-- The attempts ended calls made, as their trackers counted them. -/
def attemptsOf : List EndedCall → Nat
  | [] => 0
  | e :: es => e.tracker.attempts + attemptsOf es

@[simp] theorem attemptsOf_nil : attemptsOf [] = 0 := rfl

@[simp] theorem attemptsOf_cons (e : EndedCall) (es : List EndedCall) :
    attemptsOf (e :: es) = e.tracker.attempts + attemptsOf es := rfl

@[simp] theorem attemptsOf_append (es es' : List EndedCall) :
    attemptsOf (es ++ es') = attemptsOf es + attemptsOf es' := by
  induction es with
  | nil => simp
  | cons e es ih => simp only [List.cons_append, attemptsOf, ih]; omega

/-- What calls that ended, `es`, did to a gateway in memory from `g` to `g'`:
it has as many sessions open as before, has counted one connection more for
each of their attempts, and has acknowledged the writes of those that
succeeded, in the order they ended. -/
structure Accounted (g g' : MemoryGateway) (es : List EndedCall) : Prop where
  openSessions : g'.openSessions = g.openSessions
  connects : g'.connects = g.connects + attemptsOf es
  writes : g'.writes = g.writes ++ es.flatMap EndedCall.acked

/-! ## Moves of the lanes, with the calls they end -/

namespace Controller

variable {σ : Type} (c : Controller σ)

/-- A move of the lanes, with the calls it ended: a move that ends no call, or
a lane's call ending with its result and its tracker. -/
inductive Ends : List Lane × State σ → List EndedCall → List Lane × State σ → Prop
  | quiet {a b : List Lane × State σ} : c.LanesMove a b → b.1.map Lane.results = a.1.map Lane.results →
      Ends a [] b
  | finish {lanes : List Lane} {st : State σ} {i : Nat} {lane : Lane} {j : Job} {call : Call} {w : Nat}
      {r : Except Failure (List Yield)} {t : Tracker} {g : σ} :
      lanes[i]? = some lane → lane.current = some (j, call, some w) → w ≤ st.clock →
      call.advance c.gateway c.connection c.policy st.clock st.gate = (.finished r t, g) →
      Ends (lanes, st) [⟨j, r, t⟩]
        (lanes.set i { lane with current := none, results := lane.results ++ [(j, r)] },
          settle r t { st with gate := g })

/-- Moves of the lanes one after another from `a`, with the calls they ended,
in the order they ended. -/
inductive EndsAlong (a : List Lane × State σ) : List EndedCall → List Lane × State σ → Prop
  | refl : EndsAlong a [] a
  | tail {b b' : List Lane × State σ} {es e : List EndedCall} :
      EndsAlong a es b → c.Ends b e b' → EndsAlong a (es ++ e) b'

variable {c}

theorem Ends.move {a b : List Lane × State σ} {e : List EndedCall} (h : c.Ends a e b) :
    c.LanesMove a b := by
  cases h with
  | quiet hmove _ => exact hmove
  | finish hi hcur hw hadv => exact .lane hi (.finish hcur hw hadv)

theorem EndsAlong.moves {a b : List Lane × State σ} {es : List EndedCall} (h : c.EndsAlong a es b) :
    ReflTransGen c.LanesMove a b := by
  induction h with
  | refl => exact .refl
  | tail _ hend ih => exact .tail ih hend.move

/-- Setting a lane that keeps its results keeps the results of the lanes. -/
theorem map_results_set {lanes : List Lane} {i : Nat} {lane lane' : Lane} (hi : lanes[i]? = some lane)
    (h : lane'.results = lane.results) :
    (lanes.set i lane').map Lane.results = lanes.map Lane.results := by
  obtain ⟨hlen, hget⟩ := List.getElem?_eq_some_iff.1 hi
  rw [List.map_set, h, ← List.map_set, ← hget, List.set_getElem_self]

/-- Every move of the lanes ends the calls of some list. -/
theorem LanesMove.ends {a b : List Lane × State σ} (h : c.LanesMove a b) : ∃ e, c.Ends a e b := by
  cases h with
  | lane hi hmove =>
    cases hmove with
    | start hcur hq => exact ⟨[], .quiet (.lane hi (.start hcur hq)) (map_results_set hi rfl)⟩
    | wait hcur hw hadv => exact ⟨[], .quiet (.lane hi (.wait hcur hw hadv)) (map_results_set hi rfl)⟩
    | finish hcur hw hadv => exact ⟨_, .finish hi hcur hw hadv⟩
  | clock hw => exact ⟨[], .quiet (.clock hw) rfl⟩

/-- Every run of the lanes ends the calls of some list, one move after another. -/
theorem endsAlong_of_moves {a b : List Lane × State σ} (h : ReflTransGen c.LanesMove a b) :
    ∃ es, c.EndsAlong a es b := by
  induction h with
  | refl => exact ⟨[], .refl⟩
  | tail _ hmove ih =>
    obtain ⟨es, hes⟩ := ih
    obtain ⟨e, he⟩ := hmove.ends
    exact ⟨es ++ e, .tail hes he⟩

/-- Lanes that ended every job they were given have no call under way. -/
theorem current_eq_none_of_ended {l : Lane} (h : l.results.map (·.1) = l.jobs) : l.current = none := by
  have hrest : (l.current.map (·.1)).toList ++ l.queue = [] := by
    simpa [Lane.jobs, List.append_assoc] using h.symm
  cases hcur : l.current with
  | none => rfl
  | some x => simp [hcur] at hrest

end Controller

/-! ## The counts, move by move -/

section Accounting

variable {σ : Type} {c : Controller σ} {mem : σ → MemoryGateway} (hsw : c.gateway.Switched mem)
include hsw

/-- A job's call whose tracker is ready for an attempt, advanced on a
switched gateway: it ends, its acknowledged writes those of its job when it
succeeded; or it waits for a later attempt, with nothing acknowledged. The
sessions open are as many as before, and the connections asked for grow by
the attempts its tracker counted meanwhile. -/
theorem advance_accounted {j : Job} {call : Call} (hjob : JobCall j c.policy call)
    (hfresh : call.tracker.phase = .idle ∨ call.tracker.phase = .errored) (now : Nat) (g : σ) :
    (∃ r t g', call.advance c.gateway c.connection c.policy now g = (.finished r t, g') ∧
        (mem g').openSessions = (mem g).openSessions ∧
        (mem g').connects + call.tracker.attempts = (mem g).connects + t.attempts ∧
        (mem g').writes = (mem g).writes ++ j.ackedBy r) ∨
    (∃ w c' g', call.advance c.gateway c.connection c.policy now g = (.waiting (some w) c', g') ∧
        JobCall j c.policy c' ∧ c'.tracker.phase = .errored ∧
        (mem g').openSessions = (mem g).openSessions ∧
        (mem g').connects + call.tracker.attempts = (mem g).connects + c'.tracker.attempts ∧
        (mem g').writes = (mem g).writes) := by
  obtain ⟨p, g', hadv, hopened, hend⟩ :=
    advance_counted hsw.answers hsw.counters c.connection c.policy now j hjob hfresh g
  rcases advance_jobCall hsw.answers hsw.ackLog c.connection now j c.policy hjob g with
    ⟨r, t, g₁, hfin, hacks⟩ | ⟨w, c', g₁, hwait, -, hjob', -, hacks⟩
  · rw [hfin] at hadv
    obtain ⟨rfl, rfl⟩ := Prod.mk.inj hadv
    rcases hend with ⟨r', t', hp, hasked⟩ | ⟨w', c', hp, -⟩
    · obtain ⟨rfl, rfl⟩ := Progress.finished.inj hp
      exact Or.inl ⟨_, _, g₁, hfin, hopened, hasked, hacks⟩
    · cases hp
  · rw [hwait] at hadv
    obtain ⟨rfl, rfl⟩ := Prod.mk.inj hadv
    rcases hend with ⟨r', t', hp, -⟩ | ⟨w', c'', hp, herr, hasked⟩
    · cases hp
    · obtain ⟨-, rfl⟩ := Progress.waiting.inj hp
      exact Or.inr ⟨w, _, g₁, hwait, hjob', herr, hopened, hasked, hacks⟩

/-- **Every move of the lanes keeps the counts.** On a switched gateway, a
move of lanes whose calls wait for nothing but time, their trackers ready for
an attempt, keeps the sessions open; the connections asked for grow by the
attempts made, which the calls that ended and those under way count; and the
writes acknowledged grow by those of the calls that ended. -/
theorem Controller.Ends.accounts {a b : List Lane × Controller.State σ} {e : List EndedCall}
    (h : c.Ends a e b) (hcalls : ∀ l ∈ a.1, l.Calls c.policy) (hfresh : ∀ l ∈ a.1, l.Fresh) :
    (∀ l ∈ b.1, l.Fresh) ∧ (mem b.2.gate).openSessions = (mem a.2.gate).openSessions ∧
      (mem b.2.gate).connects + lanesUnderWay a.1 =
        (mem a.2.gate).connects + attemptsOf e + lanesUnderWay b.1 ∧
      (mem b.2.gate).writes = (mem a.2.gate).writes ++ e.flatMap EndedCall.acked := by
  -- the lanes other than the moved one keep their calls
  have hkeep : ∀ {lanes : List Lane} {i : Nat} {lane' : Lane}, (∀ l ∈ lanes, l.Fresh) → lane'.Fresh →
      ∀ l ∈ lanes.set i lane', l.Fresh := by
    intro lanes i lane' hall hnew l hl
    rcases List.mem_or_eq_of_mem_set hl with hl | rfl
    · exact hall l hl
    · exact hnew
  cases h with
  | quiet hmove hres =>
    cases hmove with
    | @lane lanes st st' i lane lane' hi hlane =>
      have hmem := List.mem_of_getElem? hi
      have hset := lanesUnderWay_set hi lane'
      cases hlane with
      | @start _ _ j rest hcur hq =>
        -- a job starts: its call has made no attempt yet
        have hunder : lane.underWay = 0 := by simp [Lane.underWay, hcur]
        refine ⟨hkeep hfresh (fun x hx => ?_), rfl, ?_, by simp⟩
        · rw [Option.mem_def, Option.some.injEq] at hx
          subst hx
          exact Or.inl rfl
        · have hunder' : Lane.underWay
              { lane with queue := rest, current := some (j, Call.start j.work, some st.clock) } = 0 :=
            rfl
          simp only [attemptsOf_nil]
          omega
      | @wait _ _ j call call' w w' g hcur hw hadv =>
        have hjob : JobCall j c.policy call := (hcalls lane hmem (j, call, some w) hcur).1
        have hready : call.tracker.phase = .idle ∨ call.tracker.phase = .errored :=
          hfresh lane hmem (j, call, some w) hcur
        rcases advance_accounted hsw hjob hready st.clock st.gate with
          ⟨r, t, g₁, hfin, -⟩ | ⟨w₁, c₁, g₁, hwait, -, herr, hopened, hasked, hwrites⟩
        · rw [hfin] at hadv
          cases hadv
        · rw [hwait] at hadv
          obtain ⟨h₁, rfl⟩ := Prod.mk.inj hadv
          obtain ⟨-, rfl⟩ := Progress.waiting.inj h₁
          have hunder : lane.underWay = call.tracker.attempts := by simp [Lane.underWay, hcur]
          have hunder' : ({ lane with current := some (j, c₁, w') } : Lane).underWay =
              c₁.tracker.attempts := rfl
          refine ⟨hkeep hfresh (fun x hx => ?_), hopened, ?_, by simpa using hwrites⟩
          · rw [Option.mem_def, Option.some.injEq] at hx
            subst hx
            exact Or.inr herr
          · simp only [attemptsOf_nil]
            omega
      | @finish _ _ j call w r t g hcur hw hadv =>
        -- an ending call adds to the results, which a quiet move keeps
        exfalso
        have hlt : i < (lanes.map Lane.results).length := by
          simpa using (List.getElem?_eq_some_iff.1 hi).1
        have hat := congrArg (·[i]?) hres
        simp only [List.map_set, List.getElem?_set_self hlt, List.getElem?_map, hi, Option.map_some,
          Option.some.injEq] at hat
        have hlen := congrArg List.length hat
        simp at hlen
    | clock hw => exact ⟨hfresh, rfl, by simp, by simp⟩
  | @finish lanes st i lane j call w r t g hi hcur hw hadv =>
    have hmem := List.mem_of_getElem? hi
    have hjob : JobCall j c.policy call := (hcalls lane hmem (j, call, some w) hcur).1
    have hready : call.tracker.phase = .idle ∨ call.tracker.phase = .errored :=
      hfresh lane hmem (j, call, some w) hcur
    rcases advance_accounted hsw hjob hready st.clock st.gate with
      ⟨r₁, t₁, g₁, hfin, hopened, hasked, hwrites⟩ | ⟨w₁, c₁, g₁, hwait, -⟩
    · rw [hfin] at hadv
      obtain ⟨h₁, rfl⟩ := Prod.mk.inj hadv
      obtain ⟨rfl, rfl⟩ := Progress.finished.inj h₁
      -- the call leaves the lane, its attempts now counted by its tracker
      have hset :=
        lanesUnderWay_set hi { lane with current := none, results := lane.results ++ [(j, r₁)] }
      have hunder : lane.underWay = call.tracker.attempts := by simp [Lane.underWay, hcur]
      have hunder' :
          Lane.underWay { lane with current := none, results := lane.results ++ [(j, r₁)] } = 0 :=
        rfl
      refine ⟨hkeep hfresh (fun x hx => by cases hx), by simpa using hopened, ?_, ?_⟩
      · simp only [Controller.settle_gate, attemptsOf_cons, attemptsOf_nil]
        omega
      · simpa [EndedCall.acked] using hwrites
    · rw [hwait] at hadv
      cases hadv

/-- **Every run of the lanes keeps the counts**, from lanes whose calls wait
for nothing but time with trackers ready for an attempt. -/
theorem Controller.EndsAlong.accounts {a b : List Lane × Controller.State σ} {es : List EndedCall}
    (h : c.EndsAlong a es b) (hcalls : ∀ l ∈ a.1, l.Calls c.policy) (hfresh : ∀ l ∈ a.1, l.Fresh) :
    (∀ l ∈ b.1, l.Fresh) ∧ (mem b.2.gate).openSessions = (mem a.2.gate).openSessions ∧
      (mem b.2.gate).connects + lanesUnderWay a.1 =
        (mem a.2.gate).connects + attemptsOf es + lanesUnderWay b.1 ∧
      (mem b.2.gate).writes = (mem a.2.gate).writes ++ es.flatMap EndedCall.acked := by
  induction h with
  | refl => exact ⟨hfresh, rfl, by simp, by simp⟩
  | @tail m b es e hrun hend ih =>
    obtain ⟨hfresh_m, hopen_m, hconn_m, hwrites_m⟩ := ih
    -- the calls keep waiting for nothing but time up to `m`
    obtain ⟨hcalls_m, -⟩ := lanesMoves_weight hsw.answers hrun.moves hcalls
    obtain ⟨hfresh_b, hopen_b, hconn_b, hwrites_b⟩ := hend.accounts hsw hcalls_m hfresh_m
    refine ⟨hfresh_b, hopen_b.trans hopen_m, ?_, ?_⟩
    · rw [attemptsOf_append]
      omega
    · rw [hwrites_b, hwrites_m, List.flatMap_append, List.append_assoc]

/-- **A run of lanes is accounted for.** On a switched gateway, whatever the
faults, a controller's run of queues of jobs ends calls, one move after
another, that account for what the gateway in memory counted: the sessions
open are as many as before, the connections asked for grew by the attempts of
those calls, and the writes acknowledged by the writes of those that
succeeded, in the order they ended. -/
theorem Controller.runLanes_accounted (queues : List (List Job)) (st : Controller.State σ) :
    ∃ lanes es, c.EndsAlong (queues.map fun q => { queue := q }, st) es
        (lanes, (c.runLanes queues st).2) ∧
      (c.runLanes queues st).1 = lanes.map (·.results) ∧
      Accounted (mem st.gate) (mem (c.runLanes queues st).2.gate) es := by
  obtain ⟨lanes, hrun, hres⟩ := c.runLanes_moves queues st
  obtain ⟨es, hes⟩ := Controller.endsAlong_of_moves hrun
  -- fresh lanes have nothing under way
  have hcalls₀ : ∀ l ∈ queues.map (fun q => ({ queue := q } : Lane)), l.Calls c.policy := by
    intro l hl x hx
    obtain ⟨q, -, rfl⟩ := List.mem_map.1 hl
    cases hx
  have hfresh₀ : ∀ l ∈ queues.map (fun q => ({ queue := q } : Lane)), l.Fresh := by
    intro l hl x hx
    obtain ⟨q, -, rfl⟩ := List.mem_map.1 hl
    cases hx
  have hunder₀ : lanesUnderWay (queues.map fun q => ({ queue := q } : Lane)) = 0 := by
    apply lanesUnderWay_eq_zero
    intro l hl
    obtain ⟨q, -, rfl⟩ := List.mem_map.1 hl
    rfl
  -- every job ended, so no call is under way at the end
  have hidle : ∀ l ∈ lanes, l.current = none := by
    have hends := c.runLanes_ends_jobs hsw.answers queues st
    obtain ⟨-, -, -, hjobs⟩ := lanesMoves_weight hsw.answers hrun hcalls₀
    have hjobs₀ : (queues.map fun q => ({ queue := q } : Lane)).map Lane.jobs = queues := by
      simp [Function.comp_def, Lane.jobs]
    rw [hres, List.map_map, ← hjobs₀, ← hjobs] at hends
    intro l hl
    exact Controller.current_eq_none_of_ended (List.map_inj_left.1 hends l hl)
  obtain ⟨-, hopen, hconn, hwrites⟩ := hes.accounts hsw hcalls₀ hfresh₀
  rw [hunder₀, lanesUnderWay_eq_zero hidle] at hconn
  exact ⟨lanes, es, hes, hres, hopen, by simpa using hconn, hwrites⟩

end Accounting

/-! ## Requests of a controller -/

/-- The jobs a request runs, as queues of lanes side by side: a read or a
write is one job; resetting both lines writes lot 0 to the PC register of
each, side by side; a refused address, the status and the settings run none. -/
def Command.queues : Command → List (List Job)
  | .set l k lot | .trySet l k lot => [[⟨.activeLot l k, some lot⟩]]
  | .setRaw n name lot =>
    match RegisterKey.parse n name with
    | .ok key => [[⟨key, some lot⟩]]
    | .error _ => []
  | .get l k => [[⟨.activeLot l k, none⟩]]
  | .getRaw n name =>
    match RegisterKey.parse n name with
    | .ok key => [[⟨key, none⟩]]
    | .error _ => []
  | .lastUpdated => [[⟨.lastUpdated, none⟩]]
  | .reset _ => [[⟨.activeLot .one .pc, some 0⟩], [⟨.activeLot .two .pc, some 0⟩]]
  | .status | .settings => []

namespace Controller

variable {σ : Type} (c : Controller σ)

theorem perform_state (j : Job) (st : State σ) : (c.perform j st).2 = (c.runLanes [[j]] st).2 := by
  unfold perform
  split <;> simp_all

theorem writeDone_state (key : RegisterKey) (lot : Nat) (st : State σ) :
    (c.writeDone key lot st).2 = (c.runLanes [[⟨key, some lot⟩]] st).2 := by
  rw [← perform_state]
  unfold writeDone write
  split <;> simp_all

theorem readValue?_state (key : RegisterKey) (st : State σ) :
    (c.readValue? key st).2 = (c.runLanes [[⟨key, none⟩]] st).2 := by
  rw [← perform_state]
  unfold readValue? read
  split <;> simp_all

theorem resetLines_state (st : State σ) :
    (c.resetLines st).2 =
      (c.runLanes [[⟨.activeLot .one .pc, some 0⟩], [⟨.activeLot .two .pc, some 0⟩]] st).2 := by
  unfold resetLines
  dsimp only
  split <;> simp_all

/-- Lanes that are not there leave the state as it is. -/
theorem runLanes_nil (st : State σ) : (c.runLanes [] st).2 = st := rfl

/-- A request changes the gateway as the run of its jobs does. -/
theorem exec_gate (cmd : Command) (st : State σ) :
    (c.exec cmd st).2.gate = (c.runLanes cmd.queues st).2.gate := by
  cases cmd with
  | set l k lot => simp [exec, Command.queues, writeDone_state]
  | trySet l k lot =>
    rw [exec, Command.queues, ← perform_state]
    unfold write
    split <;> simp_all
  | setRaw n name lot =>
    cases hp : RegisterKey.parse n name with
    | ok key => simp [exec, Command.queues, hp, writeDone_state]
    | error b => simp [exec, Command.queues, hp, runLanes_nil, reject]
  | get l k =>
    rw [exec, Command.queues, ← readValue?_state]
    split <;> simp_all
  | getRaw n name =>
    cases hp : RegisterKey.parse n name with
    | ok key =>
      simp only [exec, Command.queues, hp, ← readValue?_state]
      split <;> simp_all
    | error b => simp [exec, Command.queues, hp, runLanes_nil, reject]
  | lastUpdated =>
    rw [exec, Command.queues, ← readValue?_state]
    split <;> simp_all
  | reset detailed => simp [exec, Command.queues, resetLines_state]
  | status => rfl
  | settings => rfl

end Controller

section Requests

variable {σ : Type} {c : Controller σ} {mem : σ → MemoryGateway} (hsw : c.gateway.Switched mem)
include hsw

/-- **Every request a controller carries out is accounted for.** On a switched
gateway, whatever the faults, a request changes the gateway as the run of its
jobs does, and the calls ended along that run account for what the gateway in
memory counted. -/
theorem Controller.exec_accounted (cmd : Command) (st : Controller.State σ) :
    ∃ lanes es, c.EndsAlong (cmd.queues.map fun q => { queue := q }, st) es
        (lanes, (c.runLanes cmd.queues st).2) ∧
      (c.exec cmd st).2.gate = (c.runLanes cmd.queues st).2.gate ∧
      Accounted (mem st.gate) (mem (c.exec cmd st).2.gate) es := by
  obtain ⟨lanes, es, hes, -, hacc⟩ := c.runLanes_accounted hsw cmd.queues st
  rw [← c.exec_gate cmd st] at hacc
  exact ⟨lanes, es, hes, c.exec_gate cmd st, hacc⟩

/-- Two connections reset, then a write on the third attempt: three
connections asked for, no session left open, and the one write acknowledged. -/
example :
    let c : Controller MemoryGateway := ⟨MemoryGateway.gateway, {}, ⟨3, fun _ _ => true, fun _ => 10⟩⟩
    let g := (c.exec (.set .one .pc 9)
      ⟨{ MemoryGateway.create "urn:potline:lines" 0 with failingConnects := 2 }, {}, 0⟩).2.gate
    g.connects = 3 ∧ g.openSessions = 0 ∧ g.writes = [(.activeLot .one .pc, 9)] := by
  decide +kernel

/-- **No session is left open between requests.** Along any requests a
controller carries out on a switched gateway, the sessions open after each are
as many as before the first. -/
theorem Controller.execAll_openSessions (cmds : List Command) (st : Controller.State σ) :
    ∀ x ∈ c.execAll cmds st, (mem x.2.gate).openSessions = (mem st.gate).openSessions := by
  induction cmds generalizing st with
  | nil => intro x hx; cases hx
  | cons cmd cmds ih =>
    obtain ⟨_, _, -, -, hacc⟩ := c.exec_accounted hsw cmd st
    intro x hx
    rcases List.mem_cons.1 hx with rfl | hx
    · exact hacc.openSessions
    · rw [ih (c.exec cmd st).2 x hx, hacc.openSessions]

end Requests

/-- **Sessions close once what they opened, and a controller's sessions are
all accounted for.** A session run to its end, never cancelled, on a gateway
that answers every read and write, ends, and made the requests `Session.Scoped`
allows: the reads and writes only at the namespace index it resolved, and a
closing exactly once, as its last request, when its connection was accepted,
and none when it was not. What closing answers changes no session's run. On a
gateway in memory with faults switched at any time, every request a controller
carries out is accounted for by the calls it ended, and along any requests from
no session open, none is left open after each. -/
theorem sessions_closedOnce_accounted :
    (∀ {σ : Type} (gw : Gateway σ) (conn : Config.Connection), gw.AnswersRegisters →
      ∀ (now : Nat) (t : Tracker) (work : List Step) (g : σ) (log : List Gateway.Request),
        ∃ r L, (Session.finish gw.logged conn none now t work (g, log)).1.ending = .finished r ∧
          (Session.finish gw.logged conn none now t work (g, log)).2.2 = log ++ L ∧
          Session.Scoped gw conn work g L r ∧
          ((gw.connect conn g).1 = .answer (.ok ()) → L.count .close = 1 ∧ L.getLast? = some .close) ∧
          ((gw.connect conn g).1 ≠ .answer (.ok ()) → L = [.connect])) ∧
    (∀ {σ : Type} (gw : Gateway σ) (conn : Config.Connection) (answer : σ → Except Failure Unit)
      (cancel : Option Nat) (now : Nat) (t : Tracker) (work : List Step) (g : σ),
        Session.finish (gw.answeringClose answer) conn cancel now t work g =
          Session.finish gw conn cancel now t work g) ∧
    (∀ {σ : Type} (c : Controller σ) (mem : σ → MemoryGateway), c.gateway.Switched mem →
      (∀ (cmd : Command) (st : Controller.State σ), ∃ lanes es,
        c.EndsAlong (cmd.queues.map fun q => { queue := q }, st) es
          (lanes, (c.runLanes cmd.queues st).2) ∧
        (c.exec cmd st).2.gate = (c.runLanes cmd.queues st).2.gate ∧
        Accounted (mem st.gate) (mem (c.exec cmd st).2.gate) es) ∧
      ∀ (cmds : List Command) (st : Controller.State σ), (mem st.gate).openSessions = 0 →
        ∀ x ∈ c.execAll cmds st, (mem x.2.gate).openSessions = 0) := by
  refine ⟨fun gw conn hans now t work g log => ?_,
    fun gw conn answer => Session.finish_closeAnswer gw conn answer,
    fun c mem hsw => ⟨c.exec_accounted hsw, fun cmds st h0 x hx => ?_⟩⟩
  · obtain ⟨r, L, hend, hlog, hscoped⟩ := Session.finish_scoped gw conn hans now t work g log
    exact ⟨r, L, hend, hlog, hscoped, hscoped.closes.1, hscoped.closes.2⟩
  · rw [c.execAll_openSessions hsw cmds st x hx, h0]

/-- On a new gateway in memory: a session writing line 1's register closes
once, as its last request, and a controller writing and reading that register
leaves no session open after either call. -/
theorem sessions_closedOnce_accounted_inMemory :
    let g := MemoryGateway.create "urn:potline:lines" 0
    (∃ r, (Session.finish MemoryGateway.gateway.logged {} none 0 {} [.write (.activeLot .one .pc) 5]
        (g, [])).1.ending = .finished r ∧
      ((Session.finish MemoryGateway.gateway.logged {} none 0 {} [.write (.activeLot .one .pc) 5]
        (g, [])).2.2.count .close = 1) ∧
      (Session.finish MemoryGateway.gateway.logged {} none 0 {} [.write (.activeLot .one .pc) 5]
        (g, [])).2.2.getLast? = some .close) ∧
      ∀ x ∈ Controller.execAll ⟨MemoryGateway.gateway, {}, ⟨1, fun _ _ => true, fun _ => 10⟩⟩
        [.set .one .pc 5, .get .one .pc] { gate := g }, x.2.gate.openSessions = 0 := by
  intro g
  have hans : MemoryGateway.gateway.AnswersRegisters :=
    ⟨MemoryGateway.gateway_switched.answers.read, MemoryGateway.gateway_switched.answers.write⟩
  have hopen : (MemoryGateway.gateway.connect {} g).1 = .answer (.ok ()) := rfl
  have h := sessions_closedOnce_accounted
  obtain ⟨r, L, hend, hlog, -, hclose, -⟩ :=
    h.1 MemoryGateway.gateway {} hans 0 {} [.write (.activeLot .one .pc) 5] g []
  rw [List.nil_append] at hlog
  exact ⟨⟨r, hend, hlog ▸ hclose hopen⟩,
    (h.2.2 ⟨MemoryGateway.gateway, {}, ⟨1, fun _ _ => true, fun _ => 10⟩⟩ id MemoryGateway.gateway_switched).2 _ _ rfl⟩

end LotBridge
