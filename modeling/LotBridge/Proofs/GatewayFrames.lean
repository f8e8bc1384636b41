import LotBridge.Proofs.LaneRuns

/-!
# What calls do to a gateway

A call reaches its gateway only through the requests it makes, so what every
request does to the gateway's state, a call does too, and so does a run of
lanes. This file says it for two kinds of facts.

A property of the gateway's state that every request keeps (`Gateway.Keeps`)
holds after every run of lanes (`Controller.runLanes_keeps`).

A call of a job on a gateway that answers every request (`Gateway.Answers`)
never waits for an answer: each attempt ends at once, so the call ends or
pauses before a later attempt (`advance_jobCall`). Where the gateway keeps a
record of the writes it acknowledged (`Gateway.AckLog`), the call leaves
there the write of its job when it succeeded and nothing else.

## Main definitions

* `Gateway.Keeps`, `Gateway.Answers`, `Gateway.AckLog`.
* `Job.acked`, `Call.attempt`, `JobCall`.
-/

namespace LotBridge

namespace Gateway

variable {σ : Type}

/-- A property of gateway states that every request a call makes keeps. -/
structure Keeps (gw : Gateway σ) (P : σ → Prop) : Prop where
  connect : ∀ c g, P g → P (gw.connect c g).2
  namespaces : ∀ g, P g → P (gw.namespaces g).2
  read : ∀ a g, P g → P (gw.read a g).2
  write : ∀ a v g, P g → P (gw.write a v g).2
  close : ∀ g, P g → P (gw.close g).2

/-- A gateway that answers every connection, read and write. -/
structure Answers (gw : Gateway σ) : Prop where
  connect : ∀ c g, (gw.connect c g).1 ≠ .silent
  read : ∀ a g, (gw.read a g).1 ≠ .silent
  write : ∀ a v g, (gw.write a v g).1 ≠ .silent

/-- A record, kept in the gateway's state, of the writes it acknowledged: a
write it acknowledges adds the register and the value to it, and nothing else
changes it. -/
structure AckLog (gw : Gateway σ) where
  acks : σ → List (RegisterKey × Int)
  connect : ∀ c g, acks (gw.connect c g).2 = acks g
  namespaces : ∀ g, acks (gw.namespaces g).2 = acks g
  read : ∀ a g, acks (gw.read a g).2 = acks g
  close : ∀ g, acks (gw.close g).2 = acks g
  write_ok : ∀ a v g, (gw.write a v g).1 = .answer (.ok ()) →
    acks (gw.write a v g).2 = acks g ++ [(a.key, v)]
  write_refused : ∀ a v g, (gw.write a v g).1 ≠ .answer (.ok ()) →
    acks (gw.write a v g).2 = acks g

end Gateway

/-! ## The retry loop, one attempt at a time -/

section Loop

variable {σ : Type} (gw : Gateway σ) (conn : Config.Connection) (policy : Retry.Policy) (now : Nat)

/-- What the retry loop does after the attempt it starts with: it waits with
the attempt, ends with it, pauses before the next attempt, or goes on to the
next attempt at once, from the gateway state the attempt left. -/
theorem Call.attemptFrom_cases (fuel a : Nat) (s : Session) (g : σ) :
    ∃ p g₁, Session.advance gw conn now s g = (p, g₁) ∧
      ((∃ w s', p = .waiting w s' ∧
          Call.attemptFrom gw conn policy now fuel a s g = (.waiting w (.trying a s'), g₁)) ∨
        (∃ r t, p = .finished r t ∧
          Call.attemptFrom gw conn policy now fuel a s g = (.finished r t, g₁)) ∨
        (∃ e t, p = .finished (.error e) t ∧ a + 1 < policy.limit ∧ policy.shouldRetry a e ∧
          policy.delay a ≠ 0 ∧
          Call.attemptFrom gw conn policy now fuel a s g =
            (.waiting (some (now + policy.delay a)) (.pausing (a + 1) t s.work), g₁)) ∨
        (∃ e t n, p = .finished (.error e) t ∧ a + 1 < policy.limit ∧ policy.shouldRetry a e ∧
          policy.delay a = 0 ∧ fuel = n + 1 ∧
          Call.attemptFrom gw conn policy now fuel a s g =
            Call.attemptFrom gw conn policy now n (a + 1) ⟨t, s.work, .opening⟩ g₁)) := by
  cases hadv : Session.advance gw conn now s g with
  | mk p g₁ =>
    refine ⟨p, g₁, rfl, ?_⟩
    rw [Call.attemptFrom, hadv]
    cases p with
    | waiting w s' => exact Or.inl ⟨w, s', rfl, rfl⟩
    | finished r t =>
      cases r with
      | ok ys => exact Or.inr (Or.inl ⟨_, t, rfl, rfl⟩)
      | error e =>
        simp only
        by_cases hretry : (a + 1 < policy.limit && policy.shouldRetry a e) = true
        · simp only [Bool.and_eq_true, decide_eq_true_eq] at hretry
          obtain ⟨hlt, hshould⟩ := hretry
          rw [if_pos (by simp [hlt, hshould])]
          by_cases hd : policy.delay a = 0
          · rw [if_pos hd]
            cases fuel with
            | zero => exact Or.inr (Or.inl ⟨_, t, rfl, rfl⟩)
            | succ n => exact Or.inr (Or.inr (Or.inr ⟨e, t, n, rfl, hlt, hshould, hd, rfl, rfl⟩))
          · rw [if_neg hd]
            exact Or.inr (Or.inr (Or.inl ⟨e, t, rfl, hlt, hshould, hd, rfl⟩))
        · rw [if_neg hretry]
          exact Or.inr (Or.inl ⟨_, t, rfl, rfl⟩)

end Loop

/-! ## Properties every request keeps -/

section Keeps

variable {σ : Type} {gw : Gateway σ} {P : σ → Prop} (hP : gw.Keeps P) (conn : Config.Connection)
  (policy : Retry.Policy) (now : Nat)
include hP

theorem Session.perform_keeps (t : Tracker) (work : List Step) (index : Nat) (todo : List Step)
    (done : List Yield) {g : σ} (hg : P g) :
    P (Session.perform gw now t work index todo done g).2 := by
  induction todo generalizing done g with
  | nil => exact hP.close g hg
  | cons step todo ih =>
    cases step with
    | read k =>
      have hr := hP.read ⟨index, k⟩ g hg
      simp only [Session.perform]
      split
      · exact ih _ (by simp_all)
      · exact hP.close _ (by simp_all)
      · simp_all
    | write k v =>
      have hw := hP.write ⟨index, k⟩ v g hg
      simp only [Session.perform]
      split
      · exact ih _ (by simp_all)
      · exact hP.close _ (by simp_all)
      · simp_all
    | pause ms =>
      simp only [Session.perform]
      split
      · exact ih _ hg
      · exact hg
    | namespaceIndex => exact ih _ hg
    | resolve k => exact ih _ hg

theorem Session.connected_keeps (t : Tracker) (work : List Step) {g : σ} (hg : P g) :
    P (Session.connected gw conn now t work g).2 := by
  have hns := hP.namespaces g hg
  simp only [Session.connected]
  split
  · exact hP.close _ (by simp_all)
  · split
    · exact hP.close _ (by simp_all)
    · exact Session.perform_keeps hP now _ work _ work [] (by simp_all)

theorem Session.advance_keeps (s : Session) {g : σ} (hg : P g) :
    P (Session.advance gw conn now s g).2 := by
  obtain ⟨t, work, stage⟩ := s
  cases stage with
  | opening =>
    have hc := hP.connect conn g hg
    simp only [Session.advance]
    split
    · exact Session.connected_keeps hP conn now _ work (by simp_all)
    · simp_all
    · split <;> simp_all
  | connecting => exact hg
  | working index todo done => exact Session.perform_keeps hP now t work index todo done hg
  | stalled => exact hg

theorem Call.attemptFrom_keeps (fuel a : Nat) (s : Session) {g : σ} (hg : P g) :
    P (Call.attemptFrom gw conn policy now fuel a s g).2 := by
  induction fuel using Nat.strongRecOn generalizing a s g with
  | ind fuel ih =>
    obtain ⟨p, g₁, hadv, h⟩ := Call.attemptFrom_cases gw conn policy now fuel a s g
    have hg₁ : P g₁ := by simpa [hadv] using Session.advance_keeps hP conn now s hg
    rcases h with ⟨w, s', -, h⟩ | ⟨r, t, -, h⟩ | ⟨e, t, -, -, -, -, h⟩ | ⟨e, t, n, -, -, -, -, hn, h⟩
    · rw [h]
      exact hg₁
    · rw [h]
      exact hg₁
    · rw [h]
      exact hg₁
    · rw [h]
      exact ih n (by omega) _ _ hg₁

theorem Call.advance_keeps (c : Call) {g : σ} (hg : P g) :
    P (c.advance gw conn policy now g).2 := by
  cases c with
  | trying a s => exact Call.attemptFrom_keeps hP conn policy now _ a s hg
  | pausing a t work => exact Call.attemptFrom_keeps hP conn policy now _ a _ hg

end Keeps

section LaneKeeps

variable {σ : Type} {P : σ → Prop}

theorem Controller.laneMove_keeps {c : Controller σ} (hc : c.gateway.Keeps P)
    {a b : Lane × Controller.State σ} (h : c.LaneMove a b) (ha : P a.2.gate) : P b.2.gate := by
  cases h with
  | start => exact ha
  | @wait lane st j call call' w w' g hcur hw hadv =>
    have hg := Call.advance_keeps hc c.connection c.policy st.clock call ha
    rw [hadv] at hg
    exact hg
  | @finish lane st j call w r t g hcur hw hadv =>
    have hg := Call.advance_keeps hc c.connection c.policy st.clock call ha
    rw [hadv] at hg
    rw [Controller.settle_gate]
    exact hg

theorem Controller.lanesMove_keeps {c : Controller σ} (hc : c.gateway.Keeps P)
    {a b : List Lane × Controller.State σ} (h : c.LanesMove a b) (ha : P a.2.gate) :
    P b.2.gate := by
  cases h with
  | lane hi hmove => exact Controller.laneMove_keeps hc hmove ha
  | clock hw => exact ha

/-- A property every request keeps holds all along a run of lanes. -/
theorem Controller.lanesMoves_keeps {c : Controller σ} (hc : c.gateway.Keeps P)
    {a b : List Lane × Controller.State σ} (h : Relation.ReflTransGen c.LanesMove a b)
    (ha : P a.2.gate) : P b.2.gate := by
  induction h with
  | refl => exact ha
  | tail _ hmove ih => exact Controller.lanesMove_keeps hc hmove ih

theorem Controller.runLanes_keeps {c : Controller σ} (hc : c.gateway.Keeps P)
    (queues : List (List Job)) {st : Controller.State σ} (hg : P st.gate) :
    P (c.runLanes queues st).2.gate := by
  obtain ⟨lanes, hrun, -⟩ := c.runLanes_moves queues st
  have hkeeps := Controller.lanesMoves_keeps hc hrun
  exact hkeeps hg

end LaneKeeps

/-! ## Calls of jobs on a gateway that answers -/

/-- The write a job leaves in a gateway's record of acknowledged writes when
it succeeds: its register and value, if it writes. -/
def Job.acked (j : Job) : List (RegisterKey × Int) :=
  match j.value with
  | none => []
  | some v => [(j.key, v)]

/-- The writes a call of job `j` with result `r` leaves acknowledged: the
job's write on success, nothing on failure. -/
def Job.ackedBy (j : Job) (r : Except Failure (List Yield)) : List (RegisterKey × Int) :=
  match r with
  | .ok _ => j.acked
  | .error _ => []

/-- The attempt a call is at, or pauses before. -/
def Call.attempt : Call → Nat
  | .trying a _ => a
  | .pausing a _ _ => a

/-- A call of job `j` that waits for nothing but time: about to open an
attempt, or pausing before one, within the policy's attempts. -/
def JobCall (j : Job) (policy : Retry.Policy) (c : Call) : Prop :=
  c.attempt < policy.limit ∧
    ∃ t, c = .trying c.attempt ⟨t, j.work, .opening⟩ ∨ c = .pausing c.attempt t j.work

theorem jobCall_start (j : Job) (policy : Retry.Policy) : JobCall j policy (Call.start j.work) :=
  ⟨Retry.limit_pos policy, {}, Or.inl rfl⟩

section Answering

variable {σ : Type} {gw : Gateway σ} (hans : gw.Answers) (log : gw.AckLog) (conn : Config.Connection)
  (now : Nat) (j : Job)
include hans

/-- The read or write of an attempt ends at once, and leaves acknowledged
the job's write exactly when it succeeded. -/
theorem perform_answers (t : Tracker) (index : Nat) (g : σ) :
    ∃ r t' g', Session.perform gw now t j.work index j.work [] g = (.finished r t', g') ∧
      log.acks g' = log.acks g ++ j.ackedBy r := by
  obtain ⟨k, v⟩ := j
  cases v with
  | none =>
    have hsil := hans.read ⟨index, k⟩ g
    cases hread : gw.read ⟨index, k⟩ g with
    | mk reply g₁ =>
      rw [hread] at hsil
      have hacks : log.acks g₁ = log.acks g := by simpa [hread] using log.read ⟨index, k⟩ g
      cases reply with
      | answer r =>
        cases r with
        | ok x =>
          refine ⟨.ok [.number x], (t.step .completed).2, (gw.close g₁).2, by simp [Job.work, Session.perform, hread], ?_⟩
          simp [Job.ackedBy, Job.acked, log.close, hacks]
        | error e =>
          refine ⟨.error e, (t.step .fault).2, (gw.close g₁).2, ?_, ?_⟩
          · simp [Job.work, Session.perform, Session.abandon, hread]
          · simp [Job.ackedBy, log.close, hacks]
      | silent => exact absurd rfl hsil
  | some v =>
    have hsil := hans.write ⟨index, k⟩ v g
    cases hwrite : gw.write ⟨index, k⟩ v g with
    | mk reply g₁ =>
      rw [hwrite] at hsil
      cases reply with
      | answer r =>
        cases r with
        | ok u =>
          have hacks : log.acks g₁ = log.acks g ++ [(k, v)] := by
            simpa [hwrite] using log.write_ok ⟨index, k⟩ v g (by rw [hwrite])
          refine ⟨.ok [.unit], (t.step .completed).2, (gw.close g₁).2, by simp [Job.work, Session.perform, hwrite], ?_⟩
          simp [Job.ackedBy, Job.acked, log.close, hacks]
        | error e =>
          have hacks : log.acks g₁ = log.acks g := by
            simpa [hwrite] using log.write_refused ⟨index, k⟩ v g (by rw [hwrite]; simp)
          refine ⟨.error e, (t.step .fault).2, (gw.close g₁).2, ?_, ?_⟩
          · simp [Job.work, Session.perform, Session.abandon, hwrite]
          · simp [Job.ackedBy, log.close, hacks]
      | silent => exact absurd rfl hsil

/-- An attempt once connected ends at once, and leaves acknowledged the job's
write exactly when it succeeded. -/
theorem connected_answers (t : Tracker) (g : σ) :
    ∃ r t' g', Session.connected gw conn now t j.work g = (.finished r t', g') ∧
      log.acks g' = log.acks g ++ j.ackedBy r := by
  cases hns : gw.namespaces g with
  | mk answer g₁ =>
    have hacks : log.acks g₁ = log.acks g := by simpa [hns] using log.namespaces g
    have hclose : log.acks (gw.close g₁).2 = log.acks g := by rw [log.close, hacks]
    cases answer with
    | error e =>
      refine ⟨.error e, ((t.step .connected).2.step .fault).2, (gw.close g₁).2, ?_,
        by simp [Job.ackedBy, hclose]⟩
      simp [Session.connected, Session.abandon, hns]
    | ok published =>
      cases hidx : namespaceIndexIn conn.namespaceUri published with
      | error e =>
        refine ⟨.error e, ((t.step .connected).2.step .fault).2, (gw.close g₁).2, ?_,
          by simp [Job.ackedBy, hclose]⟩
        simp [Session.connected, Session.abandon, hns, hidx]
      | ok index =>
        obtain ⟨r, t', g', hperf, hperf_acks⟩ :=
          perform_answers hans log now j (((t.step .connected).2.step .resolved).2) index g₁
        refine ⟨r, t', g', ?_, by rw [hperf_acks, hacks]⟩
        simp [Session.connected, hns, hidx, hperf]

/-- An attempt from its start ends at once, and leaves acknowledged the job's
write exactly when it succeeded. -/
theorem advance_opening_answers (t : Tracker) (g : σ) :
    ∃ r t' g', Session.advance gw conn now ⟨t, j.work, .opening⟩ g = (.finished r t', g') ∧
      log.acks g' = log.acks g ++ j.ackedBy r := by
  have hsil := hans.connect conn g
  cases hc : gw.connect conn g with
  | mk reply g₁ =>
    rw [hc] at hsil
    have hacks : log.acks g₁ = log.acks g := by simpa [hc] using log.connect conn g
    cases reply with
    | answer r =>
      cases r with
      | ok u =>
        obtain ⟨r, t', g', hcon, hcon_acks⟩ :=
          connected_answers hans log conn now j (t.step .connect).2 g₁
        refine ⟨r, t', g', ?_, by rw [hcon_acks, hacks]⟩
        simp [Session.advance, hc, hcon]
      | error e =>
        refine ⟨.error e, ((t.step .connect).2.step .fault).2, g₁, ?_, by simp [Job.ackedBy, hacks]⟩
        simp [Session.advance, hc]
    | silent => exact absurd rfl hsil

variable (policy : Retry.Policy)

/-- The retry loop from an attempt at its start ends, or pauses before a
later attempt within the policy's attempts; its writes are acknowledged only
when it ends with a success, and then exactly the job's write. -/
theorem attemptFrom_answers (fuel : Nat) {a : Nat} (ha : a < policy.limit) (t : Tracker) (g : σ) :
    (∃ r t' g', Call.attemptFrom gw conn policy now fuel a ⟨t, j.work, .opening⟩ g =
        (.finished r t', g') ∧ log.acks g' = log.acks g ++ j.ackedBy r) ∨
    (∃ w a' t' g', Call.attemptFrom gw conn policy now fuel a ⟨t, j.work, .opening⟩ g =
        (.waiting (some w) (.pausing a' t' j.work), g') ∧
      now < w ∧ a < a' ∧ a' < policy.limit ∧ log.acks g' = log.acks g) := by
  induction fuel using Nat.strongRecOn generalizing a t g with
  | ind fuel ih =>
    obtain ⟨r₀, t₀, g₁, hadv, hacks⟩ := advance_opening_answers hans log conn now j t g
    obtain ⟨p, g₁', hadv', h⟩ := Call.attemptFrom_cases gw conn policy now fuel a ⟨t, j.work, .opening⟩ g
    rw [hadv] at hadv'
    obtain ⟨rfl, rfl⟩ := Prod.mk.inj hadv'
    rcases h with ⟨w, s', hp, -⟩ | ⟨r, t', hp, h⟩ | ⟨e, t', hp, hnext, -, hd, h⟩ |
      ⟨e, t', n, hp, hnext, -, -, hn, h⟩
    · cases hp
    · -- the attempt ended the call
      obtain ⟨rfl, rfl⟩ := Progress.finished.inj hp
      exact Or.inl ⟨r₀, t₀, g₁, h, hacks⟩
    · -- a failed attempt, then a pause before the next one
      obtain ⟨rfl, rfl⟩ := Progress.finished.inj hp
      refine Or.inr ⟨now + policy.delay a, a + 1, t₀, g₁, h, by omega, by omega, hnext, ?_⟩
      simpa [Job.ackedBy] using hacks
    · -- a failed attempt, and the next one at once
      obtain ⟨rfl, rfl⟩ := Progress.finished.inj hp
      have hacks₁ : log.acks g₁ = log.acks g := by simpa [Job.ackedBy] using hacks
      rw [h]
      rcases ih n (by omega) hnext t₀ g₁ with ⟨r, t'', g', hrun, hrun_acks⟩ | ⟨w, a', t'', g', hrun, hw, ha', hlim, hrun_acks⟩
      · exact Or.inl ⟨r, t'', g', hrun, by rw [hrun_acks, hacks₁]⟩
      · exact Or.inr ⟨w, a', t'', g', hrun, hw, by omega, hlim, by rw [hrun_acks, hacks₁]⟩

/-- **A job's call on a gateway that answers waits for nothing but time.**
Advanced, it ends, leaving acknowledged the job's write exactly when it
succeeded; or it pauses until a later time before a later attempt, leaving
nothing acknowledged. -/
theorem advance_jobCall {c : Call} (hc : JobCall j policy c) (g : σ) :
    (∃ r t g', c.advance gw conn policy now g = (.finished r t, g') ∧
      log.acks g' = log.acks g ++ j.ackedBy r) ∨
    (∃ w c' g', c.advance gw conn policy now g = (.waiting (some w) c', g') ∧
      now < w ∧ JobCall j policy c' ∧ c.attempt < c'.attempt ∧ log.acks g' = log.acks g) := by
  obtain ⟨hlim, t, hshape⟩ := hc
  -- both shapes go on with an attempt at its start
  have hstart : c.advance gw conn policy now g =
      Call.attemptFrom gw conn policy now policy.limit c.attempt ⟨t, j.work, .opening⟩ g := by
    rcases hshape with h | h <;> rw [h] <;> rfl
  rw [hstart]
  rcases attemptFrom_answers hans log conn now j policy policy.limit hlim t g with
    h | ⟨w, a', t', g', hrun, hw, ha', hlim', hacks⟩
  · exact Or.inl h
  · exact Or.inr ⟨w, _, g', hrun, hw, ⟨hlim', t', Or.inr rfl⟩, ha', hacks⟩

end Answering

/-! ## Calls of jobs end, with or without a record of writes

That a call on a gateway that answers waits for nothing but time needs no
record of the writes: the same steps as above, without the record. -/

section Ending

variable {σ : Type} {gw : Gateway σ} (hans : gw.Answers) (conn : Config.Connection) (now : Nat) (j : Job)
include hans

theorem perform_ends (t : Tracker) (index : Nat) (g : σ) :
    ∃ r t' g', Session.perform gw now t j.work index j.work [] g = (.finished r t', g') := by
  obtain ⟨k, v⟩ := j
  cases v with
  | none =>
    have hsil := hans.read ⟨index, k⟩ g
    cases hread : gw.read ⟨index, k⟩ g with
    | mk reply g₁ =>
      rw [hread] at hsil
      cases reply with
      | answer r =>
        cases r with
        | ok x => simp [Job.work, Session.perform, hread]
        | error e => simp [Job.work, Session.perform, Session.abandon, hread]
      | silent => exact absurd rfl hsil
  | some v =>
    have hsil := hans.write ⟨index, k⟩ v g
    cases hwrite : gw.write ⟨index, k⟩ v g with
    | mk reply g₁ =>
      rw [hwrite] at hsil
      cases reply with
      | answer r =>
        cases r with
        | ok u => simp [Job.work, Session.perform, hwrite]
        | error e => simp [Job.work, Session.perform, Session.abandon, hwrite]
      | silent => exact absurd rfl hsil

theorem advance_opening_ends (t : Tracker) (g : σ) :
    ∃ r t' g', Session.advance gw conn now ⟨t, j.work, .opening⟩ g = (.finished r t', g') := by
  have hsil := hans.connect conn g
  cases hc : gw.connect conn g with
  | mk reply g₁ =>
    rw [hc] at hsil
    cases reply with
    | answer r =>
      cases r with
      | ok u =>
        -- connected: the namespaces, then the job's read or write, end at once
        cases hns : gw.namespaces g₁ with
        | mk answer g₂ =>
          cases answer with
          | error e => simp [Session.advance, Session.connected, Session.abandon, hc, hns]
          | ok published =>
            cases hidx : namespaceIndexIn conn.namespaceUri published with
            | error e =>
              simp [Session.advance, Session.connected, Session.abandon, hc, hns, hidx]
            | ok index =>
              obtain ⟨r, t', g', hperf⟩ :=
                perform_ends hans now j ((((t.step .connect).2.step .connected).2.step .resolved).2) index g₂
              exact ⟨r, t', g', by simp [Session.advance, Session.connected, hc, hns, hidx, hperf]⟩
      | error e => simp [Session.advance, hc]
    | silent => exact absurd rfl hsil

variable (policy : Retry.Policy)

theorem attemptFrom_ends (fuel : Nat) {a : Nat} (ha : a < policy.limit) (t : Tracker) (g : σ) :
    (∃ r t' g', Call.attemptFrom gw conn policy now fuel a ⟨t, j.work, .opening⟩ g = (.finished r t', g')) ∨
    (∃ w a' t' g', Call.attemptFrom gw conn policy now fuel a ⟨t, j.work, .opening⟩ g =
        (.waiting (some w) (.pausing a' t' j.work), g') ∧ now < w ∧ a < a' ∧ a' < policy.limit) := by
  induction fuel using Nat.strongRecOn generalizing a t g with
  | ind fuel ih =>
    obtain ⟨r₀, t₀, g₁, hadv⟩ := advance_opening_ends hans conn now j t g
    obtain ⟨p, g₁', hadv', h⟩ := Call.attemptFrom_cases gw conn policy now fuel a ⟨t, j.work, .opening⟩ g
    rw [hadv] at hadv'
    obtain ⟨rfl, rfl⟩ := Prod.mk.inj hadv'
    rcases h with ⟨w, s', hp, -⟩ | ⟨r, t', -, h⟩ | ⟨e, t', hp, hnext, -, hd, h⟩ |
      ⟨e, t', n, hp, hnext, -, -, hn, h⟩
    · cases hp
    · exact Or.inl ⟨r, t', g₁, h⟩
    · -- a failed attempt, then a pause before the next one
      obtain ⟨-, rfl⟩ := Progress.finished.inj hp
      exact Or.inr ⟨now + policy.delay a, a + 1, t₀, g₁, h, by omega, by omega, hnext⟩
    · -- a failed attempt, and the next one at once
      obtain ⟨-, rfl⟩ := Progress.finished.inj hp
      rw [h]
      rcases ih n (by omega) hnext t₀ g₁ with h' | ⟨w, a', t'', g', hrun, hw, ha', hlim⟩
      · exact Or.inl h'
      · exact Or.inr ⟨w, a', t'', g', hrun, hw, by omega, hlim⟩

/-- **A job's call on a gateway that answers waits for nothing but time**,
whatever the gateway keeps: advanced, it ends, or it pauses until a later time
before a later attempt. -/
theorem advance_jobCall_ends {c : Call} (hc : JobCall j policy c) (g : σ) :
    (∃ r t g', c.advance gw conn policy now g = (.finished r t, g')) ∨
    (∃ w c' g', c.advance gw conn policy now g = (.waiting (some w) c', g') ∧
      now < w ∧ JobCall j policy c' ∧ c.attempt < c'.attempt) := by
  obtain ⟨hlim, t, hshape⟩ := hc
  have hstart : c.advance gw conn policy now g =
      Call.attemptFrom gw conn policy now policy.limit c.attempt ⟨t, j.work, .opening⟩ g := by
    rcases hshape with h | h <;> rw [h] <;> rfl
  rw [hstart]
  rcases attemptFrom_ends hans conn now j policy policy.limit hlim t g with
    h | ⟨w, a', t', g', hrun, hw, ha', hlim'⟩
  · exact Or.inl h
  · exact Or.inr ⟨w, _, g', hrun, hw, ⟨hlim', t', Or.inr rfl⟩, ha'⟩

end Ending

end LotBridge
