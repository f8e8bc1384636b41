import LotBridge.Proofs.CallPhases
import LotBridge.Proofs.LaneRuns

/-!
# The status a controller call records

A controller performs a job as a lane of that one job: the lane starts the
job's call at once, the call goes on each time its wait is over, and when it
ends the controller records the result in its status. Seen as moves of the
lane (`Controller.LanesMove`), the job is at every moment in one of three
stages (`JobLane`): waiting to start; under way, its call having been advanced
at the times the lane woke up; or ended, the call run at those times having
ended and its end being recorded. Every move keeps that, so it holds when
`Controller.perform` returns (`perform_runAt`): the controller ran the call at
some times and recorded one step, the call's result and the phase its tracker
names once it gave up.

Together with `call_walks_phaseGraph`, on a logged gateway this says what a
call that returned has recorded: a success, or a failure in the phase where
its last attempt stopped, which the requests it made show: `connecting` when
that attempt asked for its connection and nothing more, `namespaceResolving`
when it went on to the namespaces and no further, and `ready` when it made its
read or write.

## Main definitions

* `JobLane`: the stages of a controller's single job.
-/

namespace LotBridge

open Relation

section OneJob

variable {σ : Type} (c : Controller σ) (j : Job) (s : Status) (g₀ : σ)

/-- The lanes of controller `c` performing job `j` from status `s` and
gateway state `g₀`: the job waits to start; or it is under way, its call
having been advanced at some times; or it ended so, and the status holds its
end recorded at the time it ended. -/
def JobLane : List Lane × Controller.State σ → Prop
  | (lanes, st) =>
    (lanes = [{ queue := [j] }] ∧ st.gate = g₀ ∧ st.status = s) ∨
    (∃ call w times, lanes = [{ queue := [], current := some (j, call, w) }] ∧
      Call.runAt c.gateway c.connection c.policy times (Call.start j.work) g₀ =
        (.waiting none call, st.gate) ∧ st.status = s) ∨
    (∃ r t times, lanes = [{ queue := [], results := [(j, r)] }] ∧
      Call.runAt c.gateway c.connection c.policy times (Call.start j.work) g₀ =
        (.finished r t, st.gate) ∧
      st.status =
        match r with
        | .ok _ => s.recordSuccess st.clock
        | .error e => s.recordFailure e (t.step .giveUp).2.failedIn st.clock)

/-- A move of the single job's lane keeps `JobLane`: a start begins the call
with no time yet, and a wake-up advances it at the current time. -/
theorem jobLane_laneMove {lane lane' : Lane} {st st' : Controller.State σ}
    (hmove : c.LaneMove (lane, st) (lane', st')) (h : JobLane c j s g₀ ([lane], st)) :
    JobLane c j s g₀ ([lane'], st') := by
  obtain ⟨gate, status, clock⟩ := st
  rcases h with ⟨hlane, rfl, rfl⟩ | ⟨call, w, times, hlane, hrun, rfl⟩ | ⟨r, t, times, hlane, -⟩ <;>
    obtain rfl := List.singleton_inj.1 hlane
  · -- waiting to start: the only move starts the call
    cases hmove with
    | start hcur hq =>
      obtain ⟨rfl, rfl⟩ := List.cons_eq_cons.1 hq
      exact Or.inr (Or.inl ⟨_, _, [], rfl, rfl, rfl⟩)
    | wait hcur => cases hcur
    | finish hcur => cases hcur
  · -- under way: the call is advanced at the current time, and waits again or ends
    have hnext := runAt_append c.gateway c.connection c.policy hrun clock
    cases hmove with
    | start hcur => cases hcur
    | wait hcur hw hadv =>
      cases hcur
      rw [hadv] at hnext
      exact Or.inr (Or.inl ⟨_, _, times ++ [clock], rfl, hnext, rfl⟩)
    | @finish _ _ _ _ _ r t _ hcur hw hadv =>
      cases hcur
      rw [hadv] at hnext
      refine Or.inr (Or.inr ⟨r, t, times ++ [clock], rfl, ?_, ?_⟩)
      · rw [Controller.settle_gate]
        exact hnext
      · cases r <;> rfl
  · -- ended: nothing is left to do
    cases hmove with
    | start hcur hq => cases hq
    | wait hcur => cases hcur
    | finish hcur => cases hcur

/-- A move of the lanes keeps `JobLane`: the single lane moves as
`jobLane_laneMove` says, and the clock moves only while the call waits. -/
theorem jobLane_lanesMove {a b : List Lane × Controller.State σ} (hmove : c.LanesMove a b)
    (h : JobLane c j s g₀ a) : JobLane c j s g₀ b := by
  cases hmove with
  | @lane lanes st st' i lane lane' hi hlane =>
    have hsingle : ∃ l, lanes = [l] := by
      rcases h with ⟨rfl, -⟩ | ⟨_, _, _, rfl, -⟩ | ⟨_, _, _, rfl, -⟩ <;> exact ⟨_, rfl⟩
    obtain ⟨l, rfl⟩ := hsingle
    cases i with
    | zero =>
      obtain rfl : l = lane := Option.some.inj hi
      exact jobLane_laneMove c j s g₀ hlane h
    | succ i => simp at hi
  | clock hw =>
    rcases h with ⟨rfl, -⟩ | ⟨call, w, times, rfl, hrun, hs⟩ | ⟨r, t, times, rfl, -⟩
    · rw [Controller.nextWake_single] at hw
      cases hw
    · exact Or.inr (Or.inl ⟨call, w, times, rfl, hrun, hs⟩)
    · rw [Controller.nextWake_single] at hw
      cases hw

/-- `JobLane` holds all along a run of the lanes. -/
theorem jobLane_reach {a b : List Lane × Controller.State σ} (h : ReflTransGen c.LanesMove a b)
    (ha : JobLane c j s g₀ a) : JobLane c j s g₀ b := by
  induction h with
  | refl => exact ha
  | tail _ hmove ih => exact jobLane_lanesMove c j s g₀ hmove ih

/-- A job a controller performed is its call run at some times, and the status
holds its end recorded at the time it ended. -/
theorem perform_runAt (clock : Nat) :
    match c.perform j ⟨g₀, s, clock⟩ with
    | (some r, st) => ∃ t times,
        Call.runAt c.gateway c.connection c.policy times (Call.start j.work) g₀ =
          (.finished r t, st.gate) ∧
        st.status =
          match r with
          | .ok _ => s.recordSuccess st.clock
          | .error e => s.recordFailure e (t.step .giveUp).2.failedIn st.clock
    | (none, _) => True := by
  obtain ⟨lanes, hrun, hres⟩ := c.runLanes_moves [[j]] ⟨g₀, s, clock⟩
  have hjob := jobLane_reach c j s g₀ hrun (Or.inl ⟨rfl, rfl, rfl⟩)
  unfold Controller.perform
  generalize c.runLanes [[j]] ⟨g₀, s, clock⟩ = out at hres hjob
  obtain ⟨res, st⟩ := out
  simp only at hres hjob
  subst hres
  -- only an ended job leaves a result in its lane
  rcases hjob with ⟨rfl, -⟩ | ⟨call, w, times, rfl, -⟩ | ⟨r, t, times, rfl, hrun, hstatus⟩
  · trivial
  · trivial
  · exact ⟨t, times, hrun, hstatus⟩

end OneJob

/-! ## Calls of a controller on a logged gateway -/

section Logged

variable {σ : Type} (gw : Gateway σ) (conn : Config.Connection) (policy : Retry.Policy) (j : Job)

/-- **A controller call walks the phase graph and records one accurate step.**
Whatever the gateway answers and whatever the policy, a call of a controller
that returned ran the job's call, whose tracker ignored no event, counted one
attempt for each connection asked for, and ends `succeeded` exactly when the
call succeeded and `failed` (after the final `giveUp`) exactly when it failed.
The requests made are the attempts one after another, each cut short by a
fault but the last, and the status holds that one call recorded on top of the
status before it: a success, or the failure in the phase the last attempt
stopped in. -/
theorem perform_walks_phaseGraph (g : σ) (s : Status) (clock : Nat) :
    match (⟨gw.logged, conn, policy⟩ : Controller _).perform j ⟨(g, []), s, clock⟩ with
    | (some r, st) => ∃ t times,
        Call.runAt gw.logged conn policy times (Call.start j.work) (g, []) =
          (.finished r t, st.gate) ∧
        t.ignored = 0 ∧ t.attempts = st.gate.2.count .connect ∧
        ∃ as p i, st.gate.2 = j.attemptsLog (as ++ [(p, i)]) ∧ t.attempts = as.length + 1 ∧
          t.attempts ≤ policy.limit ∧ (∀ x ∈ as, x.1.Working) ∧
          match r with
          | .ok _ => p = .succeeded ∧ t.phase = .succeeded ∧ st.status = s.recordSuccess st.clock
          | .error e => p.Working ∧ t.failedIn = some p ∧
              t.step .giveUp = (true, { t with phase := .failed }) ∧
              st.status = s.recordFailure e (some p) st.clock
    | (none, _) => True := by
  have hperf := perform_runAt ⟨gw.logged, conn, policy⟩ j s (g, []) clock
  generalize (⟨gw.logged, conn, policy⟩ : Controller _).perform j ⟨(g, []), s, clock⟩ = out at hperf ⊢
  obtain ⟨_ | r, ⟨⟨g', log⟩, status, clock'⟩⟩ := out
  · trivial
  obtain ⟨t, times, hrun, hstatus⟩ := hperf
  -- the call the controller ran is a run of the call at some times, which walks the phase graph
  have hcall := call_walks_phaseGraph gw conn policy j times g
  rw [hrun] at hcall
  obtain ⟨hignored, hcount, as, p, i, hlog, hattempts, hlimit, hworking, hend⟩ := hcall
  refine ⟨t, times, hrun, hignored, hcount, as, p, i, hlog, hattempts, hlimit, hworking, ?_⟩
  cases r with
  | ok ys =>
    obtain ⟨hp, hphase⟩ := hend
    exact ⟨hp, hphase, hstatus⟩
  | error e =>
    obtain ⟨hp, hfailed, hgive⟩ := hend
    refine ⟨hp, hfailed, hgive, ?_⟩
    change status = s.recordFailure e (t.step .giveUp).2.failedIn clock' at hstatus
    rw [hstatus, hgive, hfailed]

end Logged

end LotBridge
