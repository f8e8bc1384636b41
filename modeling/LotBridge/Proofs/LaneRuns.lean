import Mathlib.Logic.Relation
import LotBridge.Controller

/-!
# Lanes, one move at a time

A controller works its lanes off in rounds: at each time a lane waits for, it
visits every lane, and a visited lane moves on as far as it can at that time;
then the clock goes to the next time a lane waits for. The fuel of these loops
only bounds how long they go on, so everything they do is a sequence of single
moves: a lane starting its next job, a lane's job going on until it waits
again, a lane's job ending and being recorded, or the clock going to the time
a lane waits for.

`Controller.runFrom_moves` says that every run of lanes is such a sequence, so
a property of lanes that each move keeps holds after every run
(`Controller.runLanes_moves`). The results about calls and lanes are proved
that way, each with its own invariant.

## Main definitions

* `Controller.LaneMove`: one move of one lane.
* `Controller.LanesMove`: a move of one of the lanes, or of the clock.
-/

namespace LotBridge

namespace Controller

variable {σ : Type} (c : Controller σ)

/-- One move of a lane at the current time: a lane with nothing under way
starts its next job; a job whose time has come goes on until it waits again,
or ends and is recorded. -/
inductive LaneMove : Lane × State σ → Lane × State σ → Prop
  | start {lane : Lane} {st : State σ} {j : Job} {rest : List Job} :
      lane.current = none → lane.queue = j :: rest →
      LaneMove (lane, st)
        ({ lane with queue := rest, current := some (j, Call.start j.work, some st.clock) }, st)
  | wait {lane : Lane} {st : State σ} {j : Job} {call call' : Call} {w : Nat} {w' : Option Nat}
      {g : σ} :
      lane.current = some (j, call, some w) → w ≤ st.clock →
      call.advance c.gateway c.connection c.policy st.clock st.gate = (.waiting w' call', g) →
      LaneMove (lane, st) ({ lane with current := some (j, call', w') }, { st with gate := g })
  | finish {lane : Lane} {st : State σ} {j : Job} {call : Call} {w : Nat}
      {r : Except Failure (List Yield)} {t : Tracker} {g : σ} :
      lane.current = some (j, call, some w) → w ≤ st.clock →
      call.advance c.gateway c.connection c.policy st.clock st.gate = (.finished r t, g) →
      LaneMove (lane, st) ({ lane with current := none, results := lane.results ++ [(j, r)] },
        settle r t { st with gate := g })

/-- A move of the lanes: one lane moves, or the clock goes to the earliest
time a lane waits for. -/
inductive LanesMove : List Lane × State σ → List Lane × State σ → Prop
  | lane {lanes : List Lane} {st st' : State σ} {i : Nat} {lane lane' : Lane} :
      lanes[i]? = some lane → c.LaneMove (lane, st) (lane', st') →
      LanesMove (lanes, st) (lanes.set i lane', st')
  | clock {lanes : List Lane} {st : State σ} {w : Nat} :
      nextWake lanes = some w → LanesMove (lanes, st) (lanes, { st with clock := w })

@[simp] theorem settle_clock (r : Except Failure (List Yield)) (t : Tracker) (st : State σ) :
    (settle r t st).clock = st.clock := by
  cases r <;> rfl

@[simp] theorem settle_gate (r : Except Failure (List Yield)) (t : Tracker) (st : State σ) :
    (settle r t st).gate = st.gate := by
  cases r <;> rfl

/-- A single lane waits for what its job under way waits for. -/
theorem nextWake_single (lane : Lane) : nextWake [lane] = lane.wake? := by
  unfold nextWake
  cases h : lane.wake? <;> simp [h]

open Relation

/-- A visit to a lane is a sequence of its moves. -/
theorem pollLane_moves (fuel : Nat) (lane : Lane) (st : State σ) :
    ReflTransGen c.LaneMove (lane, st) (c.pollLane fuel lane st) := by
  induction fuel generalizing lane st with
  | zero => exact .refl
  | succ fuel ih =>
    cases hcur : lane.current with
    | none =>
      cases hq : lane.queue with
      | nil => simp only [pollLane, hcur, hq]; exact .refl
      | cons j rest =>
        simp only [pollLane, hcur, hq]
        exact .head (.start hcur hq) (ih _ _)
    | some job =>
      obtain ⟨j, call, w⟩ := job
      cases w with
      | none => simp only [pollLane, hcur]; exact .refl
      | some w =>
        simp only [pollLane, hcur]
        by_cases hw : w ≤ st.clock
        · rw [if_pos hw]
          cases hadv : call.advance c.gateway c.connection c.policy st.clock st.gate with
          | mk progress g =>
            cases progress with
            | waiting w' call' => exact .single (.wait hcur hw hadv)
            | finished r t => exact .head (.finish hcur hw hadv) (ih _ _)
        · rw [if_neg hw]

/-- Moves of one lane are moves of the lanes it stands among. -/
theorem laneMoves_lift {lanes : List Lane} {i : Nat} {lane : Lane} (hi : lanes[i]? = some lane)
    {st : State σ} {p : Lane × State σ} (h : ReflTransGen c.LaneMove (lane, st) p) :
    ReflTransGen c.LanesMove (lanes, st) (lanes.set i p.1, p.2) := by
  have hlen : i < lanes.length := (List.getElem?_eq_some_iff.1 hi).1
  induction h with
  | refl =>
    obtain ⟨_, hget⟩ := List.getElem?_eq_some_iff.1 hi
    rw [← hget, List.set_getElem_self]
  | tail _ step ih =>
    refine .tail ih ?_
    have hset := LanesMove.lane (c := c) (List.getElem?_set_self (a := _) (by simpa using hlen)) step
    rwa [List.set_set] at hset

/-- One visit of a round: the lane at index `i`, if there is one, moves on as
far as it can at the current time. -/
def visit (acc : List Lane × State σ) (i : Nat) : List Lane × State σ :=
  match acc.1[i]? with
  | some lane =>
    let (lane, st) := c.pollLane lane.visits lane acc.2
    (acc.1.set i lane, st)
  | none => acc

/-- A round visits the lanes one by one, lane `first` first. -/
theorem pollAll_eq (first : Nat) (lanes : List Lane) (st : State σ) :
    c.pollAll first lanes st =
      ((List.range lanes.length).map fun i => (i + first) % lanes.length).foldl c.visit (lanes, st) :=
  rfl

/-- Visits to lanes in any order are a sequence of moves of the lanes. -/
theorem visits_moves (order : List Nat) (acc : List Lane × State σ) :
    ReflTransGen c.LanesMove acc (order.foldl c.visit acc) := by
  induction order generalizing acc with
  | nil => exact .refl
  | cons i order ih =>
    rw [List.foldl_cons]
    refine .trans ?_ (ih _)
    unfold visit
    cases hi : acc.1[i]? with
    | none => exact .refl
    | some lane => exact laneMoves_lift c hi (pollLane_moves c lane.visits lane acc.2)

/-- A round of visits is a sequence of moves of the lanes. -/
theorem pollAll_moves (first : Nat) (lanes : List Lane) (st : State σ) :
    ReflTransGen c.LanesMove (lanes, st) (c.pollAll first lanes st) := by
  rw [pollAll_eq]
  exact visits_moves c _ (lanes, st)

/-- Every run of lanes is a sequence of moves of the lanes. -/
theorem runFrom_moves (fuel round : Nat) (lanes : List Lane) (st : State σ) :
    ReflTransGen c.LanesMove (lanes, st) (c.runFrom fuel round lanes st) := by
  induction fuel generalizing round lanes st with
  | zero => exact .refl
  | succ fuel ih =>
    rw [runFrom]
    have hpoll := pollAll_moves c round lanes st
    simp only
    cases hw : nextWake (c.pollAll round lanes st).1 with
    | none => exact hpoll
    | some w => exact hpoll.trans (.head (.clock hw) (ih _ _ _))

/-- A run of queues of jobs is a sequence of moves of the lanes, from a lane
for each queue with nothing under way to lanes whose results it gives. -/
theorem runLanes_moves (queues : List (List Job)) (st : State σ) :
    ∃ lanes, ReflTransGen c.LanesMove (queues.map fun q => { queue := q }, st)
        (lanes, (c.runLanes queues st).2) ∧
      (c.runLanes queues st).1 = lanes.map (·.results) :=
  ⟨_, runFrom_moves c ((((queues.map List.length).foldl (· + ·) 0) + 1) * (2 * c.policy.limit + 2) + 1)
    0 (queues.map fun q => { queue := q }) st, rfl⟩

end Controller

end LotBridge
