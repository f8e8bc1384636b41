import LotBridge.Proofs.GatewayFrames

/-!
# Every queued job ends

On a gateway that answers every request, a controller's run of lanes ends
every job it was given, each lane its own jobs in their order
(`Controller.runLanes_ends_jobs`).

The fuel of the run is enough because of a measure, the lanes' weight
(`Lane.weight`): a call has at most as many attempts left as the policy
allows, and a queued job weighs more than a whole call. Every move of a lane
lowers its weight (`laneMove_weight`): a start puts a job from the queue under
way, a wake-up brings the call to a later attempt, an end takes the call off.
A visit moves a lane until it is settled, idle or waiting for a later time
(`pollLane_settles`), and a round visits every lane (`pollAll_settles`); the
clock then goes to the earliest time a lane waits for, where that lane is
ready to move. So every round after the first lowers the weight, there are no
more rounds than the weight of the jobs, and when no lane waits for a time,
every lane is idle (`runFrom_idle`).

## Main definitions

* `Lane.weight`, `lanesWeight`, `Lane.jobs`.
* `Lane.Calls`, `Lane.Idle`, `Lane.Ready`, `Lane.Settled`.
-/

namespace LotBridge

open Relation

namespace Lane

/-- The weight of a lane under a policy of `limit` attempts: the attempts its
call has left, plus one, and for each queued job two more than a call's
attempts. -/
def weight (limit : Nat) (lane : Lane) : Nat :=
  (match lane.current with
   | some (_, c, _) => limit - c.attempt + 1
   | none => 0) + lane.queue.length * (limit + 2)

/-- The jobs a lane was given: those ended, the one under way, those queued. -/
def jobs (lane : Lane) : List Job :=
  lane.results.map (·.1) ++ (lane.current.map (·.1)).toList ++ lane.queue

/-- A lane with nothing under way and nothing queued. -/
def Idle (lane : Lane) : Prop := lane.current = none ∧ lane.queue = []

/-- A lane that can move at time `k`: it has a job to start, or a call whose
time has come. -/
def Ready (k : Nat) (lane : Lane) : Prop :=
  (lane.current = none ∧ lane.queue ≠ []) ∨ ∃ x w, lane.current = some x ∧ x.2.2 = some w ∧ w ≤ k

/-- A lane with nothing to do at time `k`: idle, or waiting for a later time. -/
def Settled (k : Nat) (lane : Lane) : Prop :=
  lane.Idle ∨ ∃ x w, lane.current = some x ∧ x.2.2 = some w ∧ k < w

/-- A lane whose call under way, if any, is a call of its job that waits for
a time. -/
def Calls (policy : Retry.Policy) (lane : Lane) : Prop :=
  ∀ x ∈ lane.current, JobCall x.1 policy x.2.1 ∧ x.2.2.isSome

theorem not_ready_of_settled {k : Nat} {lane : Lane} (hs : lane.Settled k) : ¬ lane.Ready k := by
  rintro (⟨hcur, hq⟩ | ⟨x, w, hx, hw, hle⟩)
  · rcases hs with ⟨-, hq'⟩ | ⟨x, w, hx, -, -⟩
    · exact hq hq'
    · rw [hcur] at hx
      cases hx
  · rcases hs with ⟨hcur, -⟩ | ⟨x', w', hx', hw', hlt⟩
    · rw [hcur] at hx
      cases hx
    · rw [hx, Option.some.injEq] at hx'
      subst hx'
      rw [hw, Option.some.injEq] at hw'
      omega

/-- A settled lane that waits for no time is idle. -/
theorem idle_of_settled {k : Nat} {lane : Lane} (hs : lane.Settled k) (hw : lane.wake? = none) :
    lane.Idle := by
  rcases hs with hidle | ⟨x, w, hx, hxw, -⟩
  · exact hidle
  · simp [wake?, hx, hxw] at hw

/-- A lane that waits for time `w` is ready at `w`. -/
theorem ready_of_wake {lane : Lane} {w : Nat} (hw : lane.wake? = some w) : lane.Ready w := by
  cases hcur : lane.current with
  | none => simp [wake?, hcur] at hw
  | some x =>
    simp only [wake?, hcur, Option.bind_some] at hw
    exact Or.inr ⟨x, w, hcur, hw, Nat.le_refl w⟩

end Lane

/-- The weight of lanes, one after another. -/
def lanesWeight (limit : Nat) : List Lane → Nat
  | [] => 0
  | lane :: lanes => lane.weight limit + lanesWeight limit lanes

/-- Setting one lane changes the weight of the lanes by the change of its own. -/
theorem lanesWeight_set (limit : Nat) {lanes : List Lane} {i : Nat} {lane : Lane}
    (h : lanes[i]? = some lane) (lane' : Lane) :
    lanesWeight limit (lanes.set i lane') + lane.weight limit =
      lanesWeight limit lanes + lane'.weight limit := by
  induction lanes generalizing i with
  | nil => simp at h
  | cons l ls ih =>
    cases i with
    | zero =>
      simp only [List.getElem?_cons_zero, Option.some.injEq] at h
      subst h
      simp only [List.set_cons_zero, lanesWeight]
      omega
    | succ i =>
      simp only [List.getElem?_cons_succ] at h
      have hrest := ih h
      simp only [List.set_cons_succ, lanesWeight]
      omega

/-! ## The nearest wake-up -/

/-- The fold that `nextWake` makes, from any best time so far. -/
theorem nextWake_fold_some (lanes : List Lane) (best : Option Nat) {w : Nat}
    (h : lanes.foldl (fun best l =>
      match best, l.wake? with
      | some b, some w => some (min b w)
      | none, w => w
      | b, none => b) best = some w) :
    best = some w ∨ ∃ l ∈ lanes, l.wake? = some w := by
  induction lanes generalizing best with
  | nil => exact Or.inl h
  | cons l ls ih =>
    rw [List.foldl_cons] at h
    rcases ih _ h with hbest | ⟨l', hl', hw'⟩
    · cases best with
      | none =>
        exact Or.inr ⟨l, List.mem_cons_self, by simpa using hbest⟩
      | some b =>
        cases hl : l.wake? with
        | none =>
          rw [hl] at hbest
          exact Or.inl hbest
        | some v =>
          rw [hl] at hbest
          simp only [Option.some.injEq] at hbest
          rcases Nat.le_total b v with hbv | hvb
          · rw [Nat.min_eq_left hbv] at hbest
            exact Or.inl (by rw [hbest])
          · rw [Nat.min_eq_right hvb] at hbest
            exact Or.inr ⟨l, List.mem_cons_self, by rw [hl, hbest]⟩
    · exact Or.inr ⟨l', List.mem_cons_of_mem l hl', hw'⟩

theorem nextWake_fold_none (lanes : List Lane) (best : Option Nat)
    (h : lanes.foldl (fun best l =>
      match best, l.wake? with
      | some b, some w => some (min b w)
      | none, w => w
      | b, none => b) best = none) :
    best = none ∧ ∀ l ∈ lanes, l.wake? = none := by
  induction lanes generalizing best with
  | nil => exact ⟨h, by simp⟩
  | cons l ls ih =>
    rw [List.foldl_cons] at h
    obtain ⟨hbest, hrest⟩ := ih _ h
    refine ⟨?_, ?_⟩
    · cases best with
      | none => rfl
      | some b => cases hl : l.wake? <;> simp [hl] at hbest
    · intro l' hl'
      rcases List.mem_cons.1 hl' with rfl | hl'
      · cases best with
        | none => simpa using hbest
        | some b => cases hl : l'.wake? <;> simp [hl] at hbest ⊢
      · exact hrest l' hl'

/-- The earliest time lanes wait for is a time one of them waits for. -/
theorem nextWake_some {lanes : List Lane} {w : Nat} (h : Controller.nextWake lanes = some w) :
    ∃ l ∈ lanes, l.wake? = some w := by
  rcases nextWake_fold_some lanes none h with h | h
  · cases h
  · exact h

/-- Lanes with no earliest time wait for no time. -/
theorem nextWake_none {lanes : List Lane} (h : Controller.nextWake lanes = none) :
    ∀ l ∈ lanes, l.wake? = none :=
  (nextWake_fold_none lanes none h).2

/-- Every index of the lanes comes in a round. -/
theorem mem_round {n : Nat} (first : Nat) {i : Nat} (hi : i < n) :
    i ∈ (List.range n).map fun x => (x + first) % n := by
  have hn : 0 < n := by omega
  refine List.mem_map.2 ⟨(i + (n - first % n)) % n, List.mem_range.2 (Nat.mod_lt _ hn), ?_⟩
  have hr : first % n < n := Nat.mod_lt _ hn
  have hfirst := Nat.mod_add_div first n
  have hsum : i + (n - first % n) + first = i + n * (first / n + 1) := by
    rw [Nat.mul_succ]
    omega
  rw [Nat.mod_add_mod, hsum, Nat.add_mul_mod_self_left, Nat.mod_eq_of_lt hi]

/-- Fresh lanes for queues of jobs weigh a full job's weight for each job. -/
theorem lanesWeight_fresh (limit : Nat) (queues : List (List Job)) (a : Nat) :
    lanesWeight limit (queues.map fun q => ({ queue := q } : Lane)) + a * (limit + 2) =
      (queues.map List.length).foldl (· + ·) a * (limit + 2) := by
  induction queues generalizing a with
  | nil => simp [lanesWeight]
  | cons q qs ih =>
    have hrest := ih (a + q.length)
    simp only [List.map_cons, List.foldl_cons, lanesWeight, Lane.weight] at hrest ⊢
    rw [Nat.add_mul] at hrest
    omega

/-! ## Every move lowers the weight -/

section Moves

variable {σ : Type} {c : Controller σ} (hans : c.gateway.Answers)
include hans

/-- A move of a lane keeps its calls waiting for a time and its jobs, and
lowers its weight. -/
theorem laneMove_weight {lane lane' : Lane} {st st' : Controller.State σ}
    (h : c.LaneMove (lane, st) (lane', st')) (hcalls : lane.Calls c.policy) :
    lane'.Calls c.policy ∧ lane'.weight c.policy.limit < lane.weight c.policy.limit ∧
      lane'.jobs = lane.jobs := by
  cases h with
  | @start _ _ j rest hcur hq =>
    refine ⟨?_, ?_, ?_⟩
    · intro x hx
      rw [Option.mem_def, Option.some.injEq] at hx
      subst hx
      exact ⟨jobCall_start j c.policy, rfl⟩
    · have hstart : (Call.start j.work).attempt = 0 := rfl
      simp only [Lane.weight, hcur, hq, hstart, List.length_cons, Nat.sub_zero]
      rw [Nat.succ_mul]
      omega
    · simp [Lane.jobs, hcur, hq]
  | @wait _ _ j call call' w w' g hcur hw hadv =>
    have hjob : JobCall j c.policy call := (hcalls (j, call, some w) hcur).1
    rcases advance_jobCall_ends hans c.connection st.clock j c.policy hjob st.gate with
      ⟨r, t, g₁, hfin⟩ | ⟨w₁, c₁, g₁, hwait, -, hjob₁, hlater⟩
    · rw [hfin] at hadv
      cases hadv
    · rw [hwait] at hadv
      simp only [Prod.mk.injEq, Progress.waiting.injEq] at hadv
      obtain ⟨⟨rfl, rfl⟩, rfl⟩ := hadv
      refine ⟨?_, ?_, ?_⟩
      · intro x hx
        rw [Option.mem_def, Option.some.injEq] at hx
        subst hx
        exact ⟨hjob₁, rfl⟩
      · have hlim := hjob₁.1
        simp only [Lane.weight, hcur]
        omega
      · simp [Lane.jobs, hcur]
  | @finish _ _ j call w r t g hcur hw hadv =>
    refine ⟨?_, ?_, ?_⟩
    · intro x hx
      cases hx
    · simp only [Lane.weight, hcur]
      omega
    · simp [Lane.jobs, hcur]

/-- A move of the lanes keeps every lane's calls waiting for a time and their
jobs; the weight of the lanes never grows, and drops when a lane moved. -/
theorem lanesMove_weight {a b : List Lane × Controller.State σ} (h : c.LanesMove a b)
    (hcalls : ∀ l ∈ a.1, l.Calls c.policy) :
    (∀ l ∈ b.1, l.Calls c.policy) ∧ lanesWeight c.policy.limit b.1 ≤ lanesWeight c.policy.limit a.1 ∧
      (b.1 ≠ a.1 → lanesWeight c.policy.limit b.1 < lanesWeight c.policy.limit a.1) ∧
      b.1.map Lane.jobs = a.1.map Lane.jobs := by
  cases h with
  | @lane lanes st st' i lane lane' hi hmove =>
    dsimp only at hcalls ⊢
    have hlane := hcalls lane (List.mem_of_getElem? hi)
    obtain ⟨hcalls', hlt, hjobs⟩ := laneMove_weight hans hmove hlane
    have hset := lanesWeight_set c.policy.limit hi lane'
    refine ⟨?_, by omega, fun _ => by omega, ?_⟩
    · intro l hl
      rcases List.mem_or_eq_of_mem_set hl with hl | rfl
      · exact hcalls l hl
      · exact hcalls'
    · -- the moved lane keeps its jobs, so setting it back changes no lane's jobs
      obtain ⟨hlen, hget⟩ := List.getElem?_eq_some_iff.1 hi
      rw [List.map_set, hjobs, ← List.map_set, ← hget, List.set_getElem_self]
  | clock hw => exact ⟨hcalls, Nat.le_refl _, fun h => absurd rfl h, rfl⟩

/-- Along a run of the lanes, the calls keep waiting for a time and the lanes
their jobs; the weight never grows, and has dropped if the lanes changed. -/
theorem lanesMoves_weight {a b : List Lane × Controller.State σ}
    (h : ReflTransGen c.LanesMove a b) (hcalls : ∀ l ∈ a.1, l.Calls c.policy) :
    (∀ l ∈ b.1, l.Calls c.policy) ∧ lanesWeight c.policy.limit b.1 ≤ lanesWeight c.policy.limit a.1 ∧
      (b.1 ≠ a.1 → lanesWeight c.policy.limit b.1 < lanesWeight c.policy.limit a.1) ∧
      b.1.map Lane.jobs = a.1.map Lane.jobs := by
  induction h with
  | refl => exact ⟨hcalls, Nat.le_refl _, fun h => absurd rfl h, rfl⟩
  | @tail m b _ hmove ih =>
    obtain ⟨hcalls_m, hle_m, hlt_m, hjobs_m⟩ := ih
    obtain ⟨hcalls_b, hle_b, hlt_b, hjobs_b⟩ := lanesMove_weight hans hmove hcalls_m
    refine ⟨hcalls_b, by omega, fun hne => ?_, by rw [hjobs_b, hjobs_m]⟩
    -- the lanes changed in the last move or before it
    by_cases hbm : b.1 = m.1
    · rw [hbm] at hne ⊢
      exact hlt_m hne
    · have := hlt_b hbm
      omega

/-! ## A round settles every lane -/

/-- A visit with enough fuel moves a lane until it is settled, keeping its
call waiting for a time, and leaves the clock alone. The fuel is one for each
start and end of a job. -/
theorem pollLane_settles (fuel : Nat) (lane : Lane) (st : Controller.State σ)
    (hcalls : lane.Calls c.policy)
    (hfuel : 2 * lane.queue.length + (if lane.current = none then 0 else 1) ≤ fuel) :
    (c.pollLane fuel lane st).1.Settled st.clock ∧ (c.pollLane fuel lane st).1.Calls c.policy ∧
      (c.pollLane fuel lane st).2.clock = st.clock := by
  induction fuel generalizing lane st with
  | zero =>
    cases hcur : lane.current with
    | none =>
      simp only [hcur, if_true] at hfuel
      have hq : lane.queue = [] := List.eq_nil_of_length_eq_zero (by omega)
      exact ⟨Or.inl ⟨hcur, hq⟩, hcalls, rfl⟩
    | some x => simp [hcur] at hfuel
  | succ fuel ih =>
    cases hcur : lane.current with
    | none =>
      cases hq : lane.queue with
      | nil =>
        simp only [Controller.pollLane, hcur, hq]
        exact ⟨Or.inl ⟨hcur, hq⟩, hcalls, trivial⟩
      | cons j rest =>
        simp only [Controller.pollLane, hcur, hq]
        -- the next job starts at once, and its call has its time come
        refine ih _ st ?_ ?_
        · intro x hx
          rw [Option.mem_def, Option.some.injEq] at hx
          subst hx
          exact ⟨jobCall_start j c.policy, rfl⟩
        · simp only [hcur, hq, List.length_cons, if_true] at hfuel
          simp only [reduceCtorEq, if_false]
          omega
    | some x =>
      obtain ⟨j, call, w⟩ := x
      cases w with
      | none => exact absurd (hcalls _ hcur).2 (by simp)
      | some w =>
        have hjob : JobCall j c.policy call := (hcalls _ hcur).1
        by_cases hw : w ≤ st.clock
        · rcases advance_jobCall_ends hans c.connection st.clock j c.policy hjob st.gate with
            ⟨r, t, g, hadv⟩ | ⟨w₁, c₁, g, hadv, hlt, hjob₁, -⟩
          · -- the call ends and the lane goes on with what is queued
            simp only [Controller.pollLane, hcur, if_pos hw, hadv]
            have hnext := ih { lane with current := none, results := lane.results ++ [(j, r)] }
              (Controller.settle r t { st with gate := g }) (fun x hx => by cases hx)
              (by simp only [hcur, reduceCtorEq, if_false] at hfuel; simp only [if_true]; omega)
            rw [Controller.settle_clock] at hnext
            exact hnext
          · simp only [Controller.pollLane, hcur, if_pos hw, hadv]
            refine ⟨Or.inr ⟨_, w₁, rfl, rfl, hlt⟩, ?_, trivial⟩
            intro x hx
            rw [Option.mem_def, Option.some.injEq] at hx
            subst hx
            exact ⟨hjob₁, rfl⟩
        · simp only [Controller.pollLane, hcur, if_neg hw]
          exact ⟨Or.inr ⟨_, w, hcur, rfl, by omega⟩, hcalls, trivial⟩

/-- Visits in any order leave every visited lane settled, keep every call
waiting for a time, and leave the clock and the number of lanes alone. -/
theorem visits_settle (order : List Nat) (k n : Nat) (S : List Nat) (acc : List Lane × Controller.State σ)
    (hk : acc.2.clock = k) (hn : acc.1.length = n) (hcalls : ∀ l ∈ acc.1, l.Calls c.policy)
    (hset : ∀ i l, acc.1[i]? = some l → i ∈ S → l.Settled k) :
    (order.foldl c.visit acc).2.clock = k ∧ (order.foldl c.visit acc).1.length = n ∧
      (∀ l ∈ (order.foldl c.visit acc).1, l.Calls c.policy) ∧
      ∀ i l, (order.foldl c.visit acc).1[i]? = some l → i ∈ S ∨ i ∈ order → l.Settled k := by
  induction order generalizing S acc with
  | nil =>
    refine ⟨hk, hn, hcalls, fun i l hl hi => hset i l hl ?_⟩
    simpa using hi
  | cons i order ih =>
    rw [List.foldl_cons]
    -- after the visit, index `i` counts among the settled ones
    suffices h : (c.visit acc i).2.clock = k ∧ (c.visit acc i).1.length = n ∧
        (∀ l ∈ (c.visit acc i).1, l.Calls c.policy) ∧
        ∀ i' l, (c.visit acc i).1[i']? = some l → i' ∈ i :: S → l.Settled k by
      obtain ⟨hk', hn', hcalls', hset'⟩ := h
      obtain ⟨h1, h2, h3, h4⟩ := ih (i :: S) (c.visit acc i) hk' hn' hcalls' hset'
      refine ⟨h1, h2, h3, fun i' l hl hmem => h4 i' l hl ?_⟩
      rcases hmem with hmem | hmem
      · exact Or.inl (List.mem_cons_of_mem i hmem)
      · rcases List.mem_cons.1 hmem with rfl | hmem
        · exact Or.inl List.mem_cons_self
        · exact Or.inr hmem
    unfold Controller.visit
    cases hi : acc.1[i]? with
    | none =>
      refine ⟨hk, hn, hcalls, fun i' l hl hmem => ?_⟩
      rcases List.mem_cons.1 hmem with rfl | hmem
      · rw [hi] at hl
        cases hl
      · exact hset i' l hl hmem
    | some lane =>
      have hlane := hcalls lane (List.mem_of_getElem? hi)
      obtain ⟨hsettled, hcalls_lane, hclock⟩ := pollLane_settles hans lane.visits lane acc.2 hlane
        (by unfold Lane.visits; split <;> omega)
      refine ⟨by rw [hclock, hk], by simp [hn], ?_, ?_⟩
      · intro l hl
        rcases List.mem_or_eq_of_mem_set hl with hl | rfl
        · exact hcalls l hl
        · exact hcalls_lane
      · intro i' l hl hmem
        by_cases hii : i' = i
        · subst hii
          have hlen : i' < acc.1.length := (List.getElem?_eq_some_iff.1 hi).1
          rw [List.getElem?_set_self hlen, Option.some.injEq] at hl
          rw [← hl, ← hk]
          exact hsettled
        · rw [List.getElem?_set_ne (Ne.symm hii)] at hl
          exact hset i' l hl (by simpa [hii] using hmem)

/-- A round leaves every lane settled at the current time. -/
theorem pollAll_settles (first : Nat) (lanes : List Lane) (st : Controller.State σ)
    (hcalls : ∀ l ∈ lanes, l.Calls c.policy) :
    (∀ l ∈ (c.pollAll first lanes st).1, l.Settled st.clock) ∧
      (c.pollAll first lanes st).2.clock = st.clock := by
  rw [Controller.pollAll_eq]
  obtain ⟨hclock, hlen, -, hset⟩ := visits_settle hans _ st.clock lanes.length [] (lanes, st)
    rfl rfl hcalls (fun _ _ _ h => by cases h)
  refine ⟨fun l hl => ?_, hclock⟩
  obtain ⟨i, hi⟩ := List.mem_iff_getElem?.1 hl
  have hlt : i < lanes.length := by
    rw [← hlen]
    exact (List.getElem?_eq_some_iff.1 hi).1
  exact hset i l hi (Or.inr (mem_round first hlt))

/-! ## Runs end with every lane idle -/

/-- A round from lanes one of which is ready settles them all and lowers
their weight. -/
theorem round_lowers (round : Nat) (lanes : List Lane) (st : Controller.State σ)
    (hcalls : ∀ l ∈ lanes, l.Calls c.policy) (hready : ∃ l ∈ lanes, l.Ready st.clock) :
    (∀ l ∈ (c.pollAll round lanes st).1, l.Settled st.clock) ∧
      (∀ l ∈ (c.pollAll round lanes st).1, l.Calls c.policy) ∧
      lanesWeight c.policy.limit (c.pollAll round lanes st).1 < lanesWeight c.policy.limit lanes := by
  obtain ⟨hsettled, -⟩ := pollAll_settles hans round lanes st hcalls
  obtain ⟨hcalls', -, hdrop, -⟩ := lanesMoves_weight hans (c.pollAll_moves round lanes st) hcalls
  refine ⟨hsettled, hcalls', hdrop ?_⟩
  -- the ready lane is settled after the round, so the lanes changed
  intro hsame
  obtain ⟨l, hl, hr⟩ := hready
  exact Lane.not_ready_of_settled (hsettled l (by rw [hsame]; exact hl)) hr

/-- Lanes with calls waiting for a time, one of them ready, run until every
lane is idle, within one round more than their weight. -/
theorem runFrom_idle (n round : Nat) (lanes : List Lane) (st : Controller.State σ)
    (hcalls : ∀ l ∈ lanes, l.Calls c.policy) (hready : ∃ l ∈ lanes, l.Ready st.clock)
    (hweight : lanesWeight c.policy.limit lanes ≤ n) :
    ∀ l ∈ (c.runFrom (n + 1) round lanes st).1, l.Idle := by
  induction n using Nat.strongRecOn generalizing round lanes st with
  | ind n ih =>
    obtain ⟨hsettled, hcalls₁, hdrop⟩ := round_lowers hans round lanes st hcalls hready
    rw [Controller.runFrom]
    generalize c.pollAll round lanes st = p at hsettled hcalls₁ hdrop
    obtain ⟨lanes₁, st₁⟩ := p
    simp only at hsettled hcalls₁ hdrop ⊢
    cases hw : Controller.nextWake lanes₁ with
    | none =>
      -- no lane waits for a time: every settled lane is idle
      intro l hl
      exact Lane.idle_of_settled (hsettled l hl) (nextWake_none hw l hl)
    | some w =>
      -- the clock goes to the earliest wake-up, where that lane is ready
      obtain ⟨l, hl, hlw⟩ := nextWake_some hw
      cases n with
      | zero => omega
      | succ m =>
        exact ih m (by omega) (round + 1) lanes₁ _ hcalls₁ ⟨l, hl, Lane.ready_of_wake hlw⟩
          (by omega)

/-- **Every queued job ends.** On a gateway that answers every request, a
run of queues of jobs gives each queue's results, one for each of its jobs,
in their order. -/
theorem Controller.runLanes_ends_jobs (queues : List (List Job)) (st : Controller.State σ) :
    (c.runLanes queues st).1.map (fun rs => rs.map (·.1)) = queues := by
  let lanes₀ : List Lane := queues.map fun q => { queue := q }
  let n := ((queues.map List.length).foldl (· + ·) 0 + 1) * (2 * c.policy.limit + 2)
  have hcalls₀ : ∀ l ∈ lanes₀, l.Calls c.policy := by
    intro l hl x hx
    obtain ⟨q, -, rfl⟩ := List.mem_map.1 hl
    cases hx
  have hfresh : ∀ q : List Job, Lane.jobs { queue := q } = q := fun q => by simp [Lane.jobs]
  have hjobs₀ : lanes₀.map Lane.jobs = queues := by simp [lanes₀, Function.comp_def, hfresh]
  have hres : (c.runLanes queues st).1 = (c.runFrom (n + 1) 0 lanes₀ st).1.map (·.results) := rfl
  obtain ⟨-, -, -, hjobs⟩ := lanesMoves_weight hans (c.runFrom_moves (n + 1) 0 lanes₀ st) hcalls₀
  -- every lane ends with the results of all its jobs
  have hdone : ∀ l ∈ (c.runFrom (n + 1) 0 lanes₀ st).1, l.results.map (·.1) = l.jobs := by
    by_cases hready : ∃ l ∈ lanes₀, l.Ready st.clock
    · have hweight : lanesWeight c.policy.limit lanes₀ ≤ n := by
        have hfresh := lanesWeight_fresh c.policy.limit queues 0
        rw [Nat.zero_mul, Nat.add_zero] at hfresh
        rw [hfresh]
        exact Nat.mul_le_mul (Nat.le_succ _) (by omega)
      intro l hl
      obtain ⟨hcur, hq⟩ := runFrom_idle hans n 0 lanes₀ st hcalls₀ hready hweight l hl
      simp [Lane.jobs, hcur, hq]
    · -- no lane can start: every queue is empty, and so is every lane's work
      intro l hl
      have hmem : l.jobs ∈ queues := by
        rw [← hjobs₀, ← hjobs]
        exact List.mem_map_of_mem hl
      have hempty : l.jobs = [] := by
        cases hj : l.jobs with
        | nil => rfl
        | cons x xs =>
          refine absurd ⟨{ queue := l.jobs }, List.mem_map_of_mem hmem, Or.inl ⟨rfl, ?_⟩⟩ hready
          rw [hj]
          exact List.cons_ne_nil x xs
      have hended : l.results.map (·.1) = [] := by
        have hparts := hempty
        simp only [Lane.jobs, List.append_eq_nil_iff] at hparts
        exact hparts.1.1
      rw [hended, hempty]
  rw [hres, List.map_map]
  calc (c.runFrom (n + 1) 0 lanes₀ st).1.map ((fun rs => rs.map (·.1)) ∘ (·.results))
      = (c.runFrom (n + 1) 0 lanes₀ st).1.map Lane.jobs := List.map_congr_left hdone
    _ = lanes₀.map Lane.jobs := hjobs
    _ = queues := hjobs₀

end Moves

end LotBridge
