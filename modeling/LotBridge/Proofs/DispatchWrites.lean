import LotBridge.Proofs.LaneLiveness
import LotBridge.Dispatcher

/-!
# Each line's writes, in the order they were queued

A dispatcher works off the queues of both lines as two lanes of one
controller, side by side on one gateway, so the gateway sees the requests of
the two lines interleaved. Each lane writes one register only, the PC register
of its line, and the registers of the lanes differ. So the writes the gateway
acknowledged to one register are those of one lane, in that lane's order: one
for each of its jobs that succeeded (`Controller.lanesMoves_writes`), whatever
the gateway answered and in whatever order the lanes moved.

With every job ending (`Controller.runLanes_ends_jobs`), a drain of the
dispatcher gives for each line one outcome per queued lot, in queue order; the
gateway has acknowledged to the line's PC register, after what it held before,
exactly the lots whose outcome is a success; and no other register is written
(`Dispatcher.drain_delivers`).

## Main definitions

* `writesTo`: the values written to one register, in order.
* `ackedOf`: the writes ended jobs left acknowledged.
* `KeyedJobs`, `LaneWrites`: lanes writing one register each, and their
  writes seen register by register.
-/

namespace LotBridge

open Relation

/-- The values written to register `k`, in order. -/
def writesTo (k : RegisterKey) (ws : List (RegisterKey × Int)) : List Int :=
  ws.filterMap fun w => if w.1 = k then some w.2 else none

@[simp] theorem writesTo_nil (k : RegisterKey) : writesTo k [] = [] := rfl

@[simp] theorem writesTo_append (k : RegisterKey) (ws ws' : List (RegisterKey × Int)) :
    writesTo k (ws ++ ws') = writesTo k ws ++ writesTo k ws' := by
  simp [writesTo, List.filterMap_append]

/-- Writes all to another register write nothing to `k`. -/
theorem writesTo_eq_nil {k k' : RegisterKey} {ws : List (RegisterKey × Int)}
    (hws : ∀ w ∈ ws, w.1 = k') (hne : k' ≠ k) : writesTo k ws = [] := by
  rw [writesTo, List.filterMap_eq_nil_iff]
  intro w hw
  rw [hws w hw, if_neg hne]

/-- The writes that jobs which ended with these results left acknowledged,
in order. -/
def ackedOf (rs : List (Job × Except Failure (List Yield))) : List (RegisterKey × Int) :=
  rs.flatMap fun x => x.1.ackedBy x.2

@[simp] theorem ackedOf_nil : ackedOf [] = [] := rfl

@[simp] theorem ackedOf_append (rs rs' : List (Job × Except Failure (List Yield))) :
    ackedOf (rs ++ rs') = ackedOf rs ++ ackedOf rs' := by
  simp [ackedOf]

/-- A job leaves acknowledged only writes of its own register. -/
theorem Job.key_of_mem_ackedBy {j : Job} {r : Except Failure (List Yield)} {w : RegisterKey × Int}
    (hw : w ∈ j.ackedBy r) : w.1 = j.key := by
  obtain ⟨k, v⟩ := j
  cases r with
  | error e => cases hw
  | ok ys =>
    cases v with
    | none => cases hw
    | some v =>
      rw [Job.ackedBy, Job.acked, List.mem_singleton] at hw
      rw [hw]

/-- Queues of jobs, one for each register of `keys`, each job writing the
register of its queue. -/
def KeyedJobs (keys : List RegisterKey) (queues : List (List Job)) : Prop :=
  queues.length = keys.length ∧
    ∀ (i : Nat) (q : List Job) (k : RegisterKey), queues[i]? = some q → keys[i]? = some k →
      ∀ j ∈ q, j.key = k

/-- The writes a gateway acknowledged, `acks`, seen register by register,
against those it had acknowledged before, `a₀`: the register of lane `i` has
had, since then, exactly the writes the ended jobs of lane `i` left, and a
register of no lane has had none. -/
def LaneWrites (keys : List RegisterKey) (a₀ acks : List (RegisterKey × Int)) (lanes : List Lane) :
    Prop :=
  (∀ (i : Nat) (lane : Lane) (k : RegisterKey), lanes[i]? = some lane → keys[i]? = some k →
    writesTo k acks = writesTo k a₀ ++ writesTo k (ackedOf lane.results)) ∧
  ∀ k, k ∉ keys → writesTo k acks = writesTo k a₀

/-- Lanes that have ended no job yet satisfy `LaneWrites` against the
gateway as it is. -/
theorem laneWrites_fresh (keys : List RegisterKey) (acks : List (RegisterKey × Int))
    (queues : List (List Job)) :
    LaneWrites keys acks acks (queues.map fun q => { queue := q }) := by
  refine ⟨fun i lane k hi _ => ?_, fun k _ => rfl⟩
  obtain ⟨q, -, rfl⟩ : ∃ q, queues[i]? = some q ∧ { queue := q } = lane := by
    simpa using hi
  simp

section Moves

variable {σ : Type} {c : Controller σ} (hans : c.gateway.Answers) (log : c.gateway.AckLog)
include hans

/-- A move of a lane leaves acknowledged the writes its ended job left, and
nothing else: a start and a wake-up that waits again none, an end the job's
write if it succeeded. -/
theorem laneMove_acked {lane lane' : Lane} {st st' : Controller.State σ}
    (h : c.LaneMove (lane, st) (lane', st')) (hcalls : lane.Calls c.policy) :
    ∃ ws, log.acks st'.gate = log.acks st.gate ++ ws ∧
      ackedOf lane'.results = ackedOf lane.results ++ ws ∧ ∀ w ∈ ws, ∃ j ∈ lane.jobs, w.1 = j.key := by
  cases h with
  | start hcur hq => exact ⟨[], by simp, by simp, by simp⟩
  | @wait _ _ j call call' w w' g hcur hw hadv =>
    have hjob : JobCall j c.policy call := (hcalls (j, call, some w) hcur).1
    rcases advance_jobCall hans log c.connection st.clock j c.policy hjob st.gate with
      ⟨r, t, g₁, hfin, -⟩ | ⟨w₁, c₁, g₁, hwait, -, -, -, hacks⟩
    · rw [hfin] at hadv
      cases hadv
    · rw [hwait] at hadv
      simp only [Prod.mk.injEq, Progress.waiting.injEq] at hadv
      obtain ⟨-, rfl⟩ := hadv
      exact ⟨[], by simpa using hacks, by simp, by simp⟩
  | @finish _ _ j call w r t g hcur hw hadv =>
    have hjob : JobCall j c.policy call := (hcalls (j, call, some w) hcur).1
    rcases advance_jobCall hans log c.connection st.clock j c.policy hjob st.gate with
      ⟨r₁, t₁, g₁, hfin, hacks⟩ | ⟨w₁, c₁, g₁, hwait, -⟩
    · rw [hfin] at hadv
      simp only [Prod.mk.injEq, Progress.finished.injEq] at hadv
      obtain ⟨⟨rfl, rfl⟩, rfl⟩ := hadv
      refine ⟨j.ackedBy r₁, by simpa using hacks, by simp [ackedOf], fun x hx => ⟨j, ?_, ?_⟩⟩
      · simp [Lane.jobs, hcur]
      · exact Job.key_of_mem_ackedBy hx
    · rw [hwait] at hadv
      cases hadv

/-- A move of keyed lanes keeps `LaneWrites`: the moved lane's new writes are
all to its own register, which no other lane writes. -/
theorem lanesMove_writes {keys : List RegisterKey} (hkeys : keys.Nodup) {a₀ : List (RegisterKey × Int)}
    {a b : List Lane × Controller.State σ} (h : c.LanesMove a b) (hcalls : ∀ l ∈ a.1, l.Calls c.policy)
    (hkeyed : KeyedJobs keys (a.1.map Lane.jobs)) (hw : LaneWrites keys a₀ (log.acks a.2.gate) a.1) :
    LaneWrites keys a₀ (log.acks b.2.gate) b.1 := by
  cases h with
  | @lane lanes st st' i lane lane' hi hmove =>
    obtain ⟨ws, hacks, hacked, hkeys_ws⟩ := laneMove_acked hans log hmove (hcalls lane (List.mem_of_getElem? hi))
    obtain ⟨hlanes, hother⟩ := hw
    have hlen : i < keys.length := by
      rw [← hkeyed.1, List.length_map]
      exact (List.getElem?_eq_some_iff.1 hi).1
    have hki : keys[i]? = some keys[i] := List.getElem?_eq_getElem hlen
    -- every new write is to the moved lane's register
    have hws : ∀ w ∈ ws, w.1 = keys[i] := by
      intro w hw
      obtain ⟨j, hj, hkey⟩ := hkeys_ws w hw
      rw [hkey]
      exact hkeyed.2 i lane.jobs keys[i] (by simp [hi]) hki j hj
    refine ⟨fun i' l k hl hk => ?_, fun k hk => ?_⟩
    · rw [hacks, writesTo_append]
      by_cases hii : i' = i
      · -- the moved lane: its register gains the new writes after the old ones
        subst hii
        rw [List.getElem?_set_self (List.getElem?_eq_some_iff.1 hi).1, Option.some.injEq] at hl
        subst hl
        rw [hki, Option.some.injEq] at hk
        subst hk
        rw [hlanes i' lane keys[i'] hi hki, hacked, writesTo_append, List.append_assoc]
      · -- another lane: its register differs from the moved lane's
        rw [List.getElem?_set_ne (Ne.symm hii)] at hl
        have hne : keys[i] ≠ k := by
          intro heq
          rw [← heq, ← hki] at hk
          exact hii ((List.getElem?_inj (by omega) hkeys).1 hk.symm).symm
        rw [hlanes i' l k hl hk, writesTo_eq_nil hws hne, List.append_nil]
    · have hne : keys[i] ≠ k := fun heq => hk (heq ▸ List.getElem_mem hlen)
      rw [hacks, writesTo_append, hother k hk, writesTo_eq_nil hws hne, List.append_nil]
  | clock _ => exact hw

/-- Along a run of keyed lanes, `LaneWrites` holds throughout. -/
theorem lanesMoves_writes {keys : List RegisterKey} (hkeys : keys.Nodup) {a₀ : List (RegisterKey × Int)}
    {a b : List Lane × Controller.State σ} (h : ReflTransGen c.LanesMove a b)
    (hcalls : ∀ l ∈ a.1, l.Calls c.policy) (hkeyed : KeyedJobs keys (a.1.map Lane.jobs))
    (hw : LaneWrites keys a₀ (log.acks a.2.gate) a.1) :
    LaneWrites keys a₀ (log.acks b.2.gate) b.1 := by
  induction h with
  | refl => exact hw
  | @tail m b hrun hmove ih =>
    -- the calls keep waiting for a time and the lanes keep their jobs up to `m`
    obtain ⟨hcalls_m, -, -, hjobs_m⟩ := lanesMoves_weight hans hrun hcalls
    rw [← hjobs_m] at hkeyed
    exact lanesMove_writes hans log hkeys hmove hcalls_m hkeyed ih

/-- **Each register's writes are its lane's.** On a gateway that answers
every request, a run of queues each of whose jobs writes the register of its
queue leaves acknowledged, to the register of each queue and after what it
held before, the writes of that queue's jobs that succeeded, in their order;
a register of no queue gets no write. -/
theorem Controller.runLanes_writes {keys : List RegisterKey} (hkeys : keys.Nodup)
    {queues : List (List Job)} (hkeyed : KeyedJobs keys queues) (st : Controller.State σ) :
    LaneWrites keys (log.acks st.gate) (log.acks (c.runLanes queues st).2.gate)
      ((c.runLanes queues st).1.map fun rs => { queue := [], results := rs }) := by
  obtain ⟨lanes, hrun, hres⟩ := c.runLanes_moves queues st
  have hcalls₀ : ∀ l ∈ queues.map (fun q => ({ queue := q } : Lane)), l.Calls c.policy := by
    intro l hl x hx
    obtain ⟨q, -, rfl⟩ := List.mem_map.1 hl
    cases hx
  have hkeyed₀ : KeyedJobs keys ((queues.map fun q => ({ queue := q } : Lane)).map Lane.jobs) := by
    simpa [Function.comp_def, Lane.jobs] using hkeyed
  have hw := lanesMoves_writes hans log hkeys hrun hcalls₀ hkeyed₀ (laneWrites_fresh keys _ queues)
  obtain ⟨hlanes, hother⟩ := hw
  rw [hres]
  refine ⟨fun i l k hl hk => ?_, hother⟩
  -- a lane of results stands for the lane that ended them
  simp only [List.map_map, List.getElem?_map, Option.map_eq_some_iff, Function.comp_apply] at hl
  obtain ⟨lane, hi, rfl⟩ := hl
  exact hlanes i lane k hi hk

end Moves

/-! ## Draining a dispatcher -/

/-- The part of a pair of values, one for each line, that belongs to a line. -/
def Line.pick {α : Type} : Line → α × α → α
  | .one, p => p.1
  | .two, p => p.2

namespace Dispatcher

/-- The job of writing a lot to the PC register of a line. -/
def lotJob (l : Line) (lot : Nat) : Job := ⟨.activeLot l .pc, some (Int.ofNat lot)⟩

/-- The PC registers of both lines, line one first. -/
def pcKeys : List RegisterKey := Line.all.map fun l => .activeLot l .pc

theorem pcKeys_nodup : pcKeys.Nodup := by
  simp only [pcKeys, Line.all, List.map_cons, List.map_nil, List.nodup_cons, List.mem_singleton,
    List.not_mem_nil, not_false_eq_true, List.nodup_nil, and_true]
  intro h
  cases (RegisterKey.activeLot_injective h).1

/-- Outcomes of writes of lots to a line: one for each lot, in order, of that
line; and the values a gateway acknowledged for them are the lots whose
outcome is a success. -/
theorem outcomes_lotJobs (l : Line) {lots : List Nat} {rs : List (Job × Except Failure (List Yield))}
    (hrs : rs.map (·.1) = lots.map (lotJob l)) :
    (outcomes l rs).map (·.lotId) = lots ∧ (∀ o ∈ outcomes l rs, o.line = l) ∧
      writesTo (.activeLot l .pc) (ackedOf rs) =
        ((outcomes l rs).filter (·.error.isNone)).map fun o => (o.lotId : Int) := by
  induction rs generalizing lots with
  | nil =>
    obtain rfl : lots = [] := by simpa using hrs.symm
    simp [outcomes]
  | cons x rs ih =>
    obtain ⟨j, r⟩ := x
    obtain ⟨lot, lots, rfl⟩ : ∃ lot rest, lots = lot :: rest := by
      cases lots with
      | nil => simp at hrs
      | cons lot rest => exact ⟨lot, rest, rfl⟩
    simp only [List.map_cons, List.cons.injEq] at hrs
    obtain ⟨rfl, hrest⟩ := hrs
    obtain ⟨hids, hline, hwrites⟩ := ih hrest
    have hack : ackedOf ((lotJob l lot, r) :: rs) = (lotJob l lot).ackedBy r ++ ackedOf rs := rfl
    refine ⟨?_, ?_, ?_⟩
    · simpa [outcomes, lotJob] using hids
    · intro o ho
      simp only [outcomes, List.map_cons, List.mem_cons] at ho
      rcases ho with rfl | ho
      · rfl
      · exact hline o ho
    · -- the head write is acknowledged exactly when its outcome is a success
      rw [hack, writesTo_append, hwrites]
      cases r <;> simp [outcomes, lotJob, Job.ackedBy, Job.acked, writesTo]

/-- A drain runs the lot jobs of both queues as two lanes. -/
theorem drain_eq {σ : Type} (c : Controller σ) (d : Dispatcher) (st : Controller.State σ) :
    d.drain c st =
      match c.runLanes [(d.queue .one).map (lotJob .one), (d.queue .two).map (lotJob .two)] st with
      | ([r1, r2], st) => ((outcomes .one r1, outcomes .two r2), { d with first := [], second := [] }, st)
      | (_, st) => (([], []), { d with first := [], second := [] }, st) :=
  rfl

/-- Draining empties both queues and keeps whether the dispatcher runs. -/
theorem drain_dispatcher {σ : Type} (c : Controller σ) (d : Dispatcher) (st : Controller.State σ) :
    (d.drain c st).2.1 = { d with first := [], second := [] } := by
  rw [drain_eq]
  split <;> rfl

/-- The jobs a drain runs are keyed by the PC registers. -/
theorem keyedJobs_queues (d : Dispatcher) :
    KeyedJobs pcKeys [(d.queue .one).map (lotJob .one), (d.queue .two).map (lotJob .two)] := by
  refine ⟨rfl, fun i q k hq hk j hj => ?_⟩
  match i, hq, hk with
  | 0, hq, hk =>
    simp only [pcKeys, Line.all, List.map_cons, List.getElem?_cons_zero, Option.some.injEq] at hq hk
    subst hq hk
    obtain ⟨lot, -, rfl⟩ := List.mem_map.1 hj
    rfl
  | 1, hq, hk =>
    simp only [pcKeys, Line.all, List.map_cons, List.getElem?_cons_succ, List.getElem?_cons_zero,
      Option.some.injEq] at hq hk
    subst hq hk
    obtain ⟨lot, -, rfl⟩ := List.mem_map.1 hj
    rfl
  | _ + 2, hq, _ => simp at hq

/-- The controller state a drain leaves is that of its run of lanes. -/
theorem drain_state {σ : Type} (c : Controller σ) (d : Dispatcher) (st : Controller.State σ) :
    (d.drain c st).2.2 =
      (c.runLanes [(d.queue .one).map (lotJob .one), (d.queue .two).map (lotJob .two)] st).2 := by
  rw [drain_eq]
  obtain ⟨res, st'⟩ := c.runLanes [(d.queue .one).map (lotJob .one), (d.queue .two).map (lotJob .two)] st
  -- whatever the lanes gave, the state is the run's
  match res with
  | [] | [_] | [_, _] | _ :: _ :: _ :: _ => rfl

section Drain

variable {σ : Type} {c : Controller σ} (hans : c.gateway.Answers) (log : c.gateway.AckLog)
include hans

/-- **A drain delivers each line's lots in order.** On a gateway that answers
every request, draining a dispatcher gives for each line one outcome per lot
queued for it, in queue order, each of that line; the gateway has
acknowledged to the line's PC register, after what it held before, exactly the
lots whose outcome is a success, in that order; and no other register has
been written. -/
theorem drain_delivers (d : Dispatcher) (st : Controller.State σ) :
    (∀ l, let os := l.pick (d.drain c st).1
      os.map (·.lotId) = d.queue l ∧ (∀ o ∈ os, o.line = l) ∧
      writesTo (.activeLot l .pc) (log.acks (d.drain c st).2.2.gate) =
        writesTo (.activeLot l .pc) (log.acks st.gate) ++
          (os.filter (·.error.isNone)).map fun o => (o.lotId : Int)) ∧
    ∀ k, k ∉ pcKeys → writesTo k (log.acks (d.drain c st).2.2.gate) = writesTo k (log.acks st.gate) := by
  have hends := c.runLanes_ends_jobs hans
    [(d.queue .one).map (lotJob .one), (d.queue .two).map (lotJob .two)] st
  have hw := c.runLanes_writes hans log pcKeys_nodup (keyedJobs_queues d) st
  rw [drain_eq]
  generalize c.runLanes [(d.queue .one).map (lotJob .one), (d.queue .two).map (lotJob .two)] st = out
    at hends hw ⊢
  obtain ⟨res, st'⟩ := out
  have hlen : res.length = 2 := by simpa using congrArg List.length hends
  match res, hlen, hends, hw with
  | [r1, r2], _, hends, hw =>
    dsimp only at hw
    simp only [List.map_cons, List.map_nil, List.cons.injEq, and_true] at hends
    obtain ⟨h1, h2⟩ := hends
    refine ⟨fun l => ?_, hw.2⟩
    -- a line's outcomes are those of its lane, whose register is the line's PC register
    have hline : ∀ (l : Line) (rs : List (Job × Except Failure (List Yield))) (i : Nat),
        rs.map (·.1) = (d.queue l).map (lotJob l) → [r1, r2][i]? = some rs →
        pcKeys[i]? = some (.activeLot l .pc) →
        (outcomes l rs).map (·.lotId) = d.queue l ∧ (∀ o ∈ outcomes l rs, o.line = l) ∧
          writesTo (.activeLot l .pc) (log.acks st'.gate) =
            writesTo (.activeLot l .pc) (log.acks st.gate) ++
              ((outcomes l rs).filter (·.error.isNone)).map fun o => (o.lotId : Int) := by
      intro l rs i hrs hi hk
      obtain ⟨hids, hon, hwr⟩ := outcomes_lotJobs l hrs
      refine ⟨hids, hon, ?_⟩
      rw [hw.1 i { queue := [], results := rs } _ (by rw [List.getElem?_map, hi]; rfl) hk, hwr]
    cases l
    · exact hline .one r1 0 h1 rfl rfl
    · exact hline .two r2 1 h2 rfl rfl

end Drain

end Dispatcher

end LotBridge
