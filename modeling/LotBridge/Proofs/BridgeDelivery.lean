import LotBridge.Proofs.RegistryHistory
import LotBridge.Proofs.MemoryRegisters
import LotBridge.Bridge

/-!
# The last state of each line reaches the equipment

A bridge queues every change the registry makes to a line with its
dispatcher, in the order of the changes, and a settle works the queues off.
This file follows one line through that pipeline: registry, queue, lane,
gateway, register.

Requests to the registry queue, for each line, the values the registry sent
for it, in order; the last value sent for a line is the id the line shows
(`Bridge.runRegistry_queues`, from `Registry.Step.slot_after` and
`Registry.Step.sentTo_of`). A settle then drains the queues
(`Dispatcher.drain_delivers`). On a gateway in memory whose faults are
switched at any time, the registers follow the acknowledged writes
(`Gateway.Switched.keeps_tracks`). Together, `Bridge.settle_delivers_lastState`:
each line gets one outcome per value sent, in order; its PC register holds the
last value whose write succeeded, or what it held before; when the last write
succeeded, that is the id the registry shows for the line; and no other
register than the two PC registers is written.

## Main definitions

* `Effects.sentTo`, `sentTo`: the values sent for a line.
* `Bridge.runRegistry`: registry requests one after another.
-/

namespace LotBridge

/-- The values an effect sent for line `l`, in order. -/
def Effects.sentTo (l : Line) (e : Effects) : List Nat :=
  e.dispatched.filterMap fun d => if d.1 = l then some d.2 else none

/-- The values effects sent for line `l`, in order. -/
def sentTo (l : Line) (es : List Effects) : List Nat := es.flatMap (·.sentTo l)

@[simp] theorem sentTo_nil (l : Line) : sentTo l [] = [] := rfl

@[simp] theorem sentTo_cons (l : Line) (e : Effects) (es : List Effects) :
    sentTo l (e :: es) = e.sentTo l ++ sentTo l es := rfl

namespace Registry

/-- A request to the registry, for each line, either sends nothing for it and
leaves its slot, or sends the id the line shows after it. -/
theorem exec_sends (src : LotSource) (now : Nat) (cmd : RegistryCommand) (reg : Registry) (l : Line) :
    ((reg.exec src now cmd).2.2.2.sentTo l = [] ∧ (reg.exec src now cmd).2.1.slot l = reg.slot l) ∨
      (reg.exec src now cmd).2.2.2.sentTo l = [shownId ((reg.exec src now cmd).2.1.slot l)] := by
  -- a request that changes the registry is a call, which sends exactly its change
  have hcall : ∀ c : Call, ((Step.of reg c).effects.sentTo l = [] ∧ (Step.of reg c).after.slot l = reg.slot l) ∨
      (Step.of reg c).effects.sentTo l = [shownId ((Step.of reg c).after.slot l)] := by
    intro c
    have hslot := Step.slot_after reg c l
    have hsent : (Step.of reg c).effects.sentTo l = ((Step.of reg c).change l).toList.map shownId :=
      Step.sentTo_of reg c l
    cases hch : (Step.of reg c).change l with
    | none =>
      rw [hch] at hslot hsent
      exact Or.inl ⟨hsent, hslot⟩
    | some v =>
      rw [hch] at hslot hsent
      exact Or.inr (by rw [hsent, hslot]; rfl)
  cases cmd with
  | activate l' lot => exact hcall (.activate src.lookup l' lot now)
  | deactivate l' => exact hcall (.deactivate l')
  | complete l' n => exact hcall (.complete l' n now)
  | register => exact hcall .register
  | unregister id => exact hcall (.unregister id)
  | get l' => exact Or.inl ⟨rfl, rfl⟩
  | all => exact Or.inl ⟨rfl, rfl⟩
  | insert r => cases src <;> exact Or.inl ⟨rfl, rfl⟩
  | size => cases src <;> exact Or.inl ⟨rfl, rfl⟩

end Registry

namespace Bridge

variable {σ : Type} (b : Bridge σ)

/-- Carries out registry requests one after another, each at its time: the
effects of each, and the state after them all. -/
def runRegistry : List (Nat × RegistryCommand) → State σ → List Effects × State σ
  | [], st => ([], st)
  | (now, c) :: cs, st =>
    ((st.registry.exec st.source now c).2.2.2 :: (runRegistry cs (b.exec now (.registry c) st).2).1,
      (runRegistry cs (b.exec now (.registry c) st).2).2)

/-- Queuing writes with a running dispatcher appends each to the queue of its
line, and changes nothing else the pipeline reads. -/
theorem queue_spec (st : State σ) (ws : List (Line × Nat)) (hrun : st.dispatcher.running = true) :
    (queue st ws).dispatcher.running = true ∧
      (∀ l, (queue st ws).dispatcher.queue l =
        st.dispatcher.queue l ++ ws.filterMap fun d => if d.1 = l then some d.2 else none) ∧
      (queue st ws).registry = st.registry ∧ (queue st ws).plant = st.plant ∧
      (queue st ws).outcomes = st.outcomes := by
  induction ws generalizing st with
  | nil => exact ⟨hrun, fun l => by simp [queue], rfl, rfl, rfl⟩
  | cons w ws ih =>
    obtain ⟨l₀, lot⟩ := w
    -- one write is queued with the dispatcher, then the rest
    have hone : ∃ d, queue st ((l₀, lot) :: ws) = queue { st with dispatcher := d, expected := st.expected + 1 } ws ∧
        d.running = true ∧ ∀ l, d.queue l = st.dispatcher.queue l ++ if l₀ = l then [lot] else [] := by
      cases l₀
      · refine ⟨{ st.dispatcher with first := st.dispatcher.first ++ [lot] }, ?_, hrun, fun l => ?_⟩
        · simp [queue, Dispatcher.enqueue, hrun]
        · cases l <;> simp [Dispatcher.queue]
      · refine ⟨{ st.dispatcher with second := st.dispatcher.second ++ [lot] }, ?_, hrun, fun l => ?_⟩
        · simp [queue, Dispatcher.enqueue, hrun]
        · cases l <;> simp [Dispatcher.queue]
    obtain ⟨d, hq, hd, hdq⟩ := hone
    obtain ⟨hrun', hqueue, hreg, hplant, hout⟩ := ih { st with dispatcher := d, expected := st.expected + 1 } hd
    rw [hq]
    refine ⟨hrun', fun l => ?_, hreg, hplant, hout⟩
    rw [hqueue, hdq, List.filterMap_cons]
    by_cases hl : l₀ = l <;> simp [hl]

/-- A registry request, made with a running dispatcher, queues what the
registry sent and changes neither the plant nor the outcomes. -/
theorem exec_registry_spec (now : Nat) (c : RegistryCommand) (st : State σ)
    (hrun : st.dispatcher.running = true) :
    (b.exec now (.registry c) st).2.dispatcher.running = true ∧
      (∀ l, (b.exec now (.registry c) st).2.dispatcher.queue l =
        st.dispatcher.queue l ++ (st.registry.exec st.source now c).2.2.2.sentTo l) ∧
      (b.exec now (.registry c) st).2.registry = (st.registry.exec st.source now c).2.1 ∧
      (b.exec now (.registry c) st).2.plant = st.plant ∧
      (b.exec now (.registry c) st).2.outcomes = st.outcomes :=
  queue_spec _ _ hrun

/-- **Requests to the registry queue what it sent, in order.** From a state
whose dispatcher runs, a run of registry requests leaves the plant and the
outcomes as they were and the dispatcher running; each line's queue has, after
what it held, the values the registry sent for the line, in order; and the
last of these is the id the line shows after the run. -/
theorem runRegistry_queues (cmds : List (Nat × RegistryCommand)) (st : State σ)
    (hrun : st.dispatcher.running = true) :
    (b.runRegistry cmds st).2.plant = st.plant ∧ (b.runRegistry cmds st).2.outcomes = st.outcomes ∧
      (b.runRegistry cmds st).2.dispatcher.running = true ∧
      ∀ l, (b.runRegistry cmds st).2.dispatcher.queue l =
          st.dispatcher.queue l ++ sentTo l (b.runRegistry cmds st).1 ∧
        ((sentTo l (b.runRegistry cmds st).1).getLast?).getD (shownId (st.registry.slot l)) =
          shownId ((b.runRegistry cmds st).2.registry.slot l) := by
  induction cmds generalizing st with
  | nil => exact ⟨rfl, rfl, hrun, fun l => ⟨by simp [runRegistry], rfl⟩⟩
  | cons cmd cmds ih =>
    obtain ⟨now, c⟩ := cmd
    -- the first request changes the registry and queues what it sent
    obtain ⟨hrun₁, hqueue₁, hreg₁, hplant₁, hout₁⟩ := b.exec_registry_spec now c st hrun
    obtain ⟨hplant, hout, hrun', hlines⟩ := ih (b.exec now (.registry c) st).2 hrun₁
    refine ⟨hplant.trans hplant₁, hout.trans hout₁, hrun', fun l => ?_⟩
    obtain ⟨hq, hlast⟩ := hlines l
    simp only [runRegistry, sentTo_cons]
    refine ⟨by rw [hq, hqueue₁ l, List.append_assoc], ?_⟩
    rw [← hlast, hreg₁]
    -- the first request either sent nothing for the line or the id it shows
    rcases Registry.exec_sends st.source now c st.registry l with ⟨hnone, hslot⟩ | hsent
    · rw [hnone, List.nil_append, hslot]
    · rw [hsent, List.singleton_append, List.getLast?_cons]
      cases (sentTo l (b.runRegistry cmds (b.exec now (.registry c) st).2).1).getLast? <;> rfl

/-- A settle drains the dispatcher and adds each line's outcomes to those it
had; the registry stays as it was. -/
theorem settle_eq (st : State σ) :
    (b.settle st).outcomes =
        (st.outcomes.1 ++ (st.dispatcher.drain b.controller st.plant).1.1,
          st.outcomes.2 ++ (st.dispatcher.drain b.controller st.plant).1.2) ∧
      (b.settle st).plant = (st.dispatcher.drain b.controller st.plant).2.2 ∧
      (b.settle st).registry = st.registry :=
  ⟨rfl, rfl, rfl⟩

end Bridge

/-- A line's part of outcomes with more appended is its part of each. -/
theorem Line.pick_append {α : Type} (l : Line) (a b : List α × List α) :
    l.pick (a.1 ++ b.1, a.2 ++ b.2) = l.pick a ++ l.pick b := by
  cases l <;> rfl

/-- The last element of a list that passes a test is the last of those that
pass it. -/
theorem getLast?_filter_of_getLast? {α : Type} {xs : List α} {x : α} (p : α → Bool)
    (hx : xs.getLast? = some x) (hp : p x = true) : (xs.filter p).getLast? = some x := by
  obtain ⟨init, rfl⟩ := List.getLast?_eq_some_iff.1 hx
  rw [List.filter_append, List.filter_cons_of_pos hp, List.filter_nil]
  simp

/-- A register whose new writes since `g₀` are `xs` holds the last of them,
or its value in `g₀` if there are none. -/
theorem MemoryGateway.Tracks.value_eq {g₀ g : MemoryGateway} (h : MemoryGateway.Tracks g₀ g)
    {k : RegisterKey} (hk : k ≠ .lastUpdated) {xs : List Int}
    (hxs : writesTo k g.writes = writesTo k g₀.writes ++ xs) :
    g.value k = xs.getLast?.or (g₀.value k) := by
  obtain ⟨-, ws, hws, hval⟩ := h
  rw [hws, writesTo_append] at hxs
  rw [hval k hk, List.append_cancel_left hxs]

namespace Bridge

variable {σ : Type} (b : Bridge σ)

/-- **The last state of each line reaches the equipment, in order.** Let a
bridge's gateway be a gateway in memory whose faults (unreachable, connections
reset, writes refused) may be switched before any request, with its registers
in the plant's namespace, and let its dispatcher be idle. After any run of
registry requests and a settle, for each line: the line has one new outcome for
each value the registry sent for it, in the order sent, each of that line; the
writes the gateway acknowledged to the line's PC register are, after those it
had, the values whose outcome is a success, in order; the register holds the
last of them, or what it held before if there is none; and if the last outcome
is a success, the register holds the id the registry shows for the line, `0`
when it is empty. No register other than the two PC registers is written, and
each keeps its value. -/
theorem settle_delivers_lastState {mem : σ → MemoryGateway} (hsw : b.controller.gateway.Switched mem)
    (cmds : List (Nat × RegistryCommand)) (st : State σ) (hidle : st.dispatcher = {})
    (hslots : ∀ x ∈ (mem st.plant.gate).values, x.1.1 = 1) :
    let run := b.runRegistry cmds st
    let fin := b.settle run.2
    (∀ l, ∃ os, l.pick fin.outcomes = l.pick st.outcomes ++ os ∧
      os.map (·.lotId) = sentTo l run.1 ∧ (∀ o ∈ os, o.line = l) ∧
      writesTo (.activeLot l .pc) (mem fin.plant.gate).writes =
        writesTo (.activeLot l .pc) (mem st.plant.gate).writes ++
          (os.filter (·.error.isNone)).map (fun o => (o.lotId : Int)) ∧
      (mem fin.plant.gate).value (.activeLot l .pc) =
        ((os.filter (·.error.isNone)).getLast?.map fun o => (o.lotId : Int)).or
          ((mem st.plant.gate).value (.activeLot l .pc)) ∧
      ∀ o, os.getLast? = some o → o.error = none →
        (mem fin.plant.gate).value (.activeLot l .pc) = some (shownId (fin.registry.slot l))) ∧
    ∀ k, k ∉ Dispatcher.pcKeys →
      writesTo k (mem fin.plant.gate).writes = writesTo k (mem st.plant.gate).writes ∧
      (k ≠ .lastUpdated → (mem fin.plant.gate).value k = (mem st.plant.gate).value k) := by
  intro run fin
  have hans := hsw.answers
  let log := hsw.ackLog
  obtain ⟨hplant, hout, -, hlines⟩ := b.runRegistry_queues cmds st (by rw [hidle])
  obtain ⟨hfin_out, hfin_plant, hfin_reg⟩ := b.settle_eq run.2
  obtain ⟨hdrain, hother⟩ := Dispatcher.drain_delivers hans log run.2.dispatcher run.2.plant
  -- the registers follow the acknowledged writes all through the drain
  have htracks : MemoryGateway.Tracks (mem st.plant.gate) (mem fin.plant.gate) := by
    rw [hfin_plant, Dispatcher.drain_state, hplant]
    exact Controller.runLanes_keeps (hsw.keeps_tracks _) _ (MemoryGateway.tracks_refl hslots)
  have hgate : (mem run.2.plant.gate).writes = (mem st.plant.gate).writes := by rw [hplant]
  refine ⟨fun l => ?_, fun k hk => ?_⟩
  · obtain ⟨hids, hline, hwrites⟩ := hdrain l
    have hwrites' : writesTo (.activeLot l .pc) (mem fin.plant.gate).writes =
        writesTo (.activeLot l .pc) (mem st.plant.gate).writes ++
          ((l.pick (run.2.dispatcher.drain b.controller run.2.plant).1).filter (·.error.isNone)).map
            fun o => (o.lotId : Int) := by
      rw [hfin_plant, ← hgate]
      exact hwrites
    have hvalue := htracks.value_eq (RegisterKey.activeLot_ne_lastUpdated l .pc) hwrites'
    have hqueue : run.2.dispatcher.queue l = sentTo l run.1 := by
      rw [(hlines l).1, hidle]
      cases l <;> rfl
    refine ⟨l.pick (run.2.dispatcher.drain b.controller run.2.plant).1, ?_, hids.trans hqueue, hline,
      hwrites', by rw [hvalue, List.getLast?_map], fun o ho hok => ?_⟩
    · rw [hfin_out, hout, ← Line.pick_append]
    · -- the last outcome is for the last value sent, which is the id the line shows
      have hlast_sent : (sentTo l run.1).getLast? = some o.lotId := by
        rw [← hqueue, ← hids, List.getLast?_map, ho]
        rfl
      have hshown := (hlines l).2
      rw [hlast_sent] at hshown
      have hsucc : ((l.pick (run.2.dispatcher.drain b.controller run.2.plant).1).filter
          (·.error.isNone)).getLast? = some o := by
        exact getLast?_filter_of_getLast? _ ho (by simp [hok])
      rw [hvalue, List.getLast?_map, hsucc, hfin_reg, ← hshown]
      rfl
  · have hk_writes := hother k hk
    have hwrites' : writesTo k (mem fin.plant.gate).writes = writesTo k (mem st.plant.gate).writes ++ [] := by
      rw [List.append_nil, hfin_plant, ← hgate]
      exact hk_writes
    refine ⟨by simpa using hwrites', fun hlu => ?_⟩
    rw [htracks.value_eq hlu hwrites']
    rfl

theorem settle_delivers_lastState_onSchedule :
    let b : Bridge (MemoryGateway × List (Option MemoryGateway.Faults)) :=
      ⟨⟨MemoryGateway.scheduled, {}, Retry.Backoff.standard.policy⟩, .events⟩
    let mem : MemoryGateway × List (Option MemoryGateway.Faults) → MemoryGateway := Prod.fst
    let cmds : List (Nat × RegistryCommand) := [(0, .activate .one 7), (1, .activate .two 7), (2, .deactivate .one)]
    let st : State (MemoryGateway × List (Option MemoryGateway.Faults)) :=
      { source := .fixed 7, workdir := Workdir.ofNames [] [],
        plant := { gate := (MemoryGateway.create "urn:potline:lines" 0, [none, none, some ⟨false, 0, 1⟩]) } }
    b.controller.gateway.Switched mem ∧ st.dispatcher = {} ∧ (∀ x ∈ (mem st.plant.gate).values, x.1.1 = 1) ∧
    let run := b.runRegistry cmds st
    let fin := b.settle run.2
    (∀ l, ∃ os, l.pick fin.outcomes = l.pick st.outcomes ++ os ∧
      os.map (·.lotId) = sentTo l run.1 ∧ (∀ o ∈ os, o.line = l) ∧
      writesTo (.activeLot l .pc) (mem fin.plant.gate).writes =
        writesTo (.activeLot l .pc) (mem st.plant.gate).writes ++
          (os.filter (·.error.isNone)).map (fun o => (o.lotId : Int)) ∧
      (mem fin.plant.gate).value (.activeLot l .pc) =
        ((os.filter (·.error.isNone)).getLast?.map fun o => (o.lotId : Int)).or
          ((mem st.plant.gate).value (.activeLot l .pc)) ∧
      ∀ o, os.getLast? = some o → o.error = none →
        (mem fin.plant.gate).value (.activeLot l .pc) = some (shownId (fin.registry.slot l))) ∧
    ∀ k, k ∉ Dispatcher.pcKeys →
      writesTo k (mem fin.plant.gate).writes = writesTo k (mem st.plant.gate).writes ∧
      (k ≠ .lastUpdated → (mem fin.plant.gate).value k = (mem st.plant.gate).value k) := by
  intro b mem cmds st
  have hsw : b.controller.gateway.Switched mem := MemoryGateway.scheduled_switched
  have hslots : ∀ x ∈ (mem st.plant.gate).values, x.1.1 = 1 := MemoryGateway.create_namespace _ _
  exact ⟨hsw, rfl, hslots, settle_delivers_lastState b hsw cmds st rfl hslots⟩

end Bridge

end LotBridge
