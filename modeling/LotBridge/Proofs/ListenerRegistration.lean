import LotBridge.Listeners.Process
import Mathlib

/-!
# Listener registration is exact

Every emitter of a process answers to a history: the listeners registered
with it, or with the emitter it was cloned from before the clone, and the ids
unregistered from it, in order. The listeners a history leaves are those
registered and not unregistered after (`survivors`), in registration order.
`Ledger` follows the histories along a run, and the audience of each
notification: what its emitter's history leaves when the notification starts.

The emitters keep lists instead, appended to on registration and filtered on
unregistration, with ids from the shared counter. `Tracks` relates the two
along a run: the lists are the survivors of the histories, ids only grow, and
each notification has called a prefix of its audience and holds the rest. Each
kind of call keeps it (`Tracks.step`), so every run does (`Tracks.run`).

## Main statements

* `survivors_added`, `survivors_removed`: a history grown by one change.
* `notifyAll_calls`: an emitter notified directly calls its listeners as
  `Listeners.notify` says.
* `run_registers_exactly`: along every run with fewer than `2 ^ 64`
  registrations, registration is exact (`RegistrationExact`): the ids handed
  out increase, so no two are equal, not even on different emitters; each
  emitter holds exactly the listeners its history leaves, each once;
  unregistering removes at most the one listener registered under the id; and
  each notification calls the listeners of its audience, in order and with its
  event, whatever calls come in between.
-/

namespace LotBridge

/-- Whether a call registers a listener. -/
def EmitterCall.isRegister : EmitterCall → Bool
  | .register _ => true
  | _ => false

namespace Emitters

/-! ## Histories -/

/-- A change to the listeners of an emitter. -/
inductive Change where
  | added (id : Nat)
  | removed (id : Nat)
deriving DecidableEq

/-- The listeners a history leaves, in registration order: those added and
not removed after. -/
def survivors : List Change → List Nat
  | [] => []
  | .added id :: rest => if .removed id ∈ rest then survivors rest else id :: survivors rest
  | .removed _ :: rest => survivors rest

theorem survivors_added (h : List Change) (id : Nat) :
    survivors (h ++ [.added id]) = survivors h ++ [id] := by
  induction h with
  | nil => simp [survivors]
  | cons c rest ih =>
    cases c with
    | added x => by_cases hx : Change.removed x ∈ rest <;> simp [survivors, hx, ih]
    | removed x => simp [survivors, ih]

theorem survivors_removed (h : List Change) (id : Nat) :
    survivors (h ++ [.removed id]) = (survivors h).filter (· != id) := by
  induction h with
  | nil => simp [survivors]
  | cons c rest ih =>
    cases c with
    | added x =>
      by_cases hx : Change.removed x ∈ rest
      · simp [survivors, hx, ih]
      · by_cases hid : x = id
        · subst hid
          simp [survivors, hx, ih]
        · simp [survivors, hx, ih, hid]
    | removed x => simp [survivors, ih]

/-! ## The ledger of a run -/

/-- What a run did, as histories: how many listeners were registered, the
history of each emitter, and the event and audience of each notification. -/
structure Ledger where
  registered : Nat := 0
  histories : List (List Change) := []
  audiences : List (LotEvent × List Nat) := []

namespace Ledger

/-- One call, as the histories record it. -/
def step (L : Ledger) : EmitterCall → Ledger
  | .create => { L with histories := L.histories ++ [[]] }
  | .clone e =>
    match L.histories[e]? with
    | some h => { L with histories := L.histories ++ [h] }
    | none => L
  | .register e =>
    match L.histories[e]? with
    | some h =>
      { L with registered := L.registered + 1, histories := L.histories.set e (h ++ [.added L.registered]) }
    | none => L
  | .unregister e id =>
    match L.histories[e]? with
    | some h => { L with histories := L.histories.set e (h ++ [.removed id]) }
    | none => L
  | .notify e event =>
    match L.histories[e]? with
    | some h => { L with audiences := L.audiences ++ [(event, survivors h)] }
    | none => L
  | .deliver _ => L

/-- Calls one after the other. -/
def run (L : Ledger) (cs : List EmitterCall) : Ledger := cs.foldl step L

section StepEquations

variable (L : Ledger) {e : Nat} {h : List Change}

theorem step_clone (hh : L.histories[e]? = some h) :
    L.step (.clone e) = { L with histories := L.histories ++ [h] } := by
  simp [step, hh]

theorem step_register (hh : L.histories[e]? = some h) :
    L.step (.register e) =
      { L with registered := L.registered + 1, histories := L.histories.set e (h ++ [.added L.registered]) } := by
  simp [step, hh]

theorem step_unregister (id : Nat) (hh : L.histories[e]? = some h) :
    L.step (.unregister e id) = { L with histories := L.histories.set e (h ++ [.removed id]) } := by
  simp [step, hh]

theorem step_notify (event : LotEvent) (hh : L.histories[e]? = some h) :
    L.step (.notify e event) = { L with audiences := L.audiences ++ [(event, survivors h)] } := by
  simp [step, hh]

theorem step_deliver (k : Nat) : L.step (.deliver k) = L := rfl

/-- A call on an emitter that was never made records nothing. -/
theorem step_of_missing (hh : L.histories[e]? = none) :
    L.step (.clone e) = L ∧ L.step (.register e) = L ∧ (∀ id, L.step (.unregister e id) = L) ∧
      ∀ event, L.step (.notify e event) = L := by
  simp [step, hh]

end StepEquations

end Ledger

/-! ## Views of the answers -/

/-- How many calls register a listener. -/
def registrations (cs : List EmitterCall) : Nat := cs.countP EmitterCall.isRegister

/-- The ids handed out, in order. -/
def issued : List EmitterAnswer → List Nat
  | [] => []
  | .listener id :: rest => id :: issued rest
  | _ :: rest => issued rest

/-- The listeners notification `k` called, in order. -/
def calledBy (k : Nat) : List EmitterAnswer → List Nat
  | [] => []
  | .called k' id _ :: rest => if k' = k then id :: calledBy k rest else calledBy k rest
  | _ :: rest => calledBy k rest

theorem issued_append (as bs : List EmitterAnswer) : issued (as ++ bs) = issued as ++ issued bs := by
  induction as with
  | nil => rfl
  | cons a as ih => cases a <;> simp [issued, ih]

theorem calledBy_append (k : Nat) (as bs : List EmitterAnswer) :
    calledBy k (as ++ bs) = calledBy k as ++ calledBy k bs := by
  induction as with
  | nil => rfl
  | cons a as ih =>
    cases a with
    | called k' id event => by_cases h : k' = k <;> simp [calledBy, h, ih]
    | _ => simp [calledBy, ih]

theorem calledBy_eq_nil {k : Nat} {as : List EmitterAnswer} (h : ∀ id event, .called k id event ∉ as) :
    calledBy k as = [] := by
  induction as with
  | nil => rfl
  | cons a as ih =>
    have hrest : ∀ id event, .called k id event ∉ as := fun id event hm => h id event (.tail _ hm)
    cases a with
    | called k' id event =>
      by_cases hk : k' = k
      · subst hk
        exact absurd (.head _) (h id event)
      · simp [calledBy, hk, ih hrest]
    | _ => simp [calledBy, ih hrest]

/-! ## The invariant -/

/-- An emitter's ids are ordered as they were handed out, all before the
counter. -/
def Fresh (registered : Nat) (ids : List Nat) : Prop :=
  ids.Pairwise (· < ·) ∧ ∀ id ∈ ids, id < registered

theorem Fresh.filter {n : Nat} {ids : List Nat} (h : Fresh n ids) (f : Nat → Bool) :
    Fresh n (ids.filter f) :=
  ⟨h.1.filter f, fun id hid => h.2 id (List.mem_of_mem_filter hid)⟩

theorem Fresh.append {n : Nat} {ids : List Nat} (h : Fresh n ids) : Fresh (n + 1) (ids ++ [n]) := by
  refine ⟨List.pairwise_append.2 ⟨h.1, List.pairwise_singleton _ _, ?_⟩, ?_⟩
  · intro a ha b hb
    rw [List.mem_singleton] at hb
    exact hb ▸ h.2 a ha
  · intro id hid
    rcases List.mem_append.1 hid with hid | hid
    · exact Nat.lt_succ_of_lt (h.2 id hid)
    · rw [List.mem_singleton.1 hid]
      exact Nat.lt_succ_self n

theorem Fresh.mono {n m : Nat} {ids : List Nat} (h : Fresh n ids) (hnm : n ≤ m) : Fresh m ids :=
  ⟨h.1, fun id hid => Nat.lt_of_lt_of_le (h.2 id hid) hnm⟩

/-- What the emitters have done so far (`done`) agrees with the ledger of the
same calls: the counter counts the registrations, each emitter holds the
survivors of its history, ids are handed out in increasing order, and each
notification has called a prefix of its audience, with its event, and holds
the rest. -/
structure Tracks (done : List EmitterAnswer) (p : Emitters) (L : Ledger) : Prop where
  counter : p.counter.toNat = L.registered
  emitters : p.emitters = L.histories.map survivors
  fresh : ∀ ids ∈ p.emitters, Fresh L.registered ids
  issued : Fresh L.registered (issued done)
  audiences : L.audiences.length = p.notifications.length
  audience : ∀ k (n : Notification), p.notifications[k]? = some n →
    ∃ aud, L.audiences[k]? = some (n.event, aud) ∧ calledBy k done ++ n.pending = aud ∧
      aud.Pairwise (· < ·)
  called : ∀ k id event, EmitterAnswer.called k id event ∈ done →
    ∃ n, p.notifications[k]? = some n ∧ n.event = event

theorem tracks_start : Tracks [] {} {} where
  counter := rfl
  emitters := rfl
  fresh := by simp
  issued := by simp [Fresh, issued]
  audiences := rfl
  audience := by simp
  called := by simp

section Steps

variable {done : List EmitterAnswer} {p : Emitters} {L : Ledger}

theorem Tracks.emitter_eq (ht : Tracks done p L) (e : Nat) :
    p.emitters[e]? = L.histories[e]?.map survivors := by
  rw [ht.emitters, List.getElem?_map]

/-- An answer that hands out no id and calls no listener. -/
def Quiet (a : EmitterAnswer) : Prop := a = .done ∨ a = .ignored ∨ ∃ e, a = .emitter e

theorem Quiet.issued {a : EmitterAnswer} (ha : Quiet a) : issued [a] = [] := by
  rcases ha with rfl | rfl | ⟨e, rfl⟩ <;> rfl

theorem Quiet.calledBy {a : EmitterAnswer} (ha : Quiet a) (k : Nat) : calledBy k [a] = [] := by
  rcases ha with rfl | rfl | ⟨e, rfl⟩ <;> rfl

theorem Quiet.ne_called {a : EmitterAnswer} (ha : Quiet a) (k id : Nat) (event : LotEvent) :
    a ≠ .called k id event := by
  rcases ha with rfl | rfl | ⟨e, rfl⟩ <;> simp

/-- A call that changes the emitters only, in step with their histories, and
answers quietly. -/
theorem Tracks.emittersOnly (ht : Tracks done p L) {a : EmitterAnswer} (ha : Quiet a)
    {ems : List (List Nat)} {hs : List (List Change)} (hems : ems = hs.map survivors)
    (hfresh : ∀ ids ∈ ems, Fresh L.registered ids) :
    Tracks (done ++ [a]) { p with emitters := ems } { L with histories := hs } where
  counter := ht.counter
  emitters := hems
  fresh := hfresh
  issued := by simpa [issued_append, ha.issued] using ht.issued
  audiences := ht.audiences
  audience k n hn := by
    obtain ⟨aud, haud, hcall, hord⟩ := ht.audience k n hn
    exact ⟨aud, haud, by rw [calledBy_append, ha.calledBy, List.append_nil]; exact hcall, hord⟩
  called k id event hmem := by
    rcases List.mem_append.1 hmem with hmem | hmem
    · exact ht.called k id event hmem
    · exact absurd (List.mem_singleton.1 hmem).symm (ha.ne_called k id event)

/-- A call that changes nothing. -/
theorem Tracks.ignored (ht : Tracks done p L) : Tracks (done ++ [.ignored]) p L :=
  ht.emittersOnly (Or.inr (Or.inl rfl)) ht.emitters ht.fresh

theorem Tracks.create (ht : Tracks done p L) :
    Tracks (done ++ [(p.step .create).1]) (p.step .create).2 (L.step .create) := by
  rw [step_create]
  refine ht.emittersOnly (Or.inr (Or.inr ⟨_, rfl⟩)) (by simp [ht.emitters, survivors]) ?_
  intro ids hids
  rcases List.mem_append.1 hids with hids | hids
  · exact ht.fresh ids hids
  · rw [List.mem_singleton.1 hids]
    simp [Fresh]

theorem Tracks.clone (ht : Tracks done p L) (e : Nat) :
    Tracks (done ++ [(p.step (.clone e)).1]) (p.step (.clone e)).2 (L.step (.clone e)) := by
  cases hh : L.histories[e]? with
  | none =>
    have hp : p.emitters[e]? = none := by rw [ht.emitter_eq, hh, Option.map_none]
    rw [(step_of_missing p hp).1, (L.step_of_missing hh).1]
    exact ht.ignored
  | some h =>
    have hp : p.emitters[e]? = some (survivors h) := by rw [ht.emitter_eq, hh, Option.map_some]
    rw [step_clone p hp, L.step_clone hh]
    refine ht.emittersOnly (Or.inr (Or.inr ⟨_, rfl⟩)) (by simp [ht.emitters]) ?_
    intro ids hids
    rcases List.mem_append.1 hids with hids | hids
    · exact ht.fresh ids hids
    · rw [List.mem_singleton.1 hids]
      exact ht.fresh _ (List.mem_of_getElem? hp)

theorem Tracks.unregister (ht : Tracks done p L) (e id : Nat) :
    Tracks (done ++ [(p.step (.unregister e id)).1]) (p.step (.unregister e id)).2
      (L.step (.unregister e id)) := by
  cases hh : L.histories[e]? with
  | none =>
    have hp : p.emitters[e]? = none := by rw [ht.emitter_eq, hh, Option.map_none]
    rw [(step_of_missing p hp).2.2.1 id, (L.step_of_missing hh).2.2.1 id]
    exact ht.ignored
  | some h =>
    have hp : p.emitters[e]? = some (survivors h) := by rw [ht.emitter_eq, hh, Option.map_some]
    rw [step_unregister p id hp, L.step_unregister id hh]
    refine ht.emittersOnly (Or.inl rfl) (by simp [ht.emitters, List.map_set, survivors_removed]) ?_
    intro ids hids
    rcases List.mem_or_eq_of_mem_set hids with hids | rfl
    · exact ht.fresh ids hids
    · exact (ht.fresh _ (List.mem_of_getElem? hp)).filter _

theorem Tracks.register (ht : Tracks done p L) (e : Nat) (hroom : L.registered + 1 < 2 ^ 64) :
    Tracks (done ++ [(p.step (.register e)).1]) (p.step (.register e)).2 (L.step (.register e)) := by
  cases hh : L.histories[e]? with
  | none =>
    have hp : p.emitters[e]? = none := by rw [ht.emitter_eq, hh, Option.map_none]
    rw [(step_of_missing p hp).2.1, (L.step_of_missing hh).2.1]
    exact ht.ignored
  | some h =>
    have hp : p.emitters[e]? = some (survivors h) := by rw [ht.emitter_eq, hh, Option.map_some]
    rw [step_register p hp, L.step_register hh, ht.counter]
    -- the counter does not wrap: fewer than `2 ^ 64` listeners were registered
    have hnext : (p.counter + 1).toNat = L.registered + 1 := by
      simp only [UInt64.toNat_add, UInt64.reduceToNat, ht.counter]
      omega
    refine
      { counter := hnext
        emitters := by simp [ht.emitters, List.map_set, survivors_added]
        fresh := ?_
        issued := by simpa [issued_append, Emitters.issued] using ht.issued.append
        audiences := ht.audiences
        audience := fun k n hn => ?_
        called := fun k id event hmem => ?_ }
    · intro ids hids
      rcases List.mem_or_eq_of_mem_set hids with hids | rfl
      · exact (ht.fresh ids hids).mono (Nat.le_succ _)
      · exact (ht.fresh _ (List.mem_of_getElem? hp)).append
    · obtain ⟨aud, haud, hcall, hord⟩ := ht.audience k n hn
      exact ⟨aud, haud, by simpa [calledBy_append, calledBy] using hcall, hord⟩
    · simp only [List.mem_append, List.mem_singleton, reduceCtorEq, or_false] at hmem
      exact ht.called k id event hmem

theorem Tracks.notify (ht : Tracks done p L) (e : Nat) (event : LotEvent) :
    Tracks (done ++ [(p.step (.notify e event)).1]) (p.step (.notify e event)).2
      (L.step (.notify e event)) := by
  cases hh : L.histories[e]? with
  | none =>
    have hp : p.emitters[e]? = none := by rw [ht.emitter_eq, hh, Option.map_none]
    rw [(step_of_missing p hp).2.2.2 event, (L.step_of_missing hh).2.2.2 event]
    exact ht.ignored
  | some h =>
    have hp : p.emitters[e]? = some (survivors h) := by rw [ht.emitter_eq, hh, Option.map_some]
    rw [step_notify p event hp, L.step_notify event hh]
    -- a notification that is under way was started before this one
    have hold : ∀ {k : Nat} {n : Notification}, p.notifications[k]? = some n →
        (p.notifications ++ [⟨event, survivors h⟩])[k]? = some n := fun hk =>
      by rw [List.getElem?_append_left (List.getElem?_eq_some_iff.1 hk).1]; exact hk
    refine
      { counter := ht.counter
        emitters := ht.emitters
        fresh := ht.fresh
        issued := by simpa [issued_append, Emitters.issued] using ht.issued
        audiences := by simp [ht.audiences]
        audience := fun k n hn => ?_
        called := fun k id event' hmem => ?_ }
    · have hcalled : calledBy k (done ++ [.notification p.notifications.length]) = calledBy k done := by
        simp [calledBy_append, calledBy]
      rw [hcalled]
      rcases Nat.lt_or_ge k p.notifications.length with hk | hk
      · rw [List.getElem?_append_left hk] at hn
        obtain ⟨aud, haud, hcall, hord⟩ := ht.audience k n hn
        exact ⟨aud, by rw [List.getElem?_append_left (ht.audiences ▸ hk)]; exact haud, hcall, hord⟩
      · -- the new notification: nothing called it yet, and it holds its whole audience
        obtain rfl : k = p.notifications.length := by
          have := (List.getElem?_eq_some_iff.1 hn).1
          simp at this
          omega
        rw [List.getElem?_concat_length] at hn
        cases hn
        have hnone : calledBy p.notifications.length done = [] := by
          refine calledBy_eq_nil fun id event' hmem => ?_
          obtain ⟨n, hn, -⟩ := ht.called _ id event' hmem
          simp at hn
        refine ⟨survivors h, ?_, by simp [hnone], (ht.fresh _ (List.mem_of_getElem? hp)).1⟩
        rw [← ht.audiences, List.getElem?_concat_length]
    · simp only [List.mem_append, List.mem_singleton, reduceCtorEq, or_false] at hmem
      obtain ⟨n, hn, hev⟩ := ht.called k id event' hmem
      exact ⟨n, hold hn, hev⟩

theorem Tracks.deliver (ht : Tracks done p L) (k : Nat) :
    Tracks (done ++ [(p.step (.deliver k)).1]) (p.step (.deliver k)).2 (L.step (.deliver k)) := by
  by_cases hk : ∃ event id rest, p.notifications[k]? = some ⟨event, id :: rest⟩
  · obtain ⟨event, id, rest, hk⟩ := hk
    rw [step_deliver p hk, Ledger.step_deliver]
    obtain ⟨aud, haud, hcall, hord⟩ := ht.audience k _ hk
    refine
      { counter := ht.counter
        emitters := ht.emitters
        fresh := ht.fresh
        issued := by simpa [issued_append, Emitters.issued] using ht.issued
        audiences := by simp [ht.audiences]
        audience := fun k' n hn => ?_
        called := fun k' id' event' hmem => ?_ }
    · by_cases hkk : k' = k
      · subst hkk
        rw [List.getElem?_set_self (List.getElem?_eq_some_iff.1 hk).1] at hn
        cases hn
        exact ⟨aud, haud, by simpa [calledBy_append, calledBy] using hcall, hord⟩
      · rw [List.getElem?_set_ne (Ne.symm hkk)] at hn
        obtain ⟨aud', haud', hcall', hord'⟩ := ht.audience k' n hn
        exact ⟨aud', haud', by simpa [calledBy_append, calledBy, Ne.symm hkk] using hcall', hord'⟩
    · rcases List.mem_append.1 hmem with hmem | hmem
      · obtain ⟨n, hn, hev⟩ := ht.called k' id' event' hmem
        by_cases hkk : k' = k
        · subst hkk
          refine ⟨⟨event, rest⟩, List.getElem?_set_self (List.getElem?_eq_some_iff.1 hk).1, ?_⟩
          rw [hk] at hn
          cases hn
          exact hev
        · exact ⟨n, by rw [List.getElem?_set_ne (Ne.symm hkk)]; exact hn, hev⟩
      · cases List.mem_singleton.1 hmem
        exact ⟨⟨event, rest⟩, List.getElem?_set_self (List.getElem?_eq_some_iff.1 hk).1, rfl⟩
  · simp only [not_exists] at hk
    rw [step_deliver_idle p hk, Ledger.step_deliver]
    exact ht.ignored

/-- Every call keeps the invariant, with room for one more registration. -/
theorem Tracks.step (ht : Tracks done p L) (c : EmitterCall)
    (hroom : c.isRegister → L.registered + 1 < 2 ^ 64) :
    Tracks (done ++ [(p.step c).1]) (p.step c).2 (L.step c) := by
  cases c with
  | create => exact ht.create
  | clone e => exact ht.clone e
  | register e => exact ht.register e (hroom rfl)
  | unregister e id => exact ht.unregister e id
  | notify e event => exact ht.notify e event
  | deliver k => exact ht.deliver k

end Steps

/-! ## Notifications with nothing in between -/

/-- A notification left alone calls the listeners it holds, in order. -/
theorem drain_calls {p : Emitters} {k : Nat} {event : LotEvent} :
    ∀ {ids : List Nat}, p.notifications[k]? = some ⟨event, ids⟩ →
      (p.drain k ids.length).1 = ids.map (·, event)
  | [], _ => rfl
  | id :: rest, hk => by
    simp only [List.length_cons, drain, step_deliver p hk, List.map_cons]
    rw [drain_calls (List.getElem?_set_self (List.getElem?_eq_some_iff.1 hk).1)]

/-- An emitter notified directly calls each of its listeners once, in
registration order, with the event: the deliveries `Listeners.notify` gives. -/
theorem notifyAll_calls (p : Emitters) {e : Nat} {ids : List Nat} (h : p.emitters[e]? = some ids)
    (event : LotEvent) : (p.notifyAll e event).1 = Listeners.notify ⟨ids, p.counter.toNat⟩ event := by
  have hk : (p.step (.notify e event)).2.notifications[p.notifications.length]? = some ⟨event, ids⟩ := by
    rw [step_notify p event h]
    exact List.getElem?_concat_length
  simp only [notifyAll, h, Option.map_some, Option.getD_some]
  rw [drain_calls hk]
  rfl

/-! ## Runs -/

theorem registrations_cons (c : EmitterCall) (cs : List EmitterCall) :
    registrations (c :: cs) = (if c.isRegister then 1 else 0) + registrations cs := by
  simp only [registrations, List.countP_cons]
  split <;> omega

theorem Ledger.registered_step (L : Ledger) (c : EmitterCall) :
    (L.step c).registered ≤ L.registered + if c.isRegister then 1 else 0 := by
  cases c with
  | register e =>
    cases hh : L.histories[e]? with
    | none => simp [(L.step_of_missing hh).2.1]
    | some h => simp [L.step_register hh, EmitterCall.isRegister]
  | _ => simp only [Ledger.step]; split <;> simp

/-- Every run keeps the invariant, while fewer than `2 ^ 64` listeners are
registered. -/
theorem Tracks.run {done : List EmitterAnswer} {p : Emitters} {L : Ledger} (ht : Tracks done p L)
    (cs : List EmitterCall) (hcs : L.registered + registrations cs < 2 ^ 64) :
    Tracks (done ++ (p.run cs).1) (p.run cs).2 (L.run cs) := by
  induction cs generalizing done p L with
  | nil => simpa [Emitters.run, Ledger.run] using ht
  | cons c cs ih =>
    rw [registrations_cons] at hcs
    have hroom : c.isRegister → L.registered + 1 < 2 ^ 64 := fun hc => by
      rw [if_pos hc] at hcs
      omega
    have hnext : (L.step c).registered + registrations cs < 2 ^ 64 := by
      have := L.registered_step c
      omega
    have hrun := ih (ht.step c hroom) hnext
    rw [List.append_assoc, List.singleton_append] at hrun
    exact hrun

/-- What exact registration means for the answers of a run, the state it
leaves and its ledger. -/
structure RegistrationExact (answers : List EmitterAnswer) (q : Emitters) (L : Ledger) : Prop where
  /-- The ids handed out increase, so no two are equal, whichever emitters they
  came from. -/
  idsIncrease : (issued answers).Pairwise (· < ·)
  /-- Every emitter holds the listeners its history leaves: registered and not
  unregistered since, in registration order. -/
  holdSurvivors : q.emitters = L.histories.map survivors
  /-- No emitter holds a listener twice. -/
  noRepeats : ∀ ids ∈ q.emitters, ids.Nodup
  /-- Unregistering an id removes at most one listener: the one registered
  under it. -/
  unregisterErases : ∀ e id ids, q.emitters[e]? = some ids →
    (q.step (.unregister e id)).2.emitters[e]? = some (ids.erase id)
  /-- Every notification started has its audience. -/
  audiencesCounted : q.notifications.length = L.audiences.length
  /-- A notification's audience is what its emitter's history left when it
  started, each listener once; the notification has called the first of them,
  in order, each with its event, and holds the others, whatever calls came
  after it started. -/
  callsAudience : ∀ k event audience, L.audiences[k]? = some (event, audience) →
    audience.Nodup ∧
    ∃ pending, q.notifications[k]? = some ⟨event, pending⟩ ∧
      calledBy k answers ++ pending = audience ∧
      ∀ id event', EmitterAnswer.called k id event' ∈ answers → event' = event

/-- Listener registration is exact along every run of calls on the emitters of
a process with fewer than `2 ^ 64` registrations. -/
theorem run_registers_exactly (cs : List EmitterCall) (hcs : registrations cs < 2 ^ 64) :
    RegistrationExact (Emitters.run {} cs).1 (Emitters.run {} cs).2 (Ledger.run {} cs) := by
  have ht : Tracks (Emitters.run {} cs).1 (Emitters.run {} cs).2 (Ledger.run {} cs) := by
    simpa using tracks_start.run cs (by simpa using hcs)
  have hnodup : ∀ ids ∈ (Emitters.run {} cs).2.emitters, ids.Nodup := fun ids hids =>
    (ht.fresh ids hids).1.nodup
  refine ⟨ht.issued.1, ht.emitters, hnodup, ?_, ht.audiences.symm, ?_⟩
  · intro e id ids hids
    rw [step_unregister _ id hids, List.getElem?_set_self (List.getElem?_eq_some_iff.1 hids).1,
      (hnodup ids (List.mem_of_getElem? hids)).erase_eq_filter]
  · intro k event audience hk
    have hlt : k < (Emitters.run {} cs).2.notifications.length :=
      ht.audiences ▸ (List.getElem?_eq_some_iff.1 hk).1
    obtain ⟨n, hn⟩ : ∃ n, (Emitters.run {} cs).2.notifications[k]? = some n :=
      ⟨_, List.getElem?_eq_getElem hlt⟩
    obtain ⟨aud, haud, hcall, hord⟩ := ht.audience k n hn
    rw [hk, Option.some.injEq, Prod.mk.injEq] at haud
    obtain ⟨rfl, rfl⟩ := haud
    refine ⟨hord.nodup, n.pending, hn, hcall, fun id event' hmem => ?_⟩
    obtain ⟨n', hn', hev⟩ := ht.called k id event' hmem
    rw [hn, Option.some.injEq] at hn'
    rw [← hev, hn']

/-- A run where a clone is taken, a listener registers with the original while
a notification of it is under way, and one is unregistered before it is
called: fewer than `2 ^ 64` registrations, and registration is exact. -/
theorem run_registers_exactly_onSnapshot :
    let cs : List EmitterCall := [.create, .register 0, .register 0, .clone 0, .register 1,
      .notify 0 default, .register 0, .unregister 0 1, .deliver 0, .deliver 0, .deliver 0]
    registrations cs < 2 ^ 64 ∧
      RegistrationExact (Emitters.run {} cs).1 (Emitters.run {} cs).2 (Ledger.run {} cs) :=
  ⟨by decide, run_registers_exactly _ (by decide)⟩

end Emitters

end LotBridge
