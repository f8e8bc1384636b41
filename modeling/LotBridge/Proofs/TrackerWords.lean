import LotBridge.Proofs.CallPhases

/-!
# The words a phase tracker accepts

A tracker started fresh and fed any events accepts some of them and refuses
the rest. What it accepts is always a prefix of a word of

  `A* (connect connected resolved completed | giveUp)`, where
  `A = connect fault | connect connected fault | connect connected resolved fault`:

failed attempts, each stopped by a fault in one of the three working phases,
then a successful attempt or giving up. The tracker's counters read off that
word: the attempts are its `connect` events, and the phase of the last fault
is where the last failed attempt stopped.

The argument is one invariant, `Reached`, kept by every step: the accepted
events are the words of the failed attempts so far (`Phase.faultWord`) followed
by the word of the attempt under way, which the current phase fixes
(`Phase.openWord`).

## Main definitions

* `Phase.transitions`: the ten moves of the phase graph.
* `Phase.CallWord`: the words of `A* (S | G)`.
* `Tracker.run`, `Tracker.moves`: a run of events, and the events it accepted
  with the phase each was accepted in.

## Main statements

* `Tracker.step_cases`: what one step can do.
* `Tracker.reached_step`, `Tracker.reached_run`: the invariant along any run.
* `Tracker.run_follows_attemptWords`: the invariants of a fresh tracker.
-/

namespace LotBridge

namespace Phase

/-- The moves of the phase graph: phase, event, next phase. -/
def transitions : List (Phase × Event × Phase) :=
  [(.idle, .connect, .connecting), (.errored, .connect, .connecting),
   (.connecting, .connected, .namespaceResolving), (.namespaceResolving, .resolved, .ready),
   (.ready, .completed, .succeeded), (.connecting, .fault, .errored),
   (.namespaceResolving, .fault, .errored), (.ready, .fault, .errored),
   (.idle, .giveUp, .failed), (.errored, .giveUp, .failed)]

theorem next_eq_some_iff (p q : Phase) (e : Event) : p.next e = some q ↔ (p, e, q) ∈ transitions := by
  cases p <;> cases e <;> cases q <;> simp [next, transitions]

theorem next_eq_none_iff (p : Phase) (e : Event) : p.next e = none ↔ ∀ q, (p, e, q) ∉ transitions := by
  simp only [← next_eq_some_iff]
  exact Option.eq_none_iff_forall_ne_some

/-- The events of the attempt under way in phase `p`: how far it got since it
opened, or giving up. Between attempts, the word is empty. -/
def openWord : Phase → List Event
  | .connecting => [.connect]
  | .namespaceResolving => [.connect, .connected]
  | .ready => [.connect, .connected, .resolved]
  | .succeeded => [.connect, .connected, .resolved, .completed]
  | .failed => [.giveUp]
  | .idle | .errored => []

/-- The events of an attempt that failed in phase `p`. -/
def faultWord (p : Phase) : List Event := p.openWord ++ [.fault]

/-- The three ways an attempt fails: before the transport is up, before the
namespace is known, or in the read or write. -/
def failedAttempts : List (List Event) :=
  [[.connect, .fault], [.connect, .connected, .fault], [.connect, .connected, .resolved, .fault]]

/-- The words of `A* (S | G)`: failed attempts, then a successful attempt or
giving up. -/
def CallWord (w : List Event) : Prop :=
  ∃ as : List (List Event), (∀ a ∈ as, a ∈ failedAttempts) ∧
    (w = as.flatten ++ [.connect, .connected, .resolved, .completed] ∨ w = as.flatten ++ [.giveUp])

theorem faultWord_mem_failedAttempts {p : Phase} (hp : p.Working) : p.faultWord ∈ failedAttempts := by
  rcases hp with rfl | rfl | rfl <;> simp [faultWord, openWord, failedAttempts]

theorem count_connect_faultWord {p : Phase} (hp : p.Working) : p.faultWord.count .connect = 1 := by
  rcases hp with rfl | rfl | rfl <;> rfl

theorem count_connect_flatMap_faultWord {stops : List Phase} (h : ∀ p ∈ stops, p.Working) :
    (stops.flatMap faultWord).count .connect = stops.length := by
  induction stops with
  | nil => rfl
  | cons p stops ih =>
    rw [List.flatMap_cons, List.count_append, count_connect_faultWord (h p List.mem_cons_self),
      ih fun q hq => h q (List.mem_cons_of_mem p hq), List.length_cons, Nat.add_comm]

/-- The attempt under way is the beginning of a successful attempt or of
giving up. -/
theorem openWord_prefix (p : Phase) :
    p.openWord <+: [.connect, .connected, .resolved, .completed] ∨ p.openWord <+: [.giveUp] := by
  cases p <;> simp [openWord]

/-- Failed attempts followed by the beginning of the next are the beginning of
a word of `A* (S | G)`. -/
theorem callWord_of_openWord {stops : List Phase} (h : ∀ p ∈ stops, p.Working) (p : Phase) :
    ∃ w, CallWord w ∧ stops.flatMap faultWord ++ p.openWord <+: w := by
  have hattempts : ∀ a ∈ stops.map faultWord, a ∈ failedAttempts := by
    simp only [List.mem_map]
    rintro a ⟨q, hq, rfl⟩
    exact faultWord_mem_failedAttempts (h q hq)
  have hflat : (stops.map faultWord).flatten = stops.flatMap faultWord := List.flatMap_def.symm
  rcases openWord_prefix p with hs | hg
  · exact ⟨_, ⟨_, hattempts, .inl rfl⟩, by rwa [hflat, List.prefix_append_right_inj]⟩
  · exact ⟨_, ⟨_, hattempts, .inr rfl⟩, by rwa [hflat, List.prefix_append_right_inj]⟩

end Phase

namespace Tracker

/-- The tracker after a run of events. -/
def run (t : Tracker) : List Phase.Event → Tracker
  | [] => t
  | e :: es => (t.step e).2.run es

/-- The events a run accepted, each with the phase it was accepted in. -/
def moves (t : Tracker) : List Phase.Event → List (Phase × Phase.Event)
  | [] => []
  | e :: es => (if (t.step e).1 then [(t.phase, e)] else []) ++ (t.step e).2.moves es

/-! ## One step -/

/-- Everything a step can do: refuse the event and only count it as ignored,
or take one of the moves of the phase graph. -/
theorem step_cases (t : Tracker) (e : Phase.Event) :
    (t.phase.next e = none ∧ t.step e = (false, { t with ignored := t.ignored + 1 })) ∨
    ((t.phase = .idle ∨ t.phase = .errored) ∧ e = .connect ∧
      t.step e = (true, { t with phase := .connecting, attempts := t.attempts + 1 })) ∨
    (t.phase = .connecting ∧ e = .connected ∧ t.step e = (true, { t with phase := .namespaceResolving })) ∨
    (t.phase = .namespaceResolving ∧ e = .resolved ∧ t.step e = (true, { t with phase := .ready })) ∨
    (t.phase = .ready ∧ e = .completed ∧ t.step e = (true, { t with phase := .succeeded })) ∨
    (t.phase.Working ∧ e = .fault ∧
      t.step e = (true, { t with phase := .errored, failedIn := some t.phase })) ∨
    ((t.phase = .idle ∨ t.phase = .errored) ∧ e = .giveUp ∧ t.step e = (true, { t with phase := .failed })) := by
  obtain ⟨p, attempts, failedIn, ignored⟩ := t
  cases p <;> cases e <;> simp [step, Phase.next, Phase.Working]

/-- A step is refused exactly when the phase graph has no move for it. -/
theorem step_refused_iff (t : Tracker) (e : Phase.Event) : (t.step e).1 = false ↔ t.phase.next e = none := by
  cases h : t.phase.next e <;> simp [step, h]

/-- Invariant of a fresh tracker's runs: the accepted events are the words of
the attempts that failed, in the phases `stops`, then the word of the attempt
under way; the attempts are counted, and the last stop is remembered. -/
def Reached (t : Tracker) (ms : List (Phase × Phase.Event)) : Prop :=
  ∃ stops : List Phase, (∀ p ∈ stops, p.Working) ∧
    ms.map Prod.snd = stops.flatMap Phase.faultWord ++ t.phase.openWord ∧
    (ms.filter (·.2 = .fault)).map Prod.fst = stops ∧
    t.attempts = stops.length + t.phase.openWord.count .connect ∧
    t.failedIn = stops.getLast? ∧
    (t.phase = .errored → stops ≠ [])

theorem reached_fresh : Reached {} [] := ⟨[], by simp, rfl, rfl, rfl, rfl, by simp⟩

theorem openWord_of_between {p : Phase} (h : p = .idle ∨ p = .errored) : p.openWord = [] := by
  rcases h with rfl | rfl <;> rfl

section Moves

variable {t t' : Tracker} {ms : List (Phase × Phase.Event)}

/-- A refused event: nothing the invariant reads changes. -/
theorem Reached.keep (h : Reached t ms) (hp : t'.phase = t.phase) (ha : t'.attempts = t.attempts)
    (hf : t'.failedIn = t.failedIn) : Reached t' ms := by
  obtain ⟨stops, hw, hms, hfs, has, hl, he⟩ := h
  exact ⟨stops, hw, by rw [hms, hp], hfs, by rw [ha, has, hp], by rw [hf, hl], by rw [hp]; exact he⟩

/-- A move within an attempt, or giving up: the event extends the word of the
attempt under way. -/
theorem Reached.extend {e : Phase.Event} (h : Reached t ms)
    (hword : t'.phase.openWord = t.phase.openWord ++ [e]) (hfault : e ≠ .fault)
    (ha : t'.attempts = t.attempts + [e].count .connect) (hf : t'.failedIn = t.failedIn)
    (hp : t'.phase ≠ .errored) : Reached t' (ms ++ [(t.phase, e)]) := by
  obtain ⟨stops, hw, hms, hfs, has, hl, -⟩ := h
  refine ⟨stops, hw, ?_, ?_, ?_, by rw [hf, hl], fun he => absurd he hp⟩
  · rw [List.map_append, hms, hword]
    simp
  · simp [hfs, hfault]
  · rw [ha, has, hword, List.count_append]
    omega

/-- A fault: the attempt under way, with the fault, joins the failed ones. -/
theorem Reached.fault (h : Reached t ms) (hp : t.phase.Working) (hphase : t'.phase = .errored)
    (ha : t'.attempts = t.attempts) (hf : t'.failedIn = some t.phase) :
    Reached t' (ms ++ [(t.phase, .fault)]) := by
  obtain ⟨stops, hw, hms, hfs, has, -, -⟩ := h
  have hc : t.phase.openWord.count .connect = 1 := by
    rcases hp with hp | hp | hp <;> simp [hp, Phase.openWord]
  refine ⟨stops ++ [t.phase], ?_, ?_, ?_, ?_, by simp [hf], fun _ => by simp⟩
  · intro p hmem
    rcases List.mem_append.1 hmem with hmem | hmem
    · exact hw p hmem
    · rw [List.mem_singleton.1 hmem]
      exact hp
  · simp [hms, hphase, Phase.faultWord, Phase.openWord]
  · simp [hfs]
  · rw [ha, has, hc, hphase]
    simp [Phase.openWord]

end Moves

/-- One step keeps the invariant, the move it took appended. -/
theorem reached_step {t : Tracker} {ms : List (Phase × Phase.Event)} (h : Reached t ms) (e : Phase.Event) :
    Reached (t.step e).2 (ms ++ if (t.step e).1 then [(t.phase, e)] else []) := by
  rcases step_cases t e with
    ⟨-, hs⟩ | ⟨hp, rfl, hs⟩ | ⟨hp, rfl, hs⟩ | ⟨hp, rfl, hs⟩ | ⟨hp, rfl, hs⟩ | ⟨hp, rfl, hs⟩ | ⟨hp, rfl, hs⟩ <;>
    rw [hs] <;> simp only [if_true, Bool.false_eq_true, if_false, List.append_nil]
  case inl => exact h.keep rfl rfl rfl
  case inr.inl => exact h.extend (by rw [openWord_of_between hp]; rfl) (by simp) rfl rfl (by simp)
  case inr.inr.inl => exact h.extend (by simp [hp, Phase.openWord]) (by simp) (by simp) rfl (by simp)
  case inr.inr.inr.inl => exact h.extend (by simp [hp, Phase.openWord]) (by simp) (by simp) rfl (by simp)
  case inr.inr.inr.inr.inl => exact h.extend (by simp [hp, Phase.openWord]) (by simp) (by simp) rfl (by simp)
  case inr.inr.inr.inr.inr.inl => exact h.fault hp rfl rfl rfl
  case inr.inr.inr.inr.inr.inr =>
    exact h.extend (by rw [openWord_of_between hp]; rfl) (by simp) (by simp) rfl (by simp)

/-! ## Runs -/

theorem reached_run {t : Tracker} {ms : List (Phase × Phase.Event)} (h : Reached t ms) (es : List Phase.Event) :
    Reached (t.run es) (ms ++ t.moves es) := by
  induction es generalizing t ms with
  | nil => simpa [run, moves] using h
  | cons e es ih =>
    have := ih (reached_step h e)
    simpa [run, moves, List.append_assoc] using this

/-- In a terminal phase every event is refused, so the phase stays and nothing
more is accepted. -/
theorem run_of_terminal {t : Tracker} (h : t.phase.isTerminal = true) (es : List Phase.Event) :
    (t.run es).phase = t.phase ∧ t.moves es = [] := by
  induction es generalizing t with
  | nil => simp [run, moves]
  | cons e es ih =>
    have hs := step_refused t e (Phase.next_terminal _ h e)
    have := ih (t := { t with ignored := t.ignored + 1 }) h
    simpa [run, moves, hs] using this

/-- A fresh tracker fed any events: (i) an event is refused exactly when the
phase graph has no move for it, and a refused event changes neither the phase
nor the counters; (ii) the attempts are the accepted `connect` events;
(iii) the phase remembered is the one in which the last accepted fault was
accepted, a working phase, and there is none before any fault; (iv) the
terminal phases accept nothing more; (v) the accepted events are a prefix of a
word of `A* (S | G)`, `errored` comes only after a fault, and every phase but
`idle` and `failed` only after an attempt. -/
theorem run_follows_attemptWords (es : List Phase.Event) :
    let t := Tracker.run {} es
    let ms := Tracker.moves {} es
    (∀ e, ((t.step e).1 = false ↔ ∀ q, (t.phase, e, q) ∉ Phase.transitions) ∧
      ((t.step e).1 = false →
        (t.step e).2.phase = t.phase ∧ (t.step e).2.attempts = t.attempts ∧
          (t.step e).2.failedIn = t.failedIn)) ∧
    t.attempts = (ms.map Prod.snd).count .connect ∧
    t.failedIn = ((ms.filter (·.2 = .fault)).map Prod.fst).getLast? ∧
    (∀ p, t.failedIn = some p → p.Working) ∧
    (t.phase.isTerminal = true → ∀ es', (t.run es').phase = t.phase ∧ t.moves es' = []) ∧
    (∃ w, Phase.CallWord w ∧ ms.map Prod.snd <+: w) ∧
    (t.phase = .errored → t.failedIn.isSome) ∧
    (t.phase ≠ .idle → t.phase ≠ .failed → 1 ≤ t.attempts) := by
  intro t ms
  obtain ⟨stops, hw, hms, hf, ha, hl, he⟩ : Reached t ms := by
    simpa using reached_run reached_fresh es
  refine ⟨fun e => ⟨?_, ?_⟩, ?_, by rw [hl, hf], ?_, fun h => run_of_terminal h, ?_, ?_, ?_⟩
  · rw [step_refused_iff, Phase.next_eq_none_iff]
  · intro hr
    rcases step_cases t e with ⟨-, hs⟩ | ⟨-, -, hs⟩ | ⟨-, -, hs⟩ | ⟨-, -, hs⟩ | ⟨-, -, hs⟩ | ⟨-, -, hs⟩ |
      ⟨-, -, hs⟩ <;> simp_all
  · rw [hms, List.count_append, Phase.count_connect_flatMap_faultWord hw, ha]
  · intro p hp
    rw [hl] at hp
    exact hw p (List.mem_of_getLast? hp)
  · rw [hms]
    exact Phase.callWord_of_openWord hw t.phase
  · intro hp
    rw [hl]
    exact List.getLast?_isSome.2 (he hp)
  · intro hi hfl
    rw [ha]
    cases hp : t.phase
    · exact absurd hp hi
    · simp [Phase.openWord]
    · simp [Phase.openWord]
    · simp [Phase.openWord]
    · simp [Phase.openWord]
    · have := List.length_pos_iff.2 (he hp)
      omega
    · exact absurd hp hfl

end Tracker

end LotBridge
