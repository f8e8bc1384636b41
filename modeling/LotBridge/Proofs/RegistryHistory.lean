import LotBridge.Registry.Command

/-!
# The registry follows the history of each line

Every call to the registry is about one line at most, and the registry keeps
one slot per line. Seen from one line, the registry is a cell: a successful
activation puts its lot there, and a deactivation or a completion that finds a
lot takes it off. Calls on the other line and changes of the listeners never
touch it. Every change of the cell is sent to the equipment once, in the order
of the changes, and nothing else is sent; a call that is turned down changes
nothing and sends, records and announces nothing.

A run of calls is recorded as steps, each with the registry it found and the
one it left. The history of a line is the list of changes its steps made
(`Registry.Step.change`), and `Registry.run_follows_lineHistory` reads the
slots and the dispatch log of the whole run off it.

The activation reads the repository through any `Lookup`, which may differ
from call to call: the lot put on a line is a snapshot of the record that the
lookup of its own activation returned.

## Main definitions

* `shownId`: the lot id a line shows the equipment.
* `Registry.Call`, `Registry.Step`, `Registry.run`: runs of calls.
* `Registry.Step.change`, `Registry.Step.refused`, `Registry.dispatchedTo`.
-/

namespace LotBridge

/-- The lot id the equipment should show for a line: the id of its lot, `0`
when it has none. -/
def shownId (lot : Option ActiveLot) : Nat := (lot.map (·.lotId)).getD 0

namespace Registry

/-! ## The operations, one outcome at a time -/

section Operations

variable {reg : Registry} {lookup : Lookup} {l : Line} {lotId now count : Nat}

theorem activate_of_lookup_error {cause : RepositoryError} (h : lookup lotId = .error cause) :
    reg.activate lookup l lotId now = (.error (.lotLookup lotId cause), reg, {}) := by
  simp [activate, h]

theorem activate_of_mismatch {r : LotRecord} (h : lookup lotId = .ok r) (hne : r.id ≠ lotId) :
    reg.activate lookup l lotId now = (.error (.lotMismatch lotId r.id), reg, {}) := by
  simp [activate, h, hne]

theorem activate_of_found {r : LotRecord} (h : lookup lotId = .ok r) (heq : r.id = lotId) :
    reg.activate lookup l lotId now =
      (.ok (ActiveLot.ofRecord l r now), reg.setSlot l (some (ActiveLot.ofRecord l r now)),
        { dispatched := [(l, lotId)],
          deliveries := reg.listeners.notify (.activated (ActiveLot.ofRecord l r now) (reg.slot l)) }) := by
  simp [activate, h, heq, ActiveLot.ofRecord]

theorem deactivate_of_empty (h : reg.slot l = none) : reg.deactivate l = (false, reg, {}) := by
  simp [deactivate, h]

theorem deactivate_of_active {lot : ActiveLot} (h : reg.slot l = some lot) :
    reg.deactivate l = (true, reg.setSlot l none,
      { dispatched := [(l, 0)], deliveries := reg.listeners.notify (.deactivated l lot) }) := by
  simp [deactivate, h]

theorem complete_of_empty (h : reg.slot l = none) : reg.complete l count now = (false, reg, {}) := by
  simp [complete, h]

theorem complete_of_active {lot : ActiveLot} (h : reg.slot l = some lot) :
    reg.complete l count now = (true, reg.setSlot l none,
      { dispatched := [(l, 0)], completions := [Completion.ofActive lot count now],
        deliveries := reg.listeners.notify (.completed lot count) ++
          reg.listeners.notify (.deactivated l lot) }) := by
  simp [complete, h, deactivate_of_active h, Effects.append]

@[simp] theorem slot_register (reg : Registry) (l : Line) : reg.register.2.slot l = reg.slot l := by
  cases l <;> rfl

@[simp] theorem slot_unregisterKnown (reg : Registry) (id : Nat) (l : Line) :
    (reg.unregisterKnown id).2.slot l = reg.slot l := by
  cases l <;> rfl

/-- The active lots are the slots of the lines, line one first. -/
theorem activeLots_eq (reg : Registry) :
    reg.activeLots = (reg.slot .one).toList ++ (reg.slot .two).toList := by
  simp only [activeLots, Line.all, List.filterMap_cons, List.filterMap_nil]
  cases reg.slot .one <;> cases reg.slot .two <;> rfl

end Operations

/-! ## Runs of calls -/

/-- A call that changes the registry or its listeners, with what it reads from
outside the registry: the lookup an activation makes, and the clock. -/
inductive Call where
  | activate (lookup : Lookup) (line : Line) (lotId now : Nat)
  | deactivate (line : Line)
  | complete (line : Line) (count now : Nat)
  | register
  | unregister (id : Nat)

/-- The line a call is about, if any. -/
def Call.line? : Call → Option Line
  | .activate _ l _ _ | .deactivate l | .complete l _ _ => some l
  | .register | .unregister _ => none

/-- Carries out a call. -/
def call (reg : Registry) : Call → RegistryReply × Registry × Effects
  | .activate lookup l lotId now =>
    let (r, reg, e) := reg.activate lookup l lotId now
    (.activated r, reg, e)
  | .deactivate l => let (b, reg, e) := reg.deactivate l; (.done b, reg, e)
  | .complete l count now => let (b, reg, e) := reg.complete l count now; (.done b, reg, e)
  | .register => let (id, reg) := reg.register; (.listener id, reg, {})
  | .unregister id => let (b, reg) := reg.unregisterKnown id; (.done b, reg, {})

/-- One call of a run: the registry it found, the call, what it gave back,
what it sent, recorded and announced, and the registry it left. -/
structure Step where
  before : Registry
  call : Call
  reply : RegistryReply
  effects : Effects
  after : Registry

/-- The step of a call made on a registry. -/
def Step.of (reg : Registry) (c : Call) : Step :=
  ⟨reg, c, (reg.call c).1, (reg.call c).2.2, (reg.call c).2.1⟩

/-- Carries out calls in order: the steps, and the registry at the end. -/
def run (reg : Registry) : List Call → List Step × Registry
  | [] => ([], reg)
  | c :: cs => ((Step.of reg c) :: (run (Step.of reg c).after cs).1, (run (Step.of reg c).after cs).2)

@[simp] theorem run_nil (reg : Registry) : run reg [] = ([], reg) := rfl

@[simp] theorem run_cons (reg : Registry) (c : Call) (cs : List Call) :
    run reg (c :: cs) = ((Step.of reg c) :: (run (Step.of reg c).after cs).1,
      (run (Step.of reg c).after cs).2) := rfl

/-- The change a step made to line `l`: the lot that a successful activation
put on it, or `none` when a deactivation or a completion took its lot off. -/
def Step.change (l : Line) (s : Step) : Option (Option ActiveLot) :=
  match s.call, s.reply with
  | .activate _ l' _ _, .activated (.ok lot) => if l' = l then some (some lot) else none
  | .deactivate l', .done true => if l' = l then some none else none
  | .complete l' _ _, .done true => if l' = l then some none else none
  | _, _ => none

/-- A step that was turned down: an activation whose lookup failed or found
another lot, or a deactivation or completion of an empty line. -/
def Step.refused (s : Step) : Prop :=
  match s.call, s.reply with
  | .activate .., .activated (.error _) => True
  | .deactivate _, .done false => True
  | .complete .., .done false => True
  | _, _ => False

/-- The lot ids a step sent for line `l`, in order. -/
def Step.sentTo (l : Line) (s : Step) : List Nat :=
  s.effects.dispatched.filterMap fun d => if d.1 = l then some d.2 else none

/-- The lot ids a run sent for line `l`, in order. -/
def dispatchedTo (l : Line) (steps : List Step) : List Nat :=
  (steps.flatMap (·.effects.dispatched)).filterMap fun d => if d.1 = l then some d.2 else none

theorem dispatchedTo_cons (l : Line) (s : Step) (steps : List Step) :
    dispatchedTo l (s :: steps) = s.sentTo l ++ dispatchedTo l steps := by
  simp [dispatchedTo, Step.sentTo, List.filterMap_append]

/-! ## What one step does -/

section OneStep

variable (reg : Registry)

/-- Every call of a run is one of these: a change of one line, made and sent;
or a step that leaves every slot as it was and sends nothing. -/
theorem Step.of_cases (c : Call) :
    (∃ l v, (Step.of reg c).after = reg.setSlot l v ∧ c.line? = some l ∧
        (Step.of reg c).effects.dispatched = [(l, shownId v)] ∧
        ∀ l', (Step.of reg c).change l' = if l = l' then some v else none) ∨
      ((∀ l', (Step.of reg c).after.slot l' = reg.slot l') ∧
        (Step.of reg c).effects.dispatched = [] ∧ ∀ l', (Step.of reg c).change l' = none) := by
  cases c with
  | activate lookup l lotId now =>
    cases hl : lookup lotId with
    | error cause =>
      right
      simp [Step.of, Registry.call, Step.change, activate_of_lookup_error hl]
    | ok r =>
      by_cases heq : r.id = lotId
      · left
        refine ⟨l, some (ActiveLot.ofRecord l r now), ?_, rfl, ?_, fun l' => ?_⟩
        · simp [Step.of, Registry.call, activate_of_found hl heq]
        · simp [Step.of, Registry.call, activate_of_found hl heq, shownId, ActiveLot.ofRecord, heq]
        · simp [Step.of, Registry.call, Step.change, activate_of_found hl heq]
      · right
        simp [Step.of, Registry.call, Step.change, activate_of_mismatch hl heq]
  | deactivate l =>
    cases hs : reg.slot l with
    | none =>
      right
      simp [Step.of, Registry.call, Step.change, deactivate_of_empty hs]
    | some lot =>
      left
      refine ⟨l, none, ?_, rfl, ?_, fun l' => ?_⟩ <;>
        simp [Step.of, Registry.call, Step.change, deactivate_of_active hs, shownId]
  | complete l count now =>
    cases hs : reg.slot l with
    | none =>
      right
      simp [Step.of, Registry.call, Step.change, complete_of_empty hs]
    | some lot =>
      left
      refine ⟨l, none, ?_, rfl, ?_, fun l' => ?_⟩ <;>
        simp [Step.of, Registry.call, Step.change, complete_of_active hs, shownId]
  | register =>
    right
    simp [Step.of, Registry.call, Step.change]
  | unregister id =>
    right
    simp [Step.of, Registry.call, Step.change]

@[simp] theorem Step.before_of (c : Call) : (Step.of reg c).before = reg := rfl

@[simp] theorem Step.call_of (c : Call) : (Step.of reg c).call = c := rfl

/-- A step leaves the slot of a line as it was, unless it changed the line. -/
theorem Step.slot_after (c : Call) (l : Line) :
    (Step.of reg c).after.slot l = ((Step.of reg c).change l).getD (reg.slot l) := by
  rcases Step.of_cases reg c with ⟨l₀, v, hafter, -, -, hchange⟩ | ⟨hslot, -, hchange⟩
  · rw [hafter, hchange l]
    by_cases hl : l₀ = l
    · subst hl
      simp [slot_setSlot]
    · simp [hl, slot_setSlot_ne reg l₀ l (Ne.symm hl)]
  · simp [hslot l, hchange l]

/-- What a step sends for a line is its change of that line. -/
theorem Step.sentTo_of (c : Call) (l : Line) :
    (Step.of reg c).sentTo l = ((Step.of reg c).change l).toList.map shownId := by
  rcases Step.of_cases reg c with ⟨l₀, v, -, -, hsent, hchange⟩ | ⟨-, hsent, hchange⟩
  · rw [Step.sentTo, hsent, hchange l]
    by_cases hl : l₀ = l <;> simp [hl]
  · simp [Step.sentTo, hsent, hchange l]

/-- A step sends only for the line its call is about. -/
theorem Step.line_of_dispatched (c : Call) :
    ∀ d ∈ (Step.of reg c).effects.dispatched, c.line? = some d.1 := by
  rcases Step.of_cases reg c with ⟨l₀, v, -, hline, hsent, -⟩ | ⟨-, hsent, -⟩
  · intro d hd
    rw [hsent, List.mem_singleton] at hd
    rw [hd, hline]
  · simp [hsent]

/-- A call that is turned down leaves the registry and its listeners as they
were, and sends, records and announces nothing. -/
theorem Step.refused_of (c : Call) (h : (Step.of reg c).refused) :
    (Step.of reg c).after = reg ∧ (Step.of reg c).effects = {} := by
  cases c with
  | activate lookup l lotId now =>
    cases hl : lookup lotId with
    | error cause => simp [Step.of, Registry.call, activate_of_lookup_error hl]
    | ok r =>
      by_cases heq : r.id = lotId
      · simp [Step.refused, Step.of, Registry.call, activate_of_found hl heq] at h
      · simp [Step.of, Registry.call, activate_of_mismatch hl heq]
  | deactivate l =>
    cases hs : reg.slot l with
    | none => simp [Step.of, Registry.call, deactivate_of_empty hs]
    | some lot => simp [Step.refused, Step.of, Registry.call, deactivate_of_active hs] at h
  | complete l count now =>
    cases hs : reg.slot l with
    | none => simp [Step.of, Registry.call, complete_of_empty hs]
    | some lot => simp [Step.refused, Step.of, Registry.call, complete_of_active hs] at h
  | register => simp [Step.refused] at h
  | unregister id => simp [Step.refused] at h

/-- The lot a successful activation puts on its line is built from the record
that its own lookup returned, at the time of the call. -/
theorem Step.activated_of {lookup : Lookup} {l : Line} {lotId now : Nat} {lot : ActiveLot}
    (h : (Step.of reg (.activate lookup l lotId now)).reply = .activated (.ok lot)) :
    ∃ r, lookup lotId = .ok r ∧ r.id = lotId ∧ lot = ActiveLot.ofRecord l r now := by
  cases hl : lookup lotId with
  | error cause => simp [Step.of, Registry.call, activate_of_lookup_error hl] at h
  | ok r =>
    by_cases heq : r.id = lotId
    · simp only [Step.of, Registry.call, activate_of_found hl heq, RegistryReply.activated.injEq,
        Except.ok.injEq] at h
      exact ⟨r, rfl, heq, h.symm⟩
    · simp [Step.of, Registry.call, activate_of_mismatch hl heq] at h

end OneStep

/-! ## What a run does -/

section WholeRun

/-- Every step of a run is the step of one of its calls, made on the registry
the steps before it left. -/
theorem mem_run {reg : Registry} {cs : List Call} {s : Step} (h : s ∈ (run reg cs).1) :
    ∃ reg' c, c ∈ cs ∧ s = Step.of reg' c := by
  induction cs generalizing reg with
  | nil => simp at h
  | cons c cs ih =>
    rw [run_cons, List.mem_cons] at h
    rcases h with rfl | h
    · exact ⟨reg, c, List.mem_cons_self, rfl⟩
    · obtain ⟨reg', c', hc', rfl⟩ := ih h
      exact ⟨reg', c', List.mem_cons_of_mem c hc', rfl⟩

/-- The slot of a line after a run is the last change the run made to it, or
the slot before the run if it made none. -/
theorem slot_run (reg : Registry) (cs : List Call) (l : Line) :
    (run reg cs).2.slot l = (((run reg cs).1.filterMap (·.change l)).getLast?).getD (reg.slot l) := by
  induction cs generalizing reg with
  | nil => rfl
  | cons c cs ih =>
    have hafter := Step.slot_after reg c l
    rw [run_cons, List.filterMap_cons, ih]
    cases hc : (Step.of reg c).change l with
    | none => simp [hafter, hc]
    | some v => simp [hafter, hc, List.getLast?_cons]

/-- A run sends for each line exactly the changes it made to it, in order. -/
theorem dispatchedTo_run (reg : Registry) (cs : List Call) (l : Line) :
    dispatchedTo l (run reg cs).1 = ((run reg cs).1.filterMap (·.change l)).map shownId := by
  induction cs generalizing reg with
  | nil => rfl
  | cons c cs ih =>
    rw [run_cons, dispatchedTo_cons, ih, Step.sentTo_of, List.filterMap_cons]
    cases (Step.of reg c).change l <;> simp

end WholeRun

@[simp] theorem slot_empty (l : Line) : ({} : Registry).slot l = none := by
  cases l <;> rfl

@[simp] theorem shownId_none : shownId none = 0 := rfl

/-- The last value a run sent for a line is the id the line shows after it. -/
theorem last_dispatchedTo_run (reg : Registry) (cs : List Call) (l : Line) :
    ((dispatchedTo l (run reg cs).1).getLast?).getD (shownId (reg.slot l)) =
      shownId ((run reg cs).2.slot l) := by
  rw [dispatchedTo_run, slot_run, List.getLast?_map]
  cases ((run reg cs).1.filterMap (·.change l)).getLast? <;> rfl

/-- **The registry follows the history of each line.** After any run of calls
on a new registry: the slot of each line holds the lot of the last change made
to it, and nothing if there was none, and the active lots list line one first;
the lot a successful activation puts on its line is built from the record its
own lookup returned, at its own time; each line is sent exactly its changes, in
order, so the last value sent for a line is the id of its lot, or `0` when it is
empty; nothing is sent for a line a call is not about; and a call that is
turned down changes nothing, and sends, records and announces nothing. -/
theorem run_follows_lineHistory (calls : List Call) :
    let steps := (run {} calls).1
    let fin := (run {} calls).2
    (∀ l, fin.slot l = ((steps.filterMap (·.change l)).getLast?).getD none) ∧
    fin.activeLots = (fin.slot .one).toList ++ (fin.slot .two).toList ∧
    (∀ s ∈ steps, ∀ lookup l lotId now lot, s.call = .activate lookup l lotId now →
      s.reply = .activated (.ok lot) →
      ∃ r, lookup lotId = .ok r ∧ r.id = lotId ∧ lot = ActiveLot.ofRecord l r now) ∧
    (∀ l, dispatchedTo l steps = (steps.filterMap (·.change l)).map shownId) ∧
    (∀ l, ((dispatchedTo l steps).getLast?).getD 0 = shownId (fin.slot l)) ∧
    (∀ s ∈ steps, ∀ d ∈ s.effects.dispatched, s.call.line? = some d.1) ∧
    (∀ s ∈ steps, s.refused → s.after = s.before ∧ s.effects = {}) := by
  intro steps fin
  refine ⟨fun l => ?_, activeLots_eq fin, ?_, fun l => dispatchedTo_run {} calls l,
    fun l => ?_, ?_, ?_⟩
  · rw [slot_run, slot_empty]
  · intro s hs lookup l lotId now lot hcall hreply
    obtain ⟨reg, c, -, rfl⟩ := mem_run hs
    rw [Step.call_of] at hcall
    subst hcall
    exact Step.activated_of reg hreply
  · simpa using last_dispatchedTo_run {} calls l
  · intro s hs d hd
    obtain ⟨reg, c, -, rfl⟩ := mem_run hs
    exact Step.line_of_dispatched reg c d hd
  · intro s hs hrefused
    obtain ⟨reg, c, -, rfl⟩ := mem_run hs
    exact Step.refused_of reg c hrefused

end Registry

end LotBridge
