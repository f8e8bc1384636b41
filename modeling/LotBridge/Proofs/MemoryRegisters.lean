import LotBridge.Proofs.GatewayFrames
import LotBridge.Proofs.DispatchWrites
import LotBridge.Gateway.Memory

/-!
# The registers of a gateway in memory follow its acknowledged writes

A test bench injects faults into a gateway in memory: it makes it
unreachable, resets the next connections, refuses the next writes. It may
switch them at any time, so between any two requests. `Gateway.Switched`
says that of any gateway whose state holds a gateway in memory: every request
is served as the gateway in memory serves it once its faults are set to some
value. The gateway in memory itself is one (its faults are never switched),
and so is `MemoryGateway.scheduled`, whose faults follow a schedule, one entry
per request.

Whatever the faults, such a gateway answers every request, and keeps a record
of the writes it acknowledged (`Gateway.Switched.ackLog`). Its registers hold
what those writes left: a register's value is the value of its last
acknowledged write, or the value it had before if there was none
(`MemoryGateway.Tracks`, kept by every request: `Gateway.Switched.keeps_tracks`).
The one thing this needs is that the registers all live in one namespace, the
plant's, where the gateway creates them: a write is acknowledged only for a
register that exists, so only there.

## Main definitions

* `MemoryGateway.Faults`, `MemoryGateway.inject`, `Gateway.Switched`.
* `MemoryGateway.scheduled`: faults switched by a schedule.
* `MemoryGateway.Tracks`: the registers hold what the writes left.
-/

namespace LotBridge

theorem RegisterKey.activeLot_ne_lastUpdated (l : Line) (c : Component) :
    RegisterKey.activeLot l c ≠ RegisterKey.lastUpdated := by
  cases l <;> cases c <;> decide

namespace MemoryGateway

/-! ## Faults -/

/-- The faults a test bench injects into a gateway in memory. -/
structure Faults where
  unreachable : Bool
  failingConnects : Nat
  failingWrites : Nat

/-- The faults a gateway in memory has. -/
def faults (g : MemoryGateway) : Faults := ⟨g.unreachable, g.failingConnects, g.failingWrites⟩

/-- A gateway in memory with its faults set. -/
def inject (g : MemoryGateway) (f : Faults) : MemoryGateway :=
  { g with unreachable := f.unreachable, failingConnects := f.failingConnects,
           failingWrites := f.failingWrites }

@[simp] theorem inject_values (g : MemoryGateway) (f : Faults) : (g.inject f).values = g.values := rfl

@[simp] theorem inject_writes (g : MemoryGateway) (f : Faults) : (g.inject f).writes = g.writes := rfl

theorem inject_faults (g : MemoryGateway) : g.inject g.faults = g := rfl

end MemoryGateway

/-- A gateway whose state holds a gateway in memory, `mem`, and that serves
every request as that gateway in memory does once its faults are set to some
value: a gateway in memory whose faults may be switched before any request. -/
structure Gateway.Switched {σ : Type} (gw : Gateway σ) (mem : σ → MemoryGateway) : Prop where
  connect : ∀ c s, ∃ f, Prod.map id mem (gw.connect c s) = MemoryGateway.connect c ((mem s).inject f)
  namespaces : ∀ s, ∃ f,
    Prod.map id mem (gw.namespaces s) = MemoryGateway.gateway.namespaces ((mem s).inject f)
  read : ∀ a s, ∃ f, Prod.map id mem (gw.read a s) = MemoryGateway.read a ((mem s).inject f)
  write : ∀ a v s, ∃ f, Prod.map id mem (gw.write a v s) = MemoryGateway.write a v ((mem s).inject f)
  close : ∀ s, ∃ f, Prod.map id mem (gw.close s) = MemoryGateway.gateway.close ((mem s).inject f)

namespace MemoryGateway

/-- A gateway in memory whose faults are never switched is switched with the
faults it has. -/
theorem gateway_switched : gateway.Switched id :=
  ⟨fun _ g => ⟨g.faults, rfl⟩, fun g => ⟨g.faults, rfl⟩, fun _ g => ⟨g.faults, rfl⟩,
    fun _ _ g => ⟨g.faults, rfl⟩, fun g => ⟨g.faults, rfl⟩⟩

/-! ## Faults on a schedule -/

/-- Takes the next entry of a schedule of faults: the gateway's faults are set
to it if it holds faults, and kept if it holds none or the schedule is over. -/
def switch : MemoryGateway × List (Option Faults) → MemoryGateway × List (Option Faults)
  | (g, []) => (g, [])
  | (g, none :: rest) => (g, rest)
  | (g, some f :: rest) => (g.inject f, rest)

/-- Serves a request after taking the next entry of the schedule. -/
def serve {α : Type} (req : MemoryGateway → α × MemoryGateway) (s : MemoryGateway × List (Option Faults)) :
    α × (MemoryGateway × List (Option Faults)) :=
  ((req (switch s).1).1, ((req (switch s).1).2, (switch s).2))

/-- A gateway in memory whose faults a schedule switches, one entry before
each request. -/
def scheduled : Gateway (MemoryGateway × List (Option Faults)) where
  connect c := serve (connect c)
  namespaces := serve gateway.namespaces
  read a := serve (read a)
  write a v := serve (write a v)
  close := serve gateway.close
  release s := (s.1.leave, s.2)

/-- Taking an entry of the schedule only sets the faults. -/
theorem switch_inject (s : MemoryGateway × List (Option Faults)) : ∃ f, (switch s).1 = s.1.inject f := by
  obtain ⟨g, _ | ⟨_ | f, rest⟩⟩ := s
  · exact ⟨g.faults, rfl⟩
  · exact ⟨g.faults, rfl⟩
  · exact ⟨f, rfl⟩

theorem serve_switched {α : Type} (req : MemoryGateway → α × MemoryGateway)
    (s : MemoryGateway × List (Option Faults)) : ∃ f, Prod.map id Prod.fst (serve req s) = req (s.1.inject f) := by
  obtain ⟨f, hf⟩ := switch_inject s
  exact ⟨f, by rw [← hf]; rfl⟩

/-- A gateway in memory on a schedule of faults is switched. -/
theorem scheduled_switched : scheduled.Switched Prod.fst :=
  ⟨fun c s => serve_switched (connect c) s, fun s => serve_switched gateway.namespaces s,
    fun a s => serve_switched (read a) s, fun a v s => serve_switched (write a v) s,
    fun s => serve_switched gateway.close s⟩

/-! ## What each request does to the registers and the writes -/

theorem lookup_slot_eq {key s : Nat × String} (w : Int) (rest : List ((Nat × String) × Int))
    (h : key = s) : ((s, w) :: rest).lookup key = some w := by
  subst h
  exact List.lookup_cons_self

theorem lookup_slot_ne {key s : Nat × String} (w : Int) (rest : List ((Nat × String) × Int))
    (h : key ≠ s) : ((s, w) :: rest).lookup key = rest.lookup key := by
  have hne : (key == s) = false := by simpa using h
  simp [List.lookup_cons, hne]

/-- Where a register is stored: its slot's value changes and nothing else. -/
theorem lookup_store (ns : Nat) (name : String) (v : Int) (vs : List ((Nat × String) × Int))
    (key : Nat × String) :
    (store ns name v vs).lookup key = if key = (ns, name) then some v else vs.lookup key := by
  induction vs with
  | nil =>
    by_cases hk : key = (ns, name)
    · rw [store, lookup_slot_eq v [] hk, if_pos hk]
    · rw [store, lookup_slot_ne v [] hk, if_neg hk, List.lookup_nil]
  | cons x rest ih =>
    obtain ⟨s, w⟩ := x
    by_cases hs : s = (ns, name)
    · -- the slot is here: its value is replaced
      rw [store, if_pos hs]
      by_cases hk : key = (ns, name)
      · rw [lookup_slot_eq v rest (hk.trans hs.symm), if_pos hk]
      · have hks : key ≠ s := hs ▸ hk
        rw [lookup_slot_ne v rest hks, if_neg hk, lookup_slot_ne w rest hks]
    · -- the slot is further on
      rw [store, if_neg hs]
      by_cases hk : key = s
      · have hkn : key ≠ (ns, name) := hk ▸ hs
        rw [lookup_slot_eq w _ hk, if_neg hkn, lookup_slot_eq w rest hk]
      · rw [lookup_slot_ne w _ hk, lookup_slot_ne w rest hk, ih]

/-- Storing in a namespace keeps every slot in it. -/
theorem store_namespace {ns : Nat} {name : String} {v : Int} {vs : List ((Nat × String) × Int)}
    (hvs : ∀ x ∈ vs, x.1.1 = ns) : ∀ x ∈ store ns name v vs, x.1.1 = ns := by
  induction vs with
  | nil => simp [store]
  | cons y rest ih =>
    have hrest := ih fun x hx => hvs x (List.mem_cons_of_mem y hx)
    intro x hx
    by_cases hs : y.1 = (ns, name)
    · simp only [store, hs, if_true, List.mem_cons] at hx
      rcases hx with rfl | hx
      · rfl
      · exact hvs x (List.mem_cons_of_mem y hx)
    · simp only [store, hs, if_false, List.mem_cons] at hx
      rcases hx with rfl | hx
      · exact hvs _ List.mem_cons_self
      · exact hrest x hx

/-- A slot that is found lies in the namespace of all slots. -/
theorem namespace_of_lookup {ns : Nat} {vs : List ((Nat × String) × Int)} (hvs : ∀ x ∈ vs, x.1.1 = ns)
    {key : Nat × String} {v : Int} (h : vs.lookup key = some v) : key.1 = ns := by
  induction vs with
  | nil => simp at h
  | cons y rest ih =>
    obtain ⟨s, w⟩ := y
    by_cases hk : key = s
    · subst hk
      exact hvs _ List.mem_cons_self
    · rw [lookup_slot_ne w rest hk] at h
      exact ih (fun x hx => hvs x (List.mem_cons_of_mem _ hx)) h

theorem name_ne_of_ne {k k' : RegisterKey} (h : k ≠ k') : k.name ≠ k'.name := by
  intro hn
  apply h
  cases k
  cases k'
  simp only at hn
  rw [hn]

/-- A write stored in the plant's namespace, with `last_updated` stamped
after it, sets its register and leaves every other register but
`last_updated` as it was. -/
theorem lookup_stored (vs : List ((Nat × String) × Int)) (key k : RegisterKey) (v stamp : Int)
    (hk : k ≠ .lastUpdated) :
    (store 1 RegisterKey.lastUpdated.name stamp (store 1 key.name v vs)).lookup (1, k.name) =
      if k = key then some v else vs.lookup (1, k.name) := by
  have hlast : ((1, k.name) : Nat × String) ≠ (1, RegisterKey.lastUpdated.name) := by
    simpa using name_ne_of_ne hk
  rw [lookup_store, if_neg hlast, lookup_store]
  by_cases hkey : k = key
  · rw [if_pos (by rw [hkey]), if_pos hkey]
  · have hne : ((1, k.name) : Nat × String) ≠ (1, key.name) := by simpa using name_ne_of_ne hkey
    rw [if_neg hne, if_neg hkey]

theorem connect_answered (c : Config.Connection) (g : MemoryGateway) : ∃ r, (connect c g).1 = .answer r := by
  unfold connect
  dsimp only
  split
  · exact ⟨_, rfl⟩
  · split <;> exact ⟨_, rfl⟩

theorem read_answered (a : Address) (g : MemoryGateway) : ∃ r, (read a g).1 = .answer r := by
  unfold read
  split <;> exact ⟨_, rfl⟩

theorem connect_values (c : Config.Connection) (g : MemoryGateway) :
    (connect c g).2.values = g.values ∧ (connect c g).2.writes = g.writes := by
  unfold connect
  dsimp only
  split
  · exact ⟨rfl, rfl⟩
  · split <;> exact ⟨rfl, rfl⟩

theorem read_state (a : Address) (g : MemoryGateway) : (read a g).2 = g := by
  unfold read
  split <;> rfl

/-- A write is acknowledged, and then stores the value and stamps
`last_updated` in the register's namespace and logs the write; or it is
refused, and changes neither the registers nor the log. -/
theorem write_cases (a : Address) (v : Int) (g : MemoryGateway) :
    ((write a v g).1 = .answer (.ok ()) ∧ a.key ≠ .lastUpdated ∧
        (g.slot? a.namespaceIndex a.key.name).isSome ∧
        (write a v g).2.values =
          store a.namespaceIndex RegisterKey.lastUpdated.name g.stamp
            (store a.namespaceIndex a.key.name v g.values) ∧
        (write a v g).2.writes = g.writes ++ [(a.key, v)]) ∨
      (∃ e, (write a v g).1 = .answer (.error e) ∧
        (write a v g).2.values = g.values ∧ (write a v g).2.writes = g.writes) := by
  unfold write
  by_cases hlast : a.key = .lastUpdated
  · exact Or.inr ⟨.operation a.render "BadNotWritable", by simp [hlast], by simp [hlast], by simp [hlast]⟩
  · by_cases hslot : (g.slot? a.namespaceIndex a.key.name).isNone
    · exact Or.inr ⟨.operation a.render "BadNodeIdUnknown", by simp [hlast, hslot], by simp [hlast, hslot],
        by simp [hlast, hslot]⟩
    · by_cases hfail : g.failingWrites > 0
      · exact Or.inr ⟨.operation a.render "BadInternalError", by simp [hlast, hslot, hfail],
          by simp [hlast, hslot, hfail],
          by simp [hlast, hslot, hfail]⟩
      · refine Or.inl ⟨by simp [hlast, hslot, hfail], hlast, ?_, by simp [hlast, hslot, hfail],
          by simp [hlast, hslot, hfail]⟩
        exact Option.ne_none_iff_isSome.1 (by simpa using hslot)

/-! ## The registers follow the acknowledged writes -/

/-- Gateway `g` holds what its acknowledged writes since `g₀` left: its slots
all lie in the plant's namespace, its log extends that of `g₀` by some
writes, and every register but `last_updated` has the value of its last write
among them, or its value in `g₀` if there was none. -/
def Tracks (g₀ g : MemoryGateway) : Prop :=
  (∀ x ∈ g.values, x.1.1 = 1) ∧
    ∃ ws, g.writes = g₀.writes ++ ws ∧
      ∀ k, k ≠ .lastUpdated → g.value k = ((writesTo k ws).getLast?).or (g₀.value k)

/-- A gateway whose slots lie in the plant's namespace holds what no write
left. -/
theorem tracks_refl {g₀ : MemoryGateway} (h : ∀ x ∈ g₀.values, x.1.1 = 1) : Tracks g₀ g₀ :=
  ⟨h, [], by simp, fun k _ => by simp⟩

/-- A new gateway has its registers in the plant's namespace. -/
theorem create_namespace (uri : String) (stamp : Nat) : ∀ x ∈ (create uri stamp).values, x.1.1 = 1 := by
  simp [create]

/-- `Tracks` reads only the registers and the log. -/
theorem Tracks.congr {g₀ g g' : MemoryGateway} (hv : g'.values = g.values) (hw : g'.writes = g.writes)
    (h : Tracks g₀ g) : Tracks g₀ g' := by
  obtain ⟨hns, ws, hws, hval⟩ := h
  refine ⟨hv ▸ hns, ws, hw ▸ hws, fun k hk => ?_⟩
  rw [← hval k hk]
  simp [value, slot?, hv]

/-- An acknowledged write keeps `Tracks`: it lands in the plant's namespace,
where it sets its register and `last_updated` and no other register. -/
theorem Tracks.write {g₀ g : MemoryGateway} (h : Tracks g₀ g) (a : Address) (v : Int)
    (hslot : (g.slot? a.namespaceIndex a.key.name).isSome) :
    Tracks g₀ { g with
      values := store a.namespaceIndex RegisterKey.lastUpdated.name g.stamp
        (store a.namespaceIndex a.key.name v g.values)
      writes := g.writes ++ [(a.key, v)] } := by
  obtain ⟨hns, ws, hws, hval⟩ := h
  -- the register exists, so it lies in the plant's namespace
  obtain ⟨x, hx⟩ := Option.isSome_iff_exists.1 hslot
  have hone : a.namespaceIndex = 1 := namespace_of_lookup hns hx
  have hvals : ∀ x ∈ store a.namespaceIndex RegisterKey.lastUpdated.name g.stamp
      (store a.namespaceIndex a.key.name v g.values), x.1.1 = 1 := by
    rw [hone]
    exact store_namespace (store_namespace hns)
  refine ⟨hvals, ws ++ [(a.key, v)], by rw [hws, List.append_assoc], ?_⟩
  intro k hk
  have hpost : value { g with
      values := store a.namespaceIndex RegisterKey.lastUpdated.name g.stamp
        (store a.namespaceIndex a.key.name v g.values)
      writes := g.writes ++ [(a.key, v)] } k = if k = a.key then some v else g.value k := by
    rw [value, slot?, hone, lookup_stored g.values a.key k v g.stamp hk]
    rfl
  rw [hpost, writesTo_append]
  by_cases hka : k = a.key
  · subst hka
    simp [writesTo]
  · have hnil : writesTo k [(a.key, v)] = [] := writesTo_eq_nil (by simp) (Ne.symm hka)
    rw [if_neg hka, hnil, List.append_nil, hval k hk]

end MemoryGateway

namespace Gateway.Switched

/-- The reply and the held gateway in memory of a switched request. -/
theorem parts {σ α : Type} {mem : σ → MemoryGateway} {p : α × σ} {q : α × MemoryGateway}
    (h : Prod.map id mem p = q) : p.1 = q.1 ∧ mem p.2 = q.2 :=
  ⟨congrArg Prod.fst h, congrArg Prod.snd h⟩

variable {σ : Type} {gw : Gateway σ} {mem : σ → MemoryGateway} (hsw : gw.Switched mem)
include hsw

/-- A switched gateway answers every connection, read and write. -/
theorem answers : gw.Answers where
  connect c s := by
    obtain ⟨f, h⟩ := hsw.connect c s
    obtain ⟨r, hr⟩ := MemoryGateway.connect_answered c ((mem s).inject f)
    rw [(parts h).1, hr]
    nofun
  read a s := by
    obtain ⟨f, h⟩ := hsw.read a s
    obtain ⟨r, hr⟩ := MemoryGateway.read_answered a ((mem s).inject f)
    rw [(parts h).1, hr]
    nofun
  write a v s := by
    obtain ⟨f, h⟩ := hsw.write a v s
    rw [(parts h).1]
    rcases MemoryGateway.write_cases a v ((mem s).inject f) with ⟨hok, -⟩ | ⟨e, herr, -⟩
    · rw [hok]; nofun
    · rw [herr]; nofun

/-- The log of a switched gateway's held gateway in memory is its record of
acknowledged writes. -/
def ackLog : gw.AckLog where
  acks s := (mem s).writes
  connect c s := by
    obtain ⟨f, h⟩ := hsw.connect c s
    rw [(parts h).2, (MemoryGateway.connect_values c _).2, MemoryGateway.inject_writes]
  namespaces s := by
    obtain ⟨f, h⟩ := hsw.namespaces s
    rw [(parts h).2]
    rfl
  read a s := by
    obtain ⟨f, h⟩ := hsw.read a s
    rw [(parts h).2, MemoryGateway.read_state, MemoryGateway.inject_writes]
  close s := by
    obtain ⟨f, h⟩ := hsw.close s
    rw [(parts h).2]
    rfl
  write_ok a v s hok := by
    obtain ⟨f, h⟩ := hsw.write a v s
    rw [(parts h).1] at hok
    rw [(parts h).2]
    rcases MemoryGateway.write_cases a v ((mem s).inject f) with ⟨-, -, -, -, hw⟩ | ⟨e, herr, -, -⟩
    · rw [hw, MemoryGateway.inject_writes]
    · rw [herr] at hok
      cases hok
  write_refused a v s hno := by
    obtain ⟨f, h⟩ := hsw.write a v s
    rw [(parts h).1] at hno
    rw [(parts h).2]
    rcases MemoryGateway.write_cases a v ((mem s).inject f) with ⟨hok, -⟩ | ⟨e, -, -, hw⟩
    · exact absurd hok hno
    · rw [hw, MemoryGateway.inject_writes]

/-- **The registers follow the acknowledged writes, whatever the faults.**
Every request of a switched gateway keeps its held gateway in memory holding
what its acknowledged writes since `g₀` left. -/
theorem keeps_tracks (g₀ : MemoryGateway) : gw.Keeps fun s => MemoryGateway.Tracks g₀ (mem s) where
  connect c s hs := by
    obtain ⟨f, h⟩ := hsw.connect c s
    have hvw := MemoryGateway.connect_values c ((mem s).inject f)
    rw [(parts h).2]
    exact hs.congr (by rw [hvw.1, MemoryGateway.inject_values]) (by rw [hvw.2, MemoryGateway.inject_writes])
  namespaces s hs := by
    obtain ⟨f, h⟩ := hsw.namespaces s
    rw [(parts h).2]
    exact hs.congr rfl rfl
  read a s hs := by
    obtain ⟨f, h⟩ := hsw.read a s
    rw [(parts h).2, MemoryGateway.read_state]
    exact hs.congr rfl rfl
  write a v s hs := by
    obtain ⟨f, h⟩ := hsw.write a v s
    rw [(parts h).2]
    rcases MemoryGateway.write_cases a v ((mem s).inject f) with
      ⟨-, -, hslot, hv, hw⟩ | ⟨e, -, hv, hw⟩
    · -- an acknowledged write: the faults were set, then the register written
      have hinj : MemoryGateway.Tracks g₀ ((mem s).inject f) := hs.congr rfl rfl
      exact (hinj.write a v hslot).congr hv hw
    · exact hs.congr (by rw [hv, MemoryGateway.inject_values]) (by rw [hw, MemoryGateway.inject_writes])
  close s hs := by
    obtain ⟨f, h⟩ := hsw.close s
    rw [(parts h).2]
    exact hs.congr rfl rfl

end Gateway.Switched

end LotBridge
