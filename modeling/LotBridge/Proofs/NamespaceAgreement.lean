import LotBridge.Proofs.RegisterFiles
import LotBridge.Proofs.MemoryRegisters

/-!
# A controller and a gateway in memory agree on where the lines live

A controller looks for the registers under the index of its namespace URI in
the list the gateway publishes: the URI's first position there. A gateway in
memory created for URI `u` publishes the server namespace first and `u`
second, and holds the registers under index 1. The two agree exactly when `u`
is not the server namespace itself (`MemoryGateway.namespaceIndex_create`):
for that one URI the controller looks under index 0, where the gateway holds
no register (`MemoryGateway.serverNamespace_unserved`).

Where they agree and no fault is injected, the controller's register calls
answer as a register file starting at zero: every write succeeds, every read
gives the last value written to the register, or 0, and after each call no
connection is left open (`registerCalls_agree_inMemory`). The argument
follows one call: its first attempt connects, resolves index 1, reads or
writes the register and closes (`advance_serving`), each request keeping the
gateway `Serving` with one connection more or less, so the controller records
the call's result at once (`Controller.files_serving`). On the server
namespace every attempt fails and keeps the gateway `Misplaced`
(`MemoryGateway.refuses_misplaced`), so every register call fails
(`registerCalls_fail_onServerNamespace`).

## Main definitions

* `Serving`: a gateway in memory serving the lines with no fault.
* `Misplaced`: a gateway in memory created for the server namespace.
-/

namespace LotBridge

/-! ## Where the controller looks -/

namespace MemoryGateway

/-- A controller configured with the URI a gateway in memory was created for
resolves index 1, where the registers are, unless that URI is the server
namespace, which the gateway publishes first. -/
theorem namespaceIndex_create (u : String) (stamp : Nat) :
    namespaceIndexIn u (create u stamp).namespaces = if u = serverNamespace then .ok 0 else .ok 1 := by
  by_cases hu : u = serverNamespace
  · subst hu
    simp [namespaceIndexIn, create, List.findIdx?_cons, maxNamespaceIndex]
  · have hne : (serverNamespace == u) = false := beq_eq_false_iff_ne.2 (Ne.symm hu)
    simp only [namespaceIndexIn, create, List.findIdx?_cons, hne, beq_self_eq_true, if_neg hu]
    rfl

/-- Under index 0 a new gateway holds no register. -/
theorem slot_create_zero (u : String) (stamp : Nat) (name : String) : (create u stamp).slot? 0 name = none := by
  cases h : (create u stamp).slot? 0 name with
  | none => rfl
  | some v => exact absurd (namespace_of_lookup (create_namespace u stamp) h) Nat.zero_ne_one

/-- **The server namespace is resolved where nothing is served.** A
controller configured with the server namespace, on a gateway in memory
created for it, resolves index 0, and the gateway holds no register there. -/
theorem serverNamespace_unserved (stamp : Nat) :
    namespaceIndexIn serverNamespace (create serverNamespace stamp).namespaces = .ok 0 ∧
      ∀ name, (create serverNamespace stamp).slot? 0 name = none := by
  refine ⟨?_, slot_create_zero serverNamespace stamp⟩
  rw [namespaceIndex_create, if_pos rfl]

end MemoryGateway
/-! ## A gateway serving the lines -/

/-- A gateway in memory for URI `u` with no fault injected, `sessions`
connections open, and the active-lot registers holding `regs`. -/
structure Serving (u : String) (regs : RegisterKey → Int) (sessions : Nat) (g : MemoryGateway) : Prop where
  namespaces : g.namespaces = [MemoryGateway.serverNamespace, u]
  reachable : g.unreachable = false
  connectsPass : g.failingConnects = 0
  writesPass : g.failingWrites = 0
  open_eq : g.openSessions = sessions
  registers : ∀ l k, g.value (.activeLot l k) = some (regs (.activeLot l k))

theorem serving_create (u : String) (stamp : Nat) : Serving u (fun _ => 0) 0 (MemoryGateway.create u stamp) :=
  ⟨rfl, rfl, rfl, rfl, rfl, fun l k => MemoryGateway.value_create u stamp _ (by cases l <;> cases k <;> simp [RegisterKey.all])⟩

section Requests

variable {u : String} {regs : RegisterKey → Int} {n : Nat} {g : MemoryGateway}

theorem Serving.connect (hs : Serving u regs n g) (c : Config.Connection) :
    ∃ g₁, MemoryGateway.connect c g = (.answer (.ok ()), g₁) ∧ Serving u regs (n + 1) g₁ := by
  refine ⟨{ g with connects := g.connects + 1, openSessions := g.openSessions + 1 },
    by simp [MemoryGateway.connect, hs.reachable, hs.connectsPass], ?_⟩
  exact ⟨hs.namespaces, hs.reachable, hs.connectsPass, hs.writesPass, by simp [hs.open_eq], hs.registers⟩

theorem Serving.read (hs : Serving u regs n g) (l : Line) (k : Component) :
    MemoryGateway.read ⟨1, .activeLot l k⟩ g = (.answer (.ok (regs (.activeLot l k))), g) := by
  have hslot : g.slot? 1 (RegisterKey.activeLot l k).name = some (regs (.activeLot l k)) := hs.registers l k
  simp [MemoryGateway.read, hslot]

/-- A write of an active-lot register under index 1 is acknowledged and
writes the register file. -/
theorem Serving.write (hs : Serving u regs n g) (l : Line) (k : Component) (v : Int) :
    ∃ g₁, MemoryGateway.write ⟨1, .activeLot l k⟩ v g = (.answer (.ok ()), g₁) ∧
      Serving u (writeFile regs (.activeLot l k) v) n g₁ := by
  have hslot : g.slot? 1 (RegisterKey.activeLot l k).name = some (regs (.activeLot l k)) := hs.registers l k
  have hlast : RegisterKey.activeLot l k ≠ .lastUpdated := RegisterKey.activeLot_ne_lastUpdated l k
  refine ⟨{ g with
      values := MemoryGateway.store 1 RegisterKey.lastUpdated.name g.stamp
        (MemoryGateway.store 1 (RegisterKey.activeLot l k).name v g.values)
      writes := g.writes ++ [(.activeLot l k, v)] },
    by simp [MemoryGateway.write, hlast, hslot, hs.writesPass], ?_⟩
  refine ⟨hs.namespaces, hs.reachable, hs.connectsPass, hs.writesPass, hs.open_eq, fun l' k' => ?_⟩
  -- the written register takes the value, every other one keeps its own
  simp only [MemoryGateway.value, MemoryGateway.slot?]
  rw [MemoryGateway.lookup_stored g.values _ _ v g.stamp (RegisterKey.activeLot_ne_lastUpdated l' k')]
  by_cases hkey : RegisterKey.activeLot l' k' = .activeLot l k
  · rw [if_pos hkey, writeFile, if_pos hkey]
  · rw [if_neg hkey, writeFile, if_neg hkey]
    exact hs.registers l' k'

theorem Serving.close (hs : Serving u regs (n + 1) g) : Serving u regs n g.leave :=
  ⟨hs.namespaces, hs.reachable, hs.connectsPass, hs.writesPass, by simp [MemoryGateway.leave, hs.open_eq],
    hs.registers⟩

end Requests

/-! ## One call -/

section OneCall

variable {u : String} (hu : u ≠ MemoryGateway.serverNamespace) {conn : Config.Connection}
  (hconn : conn.namespaceUri = u)
include hu hconn

/-- **An attempt on a serving gateway does the job and closes.** It
connects, resolves index 1, reads or writes the register, and closes again:
the job's answer from the register file, and the gateway serving the file
after the job with no connection open. -/
theorem advance_serving {regs : RegisterKey → Int} {g : MemoryGateway} (hs : Serving u regs 0 g)
    (now : Nat) (t : Tracker) (l : Line) (k : Component) (v : Option Int) :
    ∃ g', Session.advance MemoryGateway.gateway conn now
        ⟨t, (⟨.activeLot l k, v⟩ : Job).work, .opening⟩ g =
      (.finished (.ok ((⟨.activeLot l k, v⟩ : Job).onFile regs).1)
        ((((t.step .connect).2.step .connected).2.step .resolved).2.step .completed).2, g') ∧
      Serving u ((⟨.activeLot l k, v⟩ : Job).onFile regs).2 0 g' := by
  obtain ⟨g₁, hc, hs₁⟩ := hs.connect conn
  -- the controller's URI is the gateway's, second in the list: index 1
  have hidx : namespaceIndexIn conn.namespaceUri g₁.namespaces = .ok 1 := by
    have hcreate := MemoryGateway.namespaceIndex_create u 0
    rw [if_neg hu] at hcreate
    rw [hs₁.namespaces, hconn]
    exact hcreate
  cases v with
  | none =>
    refine ⟨g₁.leave, ?_, hs₁.close⟩
    simp [Session.advance, Session.connected, Session.perform, Job.work, Job.onFile, MemoryGateway.gateway,
      hc, hidx, hs₁.read l k]
  | some v =>
    obtain ⟨g₂, hw, hs₂⟩ := hs₁.write l k v
    refine ⟨g₂.leave, ?_, hs₂.close⟩
    simp [Session.advance, Session.connected, Session.perform, Job.work, Job.onFile, MemoryGateway.gateway,
      hc, hidx, hw]

end OneCall

section Controller

variable {u : String} (hu : u ≠ MemoryGateway.serverNamespace) {c : Controller MemoryGateway}
  (hgw : c.gateway = MemoryGateway.gateway) (hconn : c.connection.namespaceUri = u)
include hu hgw hconn

/-- **Register jobs on a serving gateway answer as the register file**: a
call's first attempt does the job and closes, keeping the gateway serving. -/
theorem Controller.files_serving : c.Files (fun _ => True) (fun regs g => Serving u regs 0 g) := by
  intro regs st l k v hs _
  have hans : c.gateway.Answers := hgw ▸ MemoryGateway.gateway_switched.answers
  refine Controller.perform_of_advance hans _ st fun now => ?_
  obtain ⟨g', hadv, hs'⟩ := advance_serving hu hconn hs now {} l k v
  rw [hgw]
  exact ⟨_, g', hadv, hs'⟩

end Controller

/-- A controller configured with a namespace URI other than the server
namespace, on a new gateway in memory created for it, with no fault injected:
the controller resolves index 1, where the gateway holds the active-lot
registers, all zero; and any run of register calls answers as a register file
starting at zero: every write succeeds, every read gives the last value
written to its register or 0, and after each call no connection is left
open. -/
theorem registerCalls_agree_inMemory {u : String} (hu : u ≠ MemoryGateway.serverNamespace)
    (conn : Config.Connection) (hconn : conn.namespaceUri = u) (policy : Retry.Policy) (stamp : Nat)
    (cmds : List Command) (hcmds : ∀ cmd ∈ cmds, cmd.onRegisters = true) :
    let c : Controller MemoryGateway := ⟨MemoryGateway.gateway, conn, policy⟩
    let steps := c.execAll cmds { gate := MemoryGateway.create u stamp }
    namespaceIndexIn conn.namespaceUri (MemoryGateway.create u stamp).namespaces = .ok 1 ∧
      (∀ l k, (MemoryGateway.create u stamp).slot? 1 (RegisterKey.activeLot l k).name = some 0) ∧
      steps.map (·.1) = answersOnFile (fun _ => 0) cmds ∧ ∀ p ∈ steps, p.2.gate.openSessions = 0 := by
  intro c steps
  have hidx := MemoryGateway.namespaceIndex_create u stamp
  rw [if_neg hu] at hidx
  have hs₀ : Serving u (fun _ => 0) 0 ({ gate := MemoryGateway.create u stamp } : Controller.State _).gate :=
    serving_create u stamp
  obtain ⟨hanswers, hall⟩ := (Controller.files_serving hu (c := c) rfl hconn).execAll hs₀ cmds hcmds
    fun _ _ _ _ => trivial
  refine ⟨hconn ▸ hidx, (serving_create u stamp).registers, hanswers, fun p hp => ?_⟩
  obtain ⟨regs', hs⟩ := hall p hp
  exact hs.open_eq

/-! ## The server namespace -/

/-- A gateway in memory publishing the server namespace twice, with its
registers all under index 1: one created for the server namespace itself. -/
def Misplaced (g : MemoryGateway) : Prop :=
  g.namespaces = [MemoryGateway.serverNamespace, MemoryGateway.serverNamespace] ∧ ∀ x ∈ g.values, x.1.1 = 1

namespace MemoryGateway

theorem connect_namespaces (c : Config.Connection) (g : MemoryGateway) :
    (connect c g).2.namespaces = g.namespaces := by
  unfold connect
  dsimp only
  split
  · rfl
  · split <;> rfl

theorem write_namespaces (a : Address) (v : Int) (g : MemoryGateway) :
    (write a v g).2.namespaces = g.namespaces := by
  unfold write
  split
  · rfl
  · split
    · rfl
    · split <;> rfl

/-- Every request keeps a gateway misplaced: none changes the namespaces,
and an acknowledged write lands where a register already is. -/
theorem misplaced_keeps : gateway.Keeps Misplaced where
  connect c g h := ⟨(connect_namespaces c g).trans h.1, (connect_values c g).1 ▸ h.2⟩
  namespaces _ h := h
  read a g h := by
    change Misplaced (read a g).2
    rw [read_state]
    exact h
  write a v g h := by
    refine ⟨(write_namespaces a v g).trans h.1, ?_⟩
    change ∀ x ∈ (write a v g).2.values, x.1.1 = 1
    rcases write_cases a v g with ⟨-, -, hslot, hv, -⟩ | ⟨e, -, hv, -⟩
    · obtain ⟨x, hx⟩ := Option.isSome_iff_exists.1 hslot
      have hone : a.namespaceIndex = 1 := namespace_of_lookup h.2 hx
      rw [hv, hone]
      exact store_namespace (store_namespace h.2)
    · rw [hv]
      exact h.2
  close _ h := h

end MemoryGateway

section Misplaced

variable {conn : Config.Connection} (hconn : conn.namespaceUri = MemoryGateway.serverNamespace)
include hconn

/-- On a misplaced gateway, every attempt of a controller configured with the
server namespace fails: at the connection, or at its register, since it
resolves index 0, where there is none. -/
theorem advance_misplaced {g : MemoryGateway} (h : Misplaced g) (now : Nat) (t : Tracker) (j : Job) :
    ∃ e t' g', Session.advance MemoryGateway.gateway conn now ⟨t, j.work, .opening⟩ g =
      (.finished (.error e) t', g') ∧ Misplaced g' := by
  have hP₁ : Misplaced (MemoryGateway.connect conn g).2 := MemoryGateway.misplaced_keeps.connect conn g h
  obtain ⟨r, hr⟩ := MemoryGateway.connect_answered conn g
  have hc : MemoryGateway.gateway.connect conn g = (.answer r, (MemoryGateway.connect conn g).2) := by
    rw [← hr]
    rfl
  cases r with
  | error e =>
    exact ⟨e, ((t.step .connect).2.step .fault).2, _, by simp [Session.advance, hc], hP₁⟩
  | ok u =>
    -- connected: the server namespace is first in the list, index 0
    have hidx : namespaceIndexIn conn.namespaceUri (MemoryGateway.connect conn g).2.namespaces = .ok 0 := by
      rw [hP₁.1, hconn]
      exact (MemoryGateway.serverNamespace_unserved 0).1
    have hns : MemoryGateway.gateway.namespaces (MemoryGateway.connect conn g).2 =
        (.ok (MemoryGateway.connect conn g).2.namespaces, (MemoryGateway.connect conn g).2) := rfl
    have hnone : (MemoryGateway.connect conn g).2.slot? 0 j.key.name = none := by
      cases hs : (MemoryGateway.connect conn g).2.slot? 0 j.key.name with
      | none => rfl
      | some x => exact absurd (MemoryGateway.namespace_of_lookup hP₁.2 hs) Nat.zero_ne_one
    obtain ⟨k, v⟩ := j
    cases v with
    | none =>
      have hread : MemoryGateway.gateway.read ⟨0, k⟩ (MemoryGateway.connect conn g).2 =
          (.answer (.error (.operation (Address.render ⟨0, k⟩) "BadNodeIdUnknown")),
            (MemoryGateway.connect conn g).2) := by
        simp [MemoryGateway.gateway, MemoryGateway.read, hnone]
      refine ⟨.operation (Address.render ⟨0, k⟩) "BadNodeIdUnknown",
        ((((t.step .connect).2.step .connected).2.step .resolved).2.step .fault).2, _, ?_,
        MemoryGateway.misplaced_keeps.close _ hP₁⟩
      simp [Session.advance, Session.connected, Session.perform, Session.abandon, Job.work, hc, hns, hidx, hread]
    | some v =>
      have hwrite := MemoryGateway.misplaced_keeps.write ⟨0, k⟩ v _ hP₁
      rcases MemoryGateway.write_cases ⟨0, k⟩ v (MemoryGateway.connect conn g).2 with
        ⟨-, -, hslot, -⟩ | ⟨e, herr, -, -⟩
      · simp [hnone] at hslot
      · have hw : MemoryGateway.gateway.write ⟨0, k⟩ v (MemoryGateway.connect conn g).2 =
            (.answer (.error e), (MemoryGateway.write ⟨0, k⟩ v (MemoryGateway.connect conn g).2).2) := by
          rw [← herr]
          rfl
        refine ⟨e, ((((t.step .connect).2.step .connected).2.step .resolved).2.step .fault).2, _, ?_,
          MemoryGateway.misplaced_keeps.close _ hwrite⟩
        simp [Session.advance, Session.connected, Session.perform, Session.abandon, Job.work, hc, hns, hidx, hw]

/-- On a misplaced gateway every attempt fails and leaves it misplaced. -/
theorem MemoryGateway.refuses_misplaced (j : Job) : MemoryGateway.gateway.Refuses conn Misplaced j :=
  fun now t _ h => advance_misplaced hconn h now t j

end Misplaced

/-- **On the server namespace every register call fails.** A controller
configured with the server namespace, on a new gateway in memory created for
it, with any settings otherwise and any policy: every write of a register is
refused and every read gives no value, one call after another. -/
theorem registerCalls_fail_onServerNamespace (conn : Config.Connection)
    (hconn : conn.namespaceUri = MemoryGateway.serverNamespace) (policy : Retry.Policy) (stamp : Nat)
    (cmds : List Command) (hcmds : ∀ cmd ∈ cmds, cmd.onRegisters = true) :
    let c : Controller MemoryGateway := ⟨MemoryGateway.gateway, conn, policy⟩
    ∀ p ∈ c.execAll cmds { gate := MemoryGateway.create MemoryGateway.serverNamespace stamp },
      p.1.failed = true := by
  intro c
  exact Controller.execAll_refused (c := c) MemoryGateway.gateway_switched.answers
    (fun _ _ v (_ : ∀ x ∈ v, True) => MemoryGateway.refuses_misplaced hconn _)
    ⟨rfl, MemoryGateway.create_namespace _ stamp⟩ cmds hcmds fun _ _ _ _ => trivial

/-- Line 1's lot register on the server namespace: the write of lot 5 and the
read after it do not answer as a register file does. -/
theorem registerCalls_fail_onServerNamespace_lineOne :
    let c : Controller MemoryGateway :=
      ⟨MemoryGateway.gateway, { namespaceUri := MemoryGateway.serverNamespace }, ⟨1, fun _ _ => true, fun _ => 10⟩⟩
    let cmds : List Command := [.set .one .pc 5, .get .one .pc]
    (c.execAll cmds { gate := MemoryGateway.create MemoryGateway.serverNamespace 0 }).map (·.1) ≠
      answersOnFile (fun _ => 0) cmds := by
  intro c cmds heq
  have hfail : ∀ p ∈ c.execAll cmds { gate := MemoryGateway.create MemoryGateway.serverNamespace 0 },
      p.1.failed = true :=
    registerCalls_fail_onServerNamespace { namespaceUri := MemoryGateway.serverNamespace } rfl
      ⟨1, fun _ _ => true, fun _ => 10⟩ 0 cmds (by decide)
  -- the register file accepts the write; the gateway refuses it
  have hdone : Answer.done true ∈ answersOnFile (fun _ => 0) cmds := by
    simp [cmds, answersOnFile, Command.onFile]
  rw [← heq] at hdone
  obtain ⟨p, hp, hp₁⟩ := List.mem_map.1 hdone
  have := hfail p hp
  rw [hp₁] at this
  simp [Answer.failed] at this

end LotBridge
