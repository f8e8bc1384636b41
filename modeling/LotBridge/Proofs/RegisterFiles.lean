import LotBridge.Proofs.CallStatus
import LotBridge.Proofs.LaneLiveness
import LotBridge.Controller.Command

/-!
# Register calls held against a register file

A register file maps every register to a value. Held against it, a write of
an active-lot register succeeds and writes the file, a read gives the
register's value, and a raw address that does not read is refused before any
attempt (`Command.onFile`).

A controller's register calls answer as the file does, one call after
another, once every register job it performs does (`Controller.Files`): a
read gives the register's value and a write succeeds, while an invariant of
the controller's state follows the file (`Controller.Files.execAll`). Where
instead every attempt at a job fails and leaves the gateway failing as before
(`Gateway.Refuses`), every register call fails, however often it is tried
(`Controller.execAll_refused`).

Both rest on the calls returning: on a gateway that answers every request, a
job performed is its call run to its end (`Controller.perform_ran`).

## Main definitions

* `writeFile`, `Job.onFile`, `Command.onFile`, `answersOnFile`: the register
  file.
* `Controller.execAll`: requests one after another.
* `Answer.failed`: an answer that reports a failure.
* `Controller.Files`, `Gateway.Refuses`.
-/

namespace LotBridge

/-! ## The register file -/

/-- The register file `regs` with `v` written to register `key`. -/
def writeFile (regs : RegisterKey → Int) (key : RegisterKey) (v : Int) : RegisterKey → Int :=
  fun k => if k = key then v else regs k

/-- What a job does on the register file: a read gives the register's value,
a write gives nothing back and writes the file. -/
def Job.onFile (regs : RegisterKey → Int) (j : Job) : List Yield × (RegisterKey → Int) :=
  match j.value with
  | none => ([.number (regs j.key)], regs)
  | some v => ([.unit], writeFile regs j.key v)

/-- Whether a request reads or writes an active-lot register: the typed and
the raw writes and reads. -/
def Command.onRegisters : Command → Bool
  | .set .. | .trySet .. | .setRaw .. | .get .. | .getRaw .. => true
  | .lastUpdated | .reset _ | .status | .settings => false

/-- The lot a request writes, if it writes one. -/
def Command.lot? : Command → Option Nat
  | .set _ _ lot | .trySet _ _ lot | .setRaw _ _ lot => some lot
  | _ => none

/-- What a register file answers to a request on the registers, and the file
after it: a write succeeds and writes the file, a read gives the register's
value, and a raw address that does not read is refused. -/
def Command.onFile (regs : RegisterKey → Int) : Command → Answer × (RegisterKey → Int)
  | .set l k lot => (.done true, writeFile regs (.activeLot l k) lot)
  | .trySet l k lot => (.attempted (.ok ()), writeFile regs (.activeLot l k) lot)
  | .setRaw n name lot =>
    match RegisterKey.parse n name with
    | .ok key => (.done true, writeFile regs key lot)
    | .error _ => (.done false, regs)
  | .get l k => (.value (some (regs (.activeLot l k))), regs)
  | .getRaw n name =>
    match RegisterKey.parse n name with
    | .ok key => (.value (some (regs key)), regs)
    | .error _ => (.value none, regs)
  | _ => (.nothing, regs)

/-- The answers of a register file to requests one after another. -/
def answersOnFile (regs : RegisterKey → Int) : List Command → List Answer
  | [] => []
  | cmd :: cmds => (cmd.onFile regs).1 :: answersOnFile (cmd.onFile regs).2 cmds

/-- Carries out requests one after another: each one's answer and the state
after it. -/
def Controller.execAll {σ : Type} (c : Controller σ) : List Command → Controller.State σ →
    List (Answer × Controller.State σ)
  | [], _ => []
  | cmd :: cmds, st => c.exec cmd st :: c.execAll cmds (c.exec cmd st).2

/-- Whether an answer says its request failed: a write refused, a checked
write's error, a read with no value. -/
def Answer.failed : Answer → Bool
  | .done ok => !ok
  | .attempted r => !r.toBool
  | .value v | .stamp v => v.isNone
  | _ => false

/-- A raw address that reads is an active-lot register. -/
theorem RegisterKey.parse_ok {n : Nat} {name : String} {key : RegisterKey}
    (h : RegisterKey.parse n name = .ok key) : ∃ l k, key = .activeLot l k := by
  unfold RegisterKey.parse at h
  cases hl : Line.ofNumber n with
  | error b => simp [hl, bind, Except.bind] at h
  | ok l =>
    cases hc : Component.parse name with
    | error b => simp [hl, hc, bind, Except.bind] at h
    | ok k =>
      simp only [hl, hc, bind, Except.bind, pure, Except.pure, Except.ok.injEq] at h
      exact ⟨l, k, h.symm⟩

/-! ## Calls that return -/

section Returns

variable {σ : Type} {c : Controller σ} (hans : c.gateway.Answers)
include hans

/-- A controller call on a gateway that answers every request returns. -/
theorem Controller.perform_returns (j : Job) (st : Controller.State σ) :
    ∃ r st', c.perform j st = (some r, st') := by
  have hends := c.runLanes_ends_jobs hans [[j]] st
  unfold Controller.perform
  generalize c.runLanes [[j]] st = out at hends ⊢
  obtain ⟨res, st'⟩ := out
  -- the single lane ended its single job
  match res, hends with
  | [[(j', r)]], _ => exact ⟨r, st', rfl⟩
  | [], h => simp at h
  | [[]], h => simp at h
  | [_ :: _ :: _], h => simp at h
  | _ :: _ :: _, h => simp at h

/-- A controller call on a gateway that answers every request returns the end
of the job's call, run at some times. -/
theorem Controller.perform_ran (j : Job) (st : Controller.State σ) :
    ∃ r st' t times, c.perform j st = (some r, st') ∧
      Call.runAt c.gateway c.connection c.policy times (Call.start j.work) st.gate =
        (.finished r t, st'.gate) := by
  obtain ⟨r, st', hperf⟩ := c.perform_returns hans j st
  have hrun := perform_runAt c j st.status st.gate st.clock
  rw [hperf] at hrun
  obtain ⟨t, times, hrun, -⟩ := hrun
  exact ⟨r, st', t, times, hperf, hrun⟩

/-- A job whose first attempt succeeds, whenever it is made, is performed at
once, with that attempt's result. -/
theorem Controller.perform_of_advance {Q : σ → Prop} (j : Job) (st : Controller.State σ)
    {ys : List Yield}
    (hfirst : ∀ now, ∃ t g', Session.advance c.gateway c.connection now ⟨{}, j.work, .opening⟩ st.gate =
      (.finished (.ok ys) t, g') ∧ Q g') :
    ∃ st', c.perform j st = (some (.ok ys), st') ∧ Q st'.gate := by
  obtain ⟨r, st', t, times, hperf, hrun⟩ := c.perform_ran hans j st
  -- the call ran at some times; at the first of them it ended
  cases times with
  | nil => simp [Call.runAt] at hrun
  | cons now times =>
    obtain ⟨t', g', hadv, hq⟩ := hfirst now
    rw [Call.runAt, Call.start, Call.advance, Call.attemptFrom, hadv] at hrun
    simp only [Prod.mk.injEq, Progress.finished.injEq] at hrun
    obtain ⟨⟨rfl, -⟩, hgate⟩ := hrun
    exact ⟨st', hperf, hgate ▸ hq⟩

end Returns

/-! ## Controllers that answer as a register file -/

section Files

variable {σ : Type} (c : Controller σ)

/-- Register jobs on controller `c` answer as a register file: from a gateway
where `Inv regs` holds, a read of an active-lot register gives its value in
`regs` and a write of a value that `fits` succeeds, and `Inv` holds after the
job of the file the job leaves. -/
def Controller.Files (fits : Int → Prop) (Inv : (RegisterKey → Int) → σ → Prop) : Prop :=
  ∀ regs st l k v, Inv regs st.gate → (∀ x ∈ v, fits x) →
    ∃ st', c.perform ⟨.activeLot l k, v⟩ st =
        (some (.ok ((⟨.activeLot l k, v⟩ : Job).onFile regs).1), st') ∧
      Inv ((⟨.activeLot l k, v⟩ : Job).onFile regs).2 st'.gate

variable {c} {fits : Int → Prop} {Inv : (RegisterKey → Int) → σ → Prop}
  (hf : c.Files fits Inv)
include hf

theorem Controller.Files.write {regs : RegisterKey → Int} {st : Controller.State σ} (hinv : Inv regs st.gate)
    (l : Line) (k : Component) {v : Int} (hv : fits v) :
    ∃ st', c.write (.activeLot l k) v st = (some (.ok ()), st') ∧ Inv (writeFile regs (.activeLot l k) v) st'.gate := by
  obtain ⟨st', hperf, hinv'⟩ := hf regs st l k (some v) hinv (by simpa using hv)
  exact ⟨st', by simp [Controller.write, hperf, Job.onFile, Except.map], hinv'⟩

theorem Controller.Files.read {regs : RegisterKey → Int} {st : Controller.State σ} (hinv : Inv regs st.gate)
    (l : Line) (k : Component) :
    ∃ st', c.read (.activeLot l k) st = (some (.ok (regs (.activeLot l k))), st') ∧ Inv regs st'.gate := by
  obtain ⟨st', hperf, hinv'⟩ := hf regs st l k none hinv (by simp)
  exact ⟨st', by simp [Controller.read, hperf, Job.onFile, Except.map, Controller.readValue], hinv'⟩

/-- **A register call answers as the file does.** Its answer is the file's,
and the invariant follows the file after it. -/
theorem Controller.Files.exec {regs : RegisterKey → Int} {st : Controller.State σ} (hinv : Inv regs st.gate)
    (cmd : Command) (hcmd : cmd.onRegisters = true) (hlot : ∀ n ∈ cmd.lot?, fits n) :
    (c.exec cmd st).1 = (cmd.onFile regs).1 ∧ Inv (cmd.onFile regs).2 (c.exec cmd st).2.gate := by
  cases cmd with
  | set l k lot =>
    obtain ⟨st', hw, hinv'⟩ := hf.write hinv l k (hlot lot rfl)
    have hexec : c.exec (.set l k lot) st = (.done true, st') := by
      simp only [Controller.exec, Controller.writeDone, hw]
    rw [hexec]
    exact ⟨rfl, hinv'⟩
  | trySet l k lot =>
    obtain ⟨st', hw, hinv'⟩ := hf.write hinv l k (hlot lot rfl)
    have hexec : c.exec (.trySet l k lot) st = (.attempted (.ok ()), st') := by
      simp only [Controller.exec, hw]
    rw [hexec]
    exact ⟨rfl, hinv'⟩
  | setRaw n name lot =>
    cases hp : RegisterKey.parse n name with
    | ok key =>
      obtain ⟨l, k, rfl⟩ := RegisterKey.parse_ok hp
      obtain ⟨st', hw, hinv'⟩ := hf.write hinv l k (hlot lot rfl)
      have hexec : c.exec (.setRaw n name lot) st = (.done true, st') := by
        simp only [Controller.exec, hp, Controller.writeDone, hw]
      rw [hexec]
      exact ⟨by simp only [Command.onFile, hp], by simpa only [Command.onFile, hp] using hinv'⟩
    | error b =>
      -- an address that does not read is refused before any attempt
      have hexec : c.exec (.setRaw n name lot) st = (.done false, Controller.reject b st) := by
        simp only [Controller.exec, hp]
      rw [hexec]
      refine ⟨by simp only [Command.onFile, hp], ?_⟩
      simp only [Command.onFile, hp]
      exact hinv
  | get l k =>
    obtain ⟨st', hr, hinv'⟩ := hf.read hinv l k
    have hexec : c.exec (.get l k) st = (.value (some (regs (.activeLot l k))), st') := by
      simp only [Controller.exec, Controller.readValue?, hr]
    rw [hexec]
    exact ⟨rfl, hinv'⟩
  | getRaw n name =>
    cases hp : RegisterKey.parse n name with
    | ok key =>
      obtain ⟨l, k, rfl⟩ := RegisterKey.parse_ok hp
      obtain ⟨st', hr, hinv'⟩ := hf.read hinv l k
      have hexec : c.exec (.getRaw n name) st = (.value (some (regs (.activeLot l k))), st') := by
        simp only [Controller.exec, hp, Controller.readValue?, hr]
      rw [hexec]
      exact ⟨by simp only [Command.onFile, hp], by simpa only [Command.onFile, hp] using hinv'⟩
    | error b =>
      have hexec : c.exec (.getRaw n name) st = (.value none, Controller.reject b st) := by
        simp only [Controller.exec, hp]
      rw [hexec]
      refine ⟨by simp only [Command.onFile, hp], ?_⟩
      simp only [Command.onFile, hp]
      exact hinv
  | lastUpdated => cases hcmd
  | reset d => cases hcmd
  | status => cases hcmd
  | settings => cases hcmd

/-- **Register calls one after another answer as the file does**, the
invariant following the file from call to call. -/
theorem Controller.Files.execAll {regs : RegisterKey → Int} {st : Controller.State σ}
    (hinv : Inv regs st.gate) (cmds : List Command) (hcmds : ∀ cmd ∈ cmds, cmd.onRegisters = true)
    (hlots : ∀ cmd ∈ cmds, ∀ n ∈ cmd.lot?, fits n) :
    (c.execAll cmds st).map (·.1) = answersOnFile regs cmds ∧
      ∀ p ∈ c.execAll cmds st, ∃ regs', Inv regs' p.2.gate := by
  induction cmds generalizing regs st with
  | nil => exact ⟨rfl, by simp [Controller.execAll]⟩
  | cons cmd cmds ih =>
    obtain ⟨hans, hinv₁⟩ :=
      hf.exec hinv cmd (hcmds cmd List.mem_cons_self) (hlots cmd List.mem_cons_self)
    obtain ⟨hrest, hall⟩ := ih hinv₁ (fun cmd' h => hcmds cmd' (List.mem_cons_of_mem cmd h))
      (fun cmd' h => hlots cmd' (List.mem_cons_of_mem cmd h))
    refine ⟨by simp only [Controller.execAll, List.map_cons, hans, hrest, answersOnFile], ?_⟩
    intro p hp
    rw [Controller.execAll, List.mem_cons] at hp
    rcases hp with rfl | hp
    · exact ⟨_, hinv₁⟩
    · exact hall p hp

end Files

/-! ## Gateways that refuse every attempt -/

section Refuses

variable {σ : Type} (gw : Gateway σ) (conn : Config.Connection) (P : σ → Prop)

/-- On a gateway where `P` holds, every attempt at job `j` fails, and `P`
still holds after it. -/
def Gateway.Refuses (j : Job) : Prop :=
  ∀ now t g, P g → ∃ e t' g', Session.advance gw conn now ⟨t, j.work, .opening⟩ g =
    (.finished (.error e) t', g') ∧ P g'

variable {gw conn P} {j : Job} (href : gw.Refuses conn P j)
include href

/-- The retry loop on a refusing gateway ends with a failure, or pauses before
a later attempt. -/
theorem Call.attemptFrom_refused (policy : Retry.Policy) (now fuel a : Nat) (t : Tracker) {g : σ}
    (h : P g) :
    (∃ e t' g', Call.attemptFrom gw conn policy now fuel a ⟨t, j.work, .opening⟩ g =
        (.finished (.error e) t', g') ∧ P g') ∨
    (∃ w a' t' g', Call.attemptFrom gw conn policy now fuel a ⟨t, j.work, .opening⟩ g =
        (.waiting w (.pausing a' t' j.work), g') ∧ P g') := by
  induction fuel using Nat.strongRecOn generalizing a t g with
  | ind fuel ih =>
    obtain ⟨e₀, t₀, g₁, hadv, hP₁⟩ := href now t g h
    obtain ⟨p, g₁', hadv', hcases⟩ :=
      Call.attemptFrom_cases gw conn policy now fuel a ⟨t, j.work, .opening⟩ g
    rw [hadv] at hadv'
    obtain ⟨rfl, rfl⟩ := Prod.mk.inj hadv'
    rcases hcases with ⟨w, s', hp, -⟩ | ⟨r, t', hp, hres⟩ | ⟨e, t', hp, -, -, -, hres⟩ |
      ⟨e, t', n, hp, -, -, -, hn, hres⟩
    · cases hp
    · -- the attempt's failure ends the call
      obtain ⟨rfl, rfl⟩ := Progress.finished.inj hp
      exact Or.inl ⟨e₀, t₀, g₁, hres, hP₁⟩
    · exact Or.inr ⟨_, _, _, g₁, hres, hP₁⟩
    · -- the next attempt at once, on a gateway still refusing
      obtain ⟨-, rfl⟩ := Progress.finished.inj hp
      rw [hres]
      exact ih n (by omega) (a + 1) t₀ hP₁

/-- A call of a job on a refusing gateway, advanced at any times, never
succeeds, and leaves the gateway refusing. -/
theorem Call.runAt_refused (policy : Retry.Policy) (times : List Nat) {c : Call} {g : σ}
    (hc : ∃ a t, c = .trying a ⟨t, j.work, .opening⟩ ∨ c = .pausing a t j.work) (h : P g)
    {r : Except Failure (List Yield)} {t' : Tracker} {g' : σ}
    (hrun : Call.runAt gw conn policy times c g = (.finished r t', g')) :
    (∃ e, r = .error e) ∧ P g' := by
  induction times generalizing c g with
  | nil => cases hrun
  | cons now times ih =>
    obtain ⟨a, t, hshape⟩ := hc
    have hadv : c.advance gw conn policy now g =
        Call.attemptFrom gw conn policy now policy.limit a ⟨t, j.work, .opening⟩ g := by
      rcases hshape with rfl | rfl <;> rfl
    rw [Call.runAt, hadv] at hrun
    rcases Call.attemptFrom_refused href policy now policy.limit a t h with
      ⟨e, t₁, g₁, hres, hP₁⟩ | ⟨w, a', t₁, g₁, hres, hP₁⟩
    · rw [hres] at hrun
      simp only [Prod.mk.injEq, Progress.finished.injEq] at hrun
      obtain ⟨⟨rfl, -⟩, rfl⟩ := hrun
      exact ⟨⟨e, rfl⟩, hP₁⟩
    · rw [hres] at hrun
      exact ih ⟨a', t₁, Or.inr rfl⟩ hP₁ hrun

end Refuses

section RefusedCalls

variable {σ : Type} {c : Controller σ} (hans : c.gateway.Answers) {P : σ → Prop} {fits : Int → Prop}
  (href : ∀ l k v, (∀ x ∈ v, fits x) → c.gateway.Refuses c.connection P ⟨.activeLot l k, v⟩)
include hans href

/-- A controller call of a register job on a refusing gateway returns a
failure, and leaves the gateway refusing. -/
theorem Controller.perform_refused {st : Controller.State σ} (h : P st.gate) (l : Line) (k : Component)
    (v : Option Int) (hv : ∀ x ∈ v, fits x) :
    ∃ e st', c.perform ⟨.activeLot l k, v⟩ st = (some (.error e), st') ∧ P st'.gate := by
  obtain ⟨r, st', t, times, hperf, hrun⟩ := c.perform_ran hans ⟨.activeLot l k, v⟩ st
  -- the call starts at its first attempt, from the opening stage
  obtain ⟨⟨e, rfl⟩, h'⟩ := Call.runAt_refused (href l k v hv) c.policy times ⟨0, {}, Or.inl rfl⟩ h hrun
  exact ⟨e, st', hperf, h'⟩

theorem Controller.write_refused {st : Controller.State σ} (h : P st.gate) (l : Line) (k : Component) {v : Int}
    (hv : fits v) : ∃ e st', c.write (.activeLot l k) v st = (some (.error e), st') ∧ P st'.gate := by
  obtain ⟨e, st', hperf, h'⟩ := Controller.perform_refused hans href h l k (some v) (by simpa using hv)
  exact ⟨e, st', by simp [Controller.write, hperf, Except.map], h'⟩

theorem Controller.readValue?_refused {st : Controller.State σ} (h : P st.gate) (l : Line) (k : Component) :
    ∃ st', c.readValue? (.activeLot l k) st = (some none, st') ∧ P st'.gate := by
  obtain ⟨e, st', hperf, h'⟩ := Controller.perform_refused hans href h l k none (by simp)
  exact ⟨st', by simp [Controller.readValue?, Controller.read, hperf, Except.map], h'⟩

/-- A register call on a refusing gateway fails, and leaves the gateway
refusing. -/
theorem Controller.exec_refused {st : Controller.State σ} (h : P st.gate) (cmd : Command)
    (hcmd : cmd.onRegisters = true) (hlot : ∀ n ∈ cmd.lot?, fits n) :
    (c.exec cmd st).1.failed = true ∧ P (c.exec cmd st).2.gate := by
  cases cmd with
  | set l k lot =>
    obtain ⟨e, st', hw, h'⟩ := Controller.write_refused hans href h l k (hlot lot rfl)
    have hexec : c.exec (.set l k lot) st = (.done false, st') := by
      simp only [Controller.exec, Controller.writeDone, hw]
    rw [hexec]
    exact ⟨rfl, h'⟩
  | trySet l k lot =>
    obtain ⟨e, st', hw, h'⟩ := Controller.write_refused hans href h l k (hlot lot rfl)
    have hexec : c.exec (.trySet l k lot) st = (.attempted (.error e), st') := by
      simp only [Controller.exec, hw]
    rw [hexec]
    exact ⟨rfl, h'⟩
  | setRaw n name lot =>
    cases hp : RegisterKey.parse n name with
    | ok key =>
      obtain ⟨l, k, rfl⟩ := RegisterKey.parse_ok hp
      obtain ⟨e, st', hw, h'⟩ := Controller.write_refused hans href h l k (hlot lot rfl)
      have hexec : c.exec (.setRaw n name lot) st = (.done false, st') := by
        simp only [Controller.exec, hp, Controller.writeDone, hw]
      rw [hexec]
      exact ⟨rfl, h'⟩
    | error b =>
      have hexec : c.exec (.setRaw n name lot) st = (.done false, Controller.reject b st) := by
        simp only [Controller.exec, hp]
      rw [hexec]
      exact ⟨rfl, h⟩
  | get l k =>
    obtain ⟨st', hr, h'⟩ := Controller.readValue?_refused hans href h l k
    have hexec : c.exec (.get l k) st = (.value none, st') := by
      simp only [Controller.exec, hr]
    rw [hexec]
    exact ⟨rfl, h'⟩
  | getRaw n name =>
    cases hp : RegisterKey.parse n name with
    | ok key =>
      obtain ⟨l, k, rfl⟩ := RegisterKey.parse_ok hp
      obtain ⟨st', hr, h'⟩ := Controller.readValue?_refused hans href h l k
      have hexec : c.exec (.getRaw n name) st = (.value none, st') := by
        simp only [Controller.exec, hp, hr]
      rw [hexec]
      exact ⟨rfl, h'⟩
    | error b =>
      have hexec : c.exec (.getRaw n name) st = (.value none, Controller.reject b st) := by
        simp only [Controller.exec, hp]
      rw [hexec]
      exact ⟨rfl, h⟩
  | lastUpdated => cases hcmd
  | reset d => cases hcmd
  | status => cases hcmd
  | settings => cases hcmd

/-- **On a refusing gateway every register call fails**, one after another. -/
theorem Controller.execAll_refused {st : Controller.State σ} (h : P st.gate) (cmds : List Command)
    (hcmds : ∀ cmd ∈ cmds, cmd.onRegisters = true) (hlots : ∀ cmd ∈ cmds, ∀ n ∈ cmd.lot?, fits n) :
    ∀ p ∈ c.execAll cmds st, p.1.failed = true := by
  induction cmds generalizing st with
  | nil => simp [Controller.execAll]
  | cons cmd cmds ih =>
    obtain ⟨hfail, h₁⟩ :=
      Controller.exec_refused hans href h cmd (hcmds cmd List.mem_cons_self) (hlots cmd List.mem_cons_self)
    intro p hp
    rw [Controller.execAll, List.mem_cons] at hp
    rcases hp with rfl | hp
    · exact hfail
    · exact ih h₁ (fun cmd' h => hcmds cmd' (List.mem_cons_of_mem cmd h))
        (fun cmd' h => hlots cmd' (List.mem_cons_of_mem cmd h)) p hp

end RefusedCalls

end LotBridge
