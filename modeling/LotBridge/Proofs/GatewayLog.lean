import LotBridge.Controller

/-!
# Gateways that write down what they are asked

To speak of the requests a call makes, a gateway is wrapped in one that serves
every request exactly as the gateway does and writes the request down. The
wrapper changes no answer, so whatever is proved of calls on a logged gateway
holds of calls on every gateway, and the log shows what they asked of it.

A call of a job makes its requests attempt by attempt. An attempt asks for a
connection; once connected it asks for the namespaces, and once the namespace
is resolved it makes its read or write at the index found; it closes the
connection it opened, whatever happened after connecting. An attempt is cut
short where it failed, so the phase it stopped in fixes its requests
(`Job.attemptLog`).

## Main definitions

* `Gateway.Request`, `Gateway.logged`.
* `Job.request`, `Job.attemptLog`, `Job.attemptsLog`.
-/

namespace LotBridge

/-- A request made to a gateway. -/
inductive Gateway.Request where
  | connect
  | namespaces
  | read (a : Address)
  | write (a : Address) (v : Int)
  | close
  | release
deriving DecidableEq, Repr

variable {σ : Type}

/-- A gateway that serves requests as `gw` does and writes each one down. -/
def Gateway.logged (gw : Gateway σ) : Gateway (σ × List Gateway.Request) where
  connect c g := ((gw.connect c g.1).1, (gw.connect c g.1).2, g.2 ++ [.connect])
  namespaces g := ((gw.namespaces g.1).1, (gw.namespaces g.1).2, g.2 ++ [.namespaces])
  read a g := ((gw.read a g.1).1, (gw.read a g.1).2, g.2 ++ [.read a])
  write a v g := ((gw.write a v g.1).1, (gw.write a v g.1).2, g.2 ++ [.write a v])
  close g := ((gw.close g.1).1, (gw.close g.1).2, g.2 ++ [.close])
  release g := (gw.release g.1, g.2 ++ [.release])

namespace Gateway

variable (gw : Gateway σ) (g : σ) (log : List Gateway.Request)

@[simp] theorem logged_connect (c : Config.Connection) :
    gw.logged.connect c (g, log) = ((gw.connect c g).1, (gw.connect c g).2, log ++ [.connect]) := rfl

@[simp] theorem logged_namespaces :
    gw.logged.namespaces (g, log) = ((gw.namespaces g).1, (gw.namespaces g).2, log ++ [.namespaces]) :=
  rfl

@[simp] theorem logged_read (a : Address) :
    gw.logged.read a (g, log) = ((gw.read a g).1, (gw.read a g).2, log ++ [.read a]) := rfl

@[simp] theorem logged_write (a : Address) (v : Int) :
    gw.logged.write a v (g, log) = ((gw.write a v g).1, (gw.write a v g).2, log ++ [.write a v]) :=
  rfl

@[simp] theorem logged_close :
    gw.logged.close (g, log) = ((gw.close g).1, (gw.close g).2, log ++ [.close]) := rfl

end Gateway

namespace Job

/-- The read or write a job makes at a namespace index. -/
def request (j : Job) (index : Nat) : Gateway.Request :=
  match j.value with
  | none => .read ⟨index, j.key⟩
  | some v => .write ⟨index, j.key⟩ v

/-- The requests of one attempt at a job that stopped in phase `p`, at
namespace index `index` if it got that far: the connection alone when it
stopped connecting; the namespace query and the closing when it stopped
resolving the namespace; and the read or write in between when it reached the
equipment, whether it then failed or succeeded. -/
def attemptLog (j : Job) (p : Phase) (index : Nat) : List Gateway.Request :=
  match p with
  | .connecting => [.connect]
  | .namespaceResolving => [.connect, .namespaces, .close]
  | _ => [.connect, .namespaces, j.request index, .close]

/-- The requests of attempts one after another, each given by the phase it
stopped in and its namespace index. -/
def attemptsLog (j : Job) (attempts : List (Phase × Nat)) : List Gateway.Request :=
  (attempts.map fun a => j.attemptLog a.1 a.2).flatten

@[simp] theorem attemptsLog_nil (j : Job) : j.attemptsLog [] = [] := rfl

theorem attemptsLog_append_single (j : Job) (attempts : List (Phase × Nat)) (p : Phase) (i : Nat) :
    j.attemptsLog (attempts ++ [(p, i)]) = j.attemptsLog attempts ++ j.attemptLog p i := by
  simp [attemptsLog]

/-- Every attempt asks for exactly one connection. -/
theorem count_connect_attemptLog (j : Job) (p : Phase) (i : Nat) :
    (j.attemptLog p i).count .connect = 1 := by
  have hreq : j.request i ≠ .connect := by
    unfold request
    split <;> simp
  unfold attemptLog
  split <;> simp [hreq]

theorem count_connect_attemptsLog (j : Job) (attempts : List (Phase × Nat)) :
    (j.attemptsLog attempts).count .connect = attempts.length := by
  induction attempts with
  | nil => rfl
  | cons a rest ih =>
    simp only [attemptsLog, List.map_cons, List.flatten_cons, List.count_append] at ih ⊢
    rw [ih, count_connect_attemptLog]
    simp only [List.length_cons]
    omega

end Job

end LotBridge
