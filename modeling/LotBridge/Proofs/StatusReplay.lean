import LotBridge.Status

/-!
# The status is a summary of the calls recorded in it

A controller records every call it ends in its status: a success, or a
failure with the phase it happened in. Replayed from the status of a new
controller, the records give a status each field of which follows a rule of
its own (`Status.Summarizes`):

* the counters count the calls and the failed calls;
* the outcome is that of the last call that reached the equipment, unknown
  while there is none: a refused address never reaches it;
* the error, its kind and its phase are those of the last failure, kept by
  later successes, and the phase may be unknown;
* the time of the last attempt is that of the last call.

## Main definitions

* `Status.Entry`, `Status.record`, `Status.replay`: recorded calls.
* `Status.Summarizes`: what a status says about the calls in it.

## Main statements

* `Status.Summarizes.record`: recording a call keeps the summary.
* `Status.replay_summarizes`: a replayed status summarizes its calls.
-/

namespace LotBridge

namespace Status

/-- A call as a status records it: a success, or a failure with the phase it
happened in, if known. -/
inductive Entry where
  | success
  | failure (f : Failure) (failedIn : Option Phase)
deriving DecidableEq, Repr

namespace Entry

/-- The failure of an entry and its phase, if it is a failure. -/
def failure? : Entry → Option (Failure × Option Phase)
  | .success => none
  | .failure f p => some (f, p)

/-- Whether the call reached the equipment: every call but a refused address. -/
def reached : Entry → Bool
  | .success => true
  | .failure (.invalidAddress _) _ => false
  | .failure _ _ => true

end Entry

/-- Records a call at time `now`. -/
def record (s : Status) : Entry → Nat → Status
  | .success, now => s.recordSuccess now
  | .failure f p, now => s.recordFailure f p now

/-- The status after calls one after another, each with its time, from the
status of a new controller. -/
def replay (calls : List (Entry × Nat)) : Status :=
  calls.foldl (fun s c => s.record c.1 c.2) {}

/-- The outcome after calls: that of the last one that reached the equipment,
unknown if none did. -/
def outcomeAfter (entries : List Entry) : Outcome :=
  match (entries.filter Entry.reached).getLast? with
  | none => .unknown
  | some .success => .connected
  | some (.failure ..) => .failed

/-- The last failure among calls, with its phase. -/
def lastFailure (calls : List (Entry × Nat)) : Option (Failure × Option Phase) :=
  (calls.filterMap (·.1.failure?)).getLast?

/-- What a status says about the calls recorded in it. -/
structure Summarizes (calls : List (Entry × Nat)) (s : Status) : Prop where
  operations : s.operations = calls.length
  failures : s.failures = calls.countP fun c => c.1.failure?.isSome
  outcome : s.outcome = outcomeAfter (calls.map (·.1))
  lastError : s.lastError = (lastFailure calls).map (·.1.message)
  lastErrorKind : s.lastErrorKind = (lastFailure calls).map (·.1.kind)
  failedIn : s.failedIn = (lastFailure calls).bind (·.2)
  lastAttemptAt : s.lastAttemptAt = calls.getLast?.map (·.2)

/-- A refused address is the one failure whose kind is `invalid_address`. -/
theorem kind_eq_invalidAddress_iff (f : Failure) :
    f.kind = "invalid_address" ↔ ∃ b, f = .invalidAddress b := by
  cases f <;> simp [Failure.kind]

theorem outcomeAfter_success (entries : List Entry) :
    outcomeAfter (entries ++ [.success]) = .connected := by
  simp [outcomeAfter, Entry.reached]

/-- A failure that reached the equipment makes the outcome failed; a refused
address leaves it. -/
theorem outcomeAfter_failure (entries : List Entry) (f : Failure) (p : Option Phase) :
    outcomeAfter (entries ++ [.failure f p]) =
      if f.kind = "invalid_address" then outcomeAfter entries else .failed := by
  by_cases hf : f.kind = "invalid_address"
  · rw [if_pos hf]
    obtain ⟨b, rfl⟩ := (kind_eq_invalidAddress_iff f).1 hf
    simp [outcomeAfter, Entry.reached]
  · have hreached : Entry.reached (.failure f p) = true := by
      cases f <;> simp_all [Entry.reached, Failure.kind]
    simp [outcomeAfter, hf, hreached]

theorem summarizes_nil : Summarizes [] {} :=
  ⟨rfl, rfl, rfl, rfl, rfl, rfl, rfl⟩

/-- **Recording a call keeps the summary**, whichever call it is. -/
theorem Summarizes.record {calls : List (Entry × Nat)} {s : Status} (h : Summarizes calls s)
    (e : Entry) (now : Nat) : Summarizes (calls ++ [(e, now)]) (s.record e now) := by
  cases e with
  | success =>
    -- a success moves the counter and the outcome, and keeps the last failure
    have hlast : lastFailure (calls ++ [(.success, now)]) = lastFailure calls := by
      simp [lastFailure, Entry.failure?]
    refine ⟨?_, ?_, ?_, ?_, ?_, ?_, ?_⟩ <;>
      simp [Status.record, recordSuccess, hlast, h.operations, h.failures, h.lastError,
        h.lastErrorKind, h.failedIn, Entry.failure?, outcomeAfter_success]
  | failure f p =>
    have hlast : lastFailure (calls ++ [(.failure f p, now)]) = some (f, p) := by
      simp [lastFailure, Entry.failure?]
    refine ⟨?_, ?_, ?_, ?_, ?_, ?_, ?_⟩ <;>
      simp [Status.record, recordFailure, hlast, h.operations, h.failures, h.outcome,
        Entry.failure?, outcomeAfter_failure]

/-- Recording more calls on a summary of earlier ones summarizes them all. -/
theorem Summarizes.foldl {done : List (Entry × Nat)} {s : Status} (h : Summarizes done s)
    (calls : List (Entry × Nat)) :
    Summarizes (done ++ calls) (calls.foldl (fun s c => s.record c.1 c.2) s) := by
  induction calls generalizing done s with
  | nil => simpa using h
  | cons c rest ih =>
    have hnext := ih (h.record c.1 c.2)
    rwa [List.append_assoc, List.singleton_append] at hnext

/-- **A status is a summary of the calls recorded in it.** Replayed from a new
controller's status over any calls: the counters count the calls and the
failed ones; the outcome is that of the last call that reached the equipment,
unknown while none did; error, kind and phase are the last failure's, kept by
later successes; and the last attempt is the last call's time, so there is one
exactly when there was a call. -/
theorem replay_summarizes (calls : List (Entry × Nat)) : Summarizes calls (replay calls) :=
  summarizes_nil.foldl calls

/-- A refused address after a success keeps the outcome and names its kind. -/
example : (replay [(.success, 5), (.failure (.invalidAddress (.line "3")) none, 7)]).outcome = .connected ∧
    (replay [(.success, 5), (.failure (.invalidAddress (.line "3")) none, 7)]).lastErrorKind =
      some "invalid_address" := by
  decide

end Status

end LotBridge
