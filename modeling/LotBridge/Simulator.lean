import LotBridge.Register

/-!
# The simulated gateway's registers

A simulated gateway holds the four active-lot registers and `last_updated`,
all zero at the start, by name. Registers can be set directly, whatever the
rules for writes say.

## Main definitions

* `Simulator`, `Simulator.seeded`, `Simulator.get`, `Simulator.set`.
-/

namespace LotBridge

/-- The registers of a simulated gateway, by name, and its open sessions. -/
structure Simulator where
  values : List (String × Int)
  sessions : Nat := 0
deriving Repr

namespace Simulator

/-- A simulated gateway with every register zero. -/
def seeded : Simulator := ⟨RegisterKey.all.map fun k => (k.name, 0), 0⟩

/-- The value of a register. -/
def get (s : Simulator) (k : RegisterKey) : Option Int := s.values.lookup k.name

/-- Sets a register, adding it if it is new. -/
def set (s : Simulator) (k : RegisterKey) (v : Int) : Simulator :=
  if (s.values.lookup k.name).isSome then
    { s with values := s.values.map fun (n, w) => if n = k.name then (n, v) else (n, w) }
  else { s with values := s.values ++ [(k.name, v)] }

/-- Replacing every value under a name that is present makes the name look up
the new value. -/
theorem lookup_replace (xs : List (String × Int)) (name : String) (v : Int)
    (h : (xs.lookup name).isSome) :
    (xs.map fun (n, w) => if n = name then (n, v) else (n, w)).lookup name = some v := by
  induction xs with
  | nil => simp at h
  | cons p rest ih =>
    obtain ⟨n, w⟩ := p
    by_cases hn : n = name
    · subst hn
      simp
    · have hb : (name == n) = false := by
        simp only [beq_eq_false_iff_ne, ne_eq]
        exact fun e => hn e.symm
      simp only [List.lookup_cons, hb] at h
      simp only [List.map_cons, hn, if_false, List.lookup_cons, hb]
      exact ih h

theorem get_set (s : Simulator) (k : RegisterKey) (v : Int) : (s.set k v).get k = some v := by
  unfold set get
  split
  · exact lookup_replace s.values k.name v (by assumption)
  · rename_i h
    simp only [Option.isSome_iff_ne_none, ne_eq, Decidable.not_not] at h
    simp [List.lookup_append, h]

end Simulator

end LotBridge
