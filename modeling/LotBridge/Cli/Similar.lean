/-!
# Similar words

When a word on a command line is not one the program knows, the known words
close to it are suggested. Closeness is the Jaro similarity: with `m` the
characters of one word matched, in order, by equal characters of the other
not farther than half the longer length less one, and `t` half the number
of matched pairs that stand in a different order,
`(m / |a| + m / |b| + (m - t) / m) / 3`, or `0` without a match. It is
computed in double precision, term by term in that order. Words more similar
than `0.7` are suggested, least similar first.

## Main definitions

* `jaro`: the similarity of two words.
* `similarWords`: the known words worth suggesting.
-/

namespace LotBridge.Cli

/-- Marks the first unmatched character of `ys` equal to `c` at a position in
`[lo, hi)`, if there is one. -/
def claim (c : Char) (ys : List Char) (lo hi : Nat) (taken : List Bool) : Option (List Bool) :=
  let found := ((List.range hi).filter fun j =>
    lo ≤ j && ys[j]? == some c && taken[j]? == some false).head?
  found.map fun j => taken.set j true

/-- The characters of `cs` whose flag is set, in order. -/
def flagged (cs : List Char) (flags : List Bool) : List Char :=
  ((cs.zip flags).filter (·.2)).map (·.1)

/-- The Jaro similarity of two words. -/
def jaro (a b : String) : Float :=
  let xs := a.toList
  let ys := b.toList
  if xs.isEmpty && ys.isEmpty then 1.0
  else if xs.isEmpty || ys.isEmpty then 0.0
  else
    let reach := max xs.length ys.length / 2 - 1
    let (aFlags, bFlags, m) := xs.zipIdx.foldl
      (fun (acc : List Bool × List Bool × Nat) (c, i) =>
        let (af, bf, m) := acc
        match claim c ys (i - reach) (min ys.length (i + reach + 1)) bf with
        | some bf => (af.set i true, bf, m + 1)
        | none => (af, bf, m))
      (List.replicate xs.length false, List.replicate ys.length false, 0)
    let t := (((flagged xs aFlags).zip (flagged ys bFlags)).filter fun (p, q) => p != q).length / 2
    if m = 0 then 0.0
    else
      let mf := m.toFloat
      (mf / xs.length.toFloat + mf / ys.length.toFloat + (m - t).toFloat / mf) / 3.0

/-- The known words more similar to `word` than `0.7`, least similar first; of
two equally similar, the one known first comes first. -/
def similarWords (word : String) (known : List String) : List String :=
  let scored := (known.map fun k => (jaro word k, k)).filter fun (s, _) => s > 0.7
  (scored.mergeSort fun p q => p.1 ≤ q.1).map (·.2)

/-- Only known words are suggested. -/
theorem similarWords_subset (word : String) (known : List String) : similarWords word known ⊆ known := by
  intro s h
  unfold similarWords at h
  obtain ⟨p, hp, rfl⟩ := List.mem_map.mp h
  have hp' := (List.mergeSort_perm _ _).mem_iff.mp hp
  obtain ⟨⟨q, hq, hqp⟩, _⟩ := List.mem_filter.mp hp' |>.imp_left List.mem_map.mp
  subst hqp
  exact hq

end LotBridge.Cli
