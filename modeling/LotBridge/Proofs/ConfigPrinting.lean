import LotBridge.Proofs.TomlNodes
import LotBridge.Config.Bridge

/-!
# The printed configuration

`Bridge.printed` writes the settings as a TOML document: one `[potline]`
table, keys sorted at every level, the password masked, absent settings left
out. Its times are unsigned and TOML integers are signed, so settings with a
time above the largest TOML integer are refused (`Bridge.printed_error`);
the others print (`Bridge.printed_eq`) as the document of an explicit table
(`Bridge.printedEntries`).

That table is plain (`Bridge.plain_printedEntries`), so its document reads
back (see `TomlDocuments`). A reader meets its entries in another order, the
security table after the lines of the connection (`Bridge.readEntries`);
sorted again, as a configuration file is, they are the printed table
(`Bridge.sortEntries_readEntries`).

## Main definitions

* `Bridge.Printable`: no time above the largest TOML integer.
* `Security.sortedEntries`, `Bridge.printedEntries`, `Bridge.readEntries`.

## Main statements

* `Bridge.printed_eq`, `Bridge.printed_error`.
* `Bridge.parse_printed`, `Bridge.parse_section`: the printed text read back.
-/

namespace LotBridge.Config

open LotBridge.Toml

/-- An optional string setting as table entries: one, or none when it is
absent. -/
def optEntry (k : String) (o : Option String) : List (String × Toml.Value) :=
  (o.map fun v => (k, Toml.Value.string v)).toList

theorem toList_map_string (k : String) (o : Option String) :
    (o.map fun v => (k, Toml.Value.string v)).toList = optEntry k o :=
  rfl

theorem sortEntries_optEntry (k : String) (o : Option String) :
    Toml.Value.sortEntries (optEntry k o) = optEntry k o := by
  cases o <;> rfl

theorem plain_optEntry {k : String} (hk : BareKey k) (o : Option String) : PlainTable (optEntry k o) := by
  cases o with
  | none => trivial
  | some v => exact ⟨hk, rfl, trivial, trivial⟩

theorem isScalar_optEntry (k : String) (o : Option String) : ∀ kv ∈ optEntry k o, kv.2.IsScalar := by
  cases o <;> simp [optEntry, Value.IsScalar]

namespace Security

/-- The entries of the security table, keys sorted. -/
def sortedEntries (s : Security) : List (String × Toml.Value) :=
  optEntry "certificate" s.certificate ++ [("mode", .string s.mode.name)] ++ optEntry "password" s.password ++
    [("policy", .string s.policy.name)] ++ optEntry "private_key" s.privateKey ++ optEntry "username" s.username

theorem toToml_sortKeys (s : Security) : s.toToml.sortKeys = .table s.sortedEntries := by
  obtain ⟨policy, mode, certificate, privateKey, username, password⟩ := s
  cases certificate <;> cases privateKey <;> cases username <;> cases password <;>
    simp +decide [toToml, sortedEntries, optEntry, Toml.Value.sortKeys, Toml.Value.sortEntries, insertSorted]

theorem optEntry_keys_sublist (k : String) (o : Option String) : ((optEntry k o).map Prod.fst).Sublist [k] := by
  cases o <;> simp [optEntry]

/-- Present or not, the keys of the security table come in the order of all
its keys. -/
theorem keys_sublist (s : Security) : (s.sortedEntries.map Prod.fst).Sublist
    (["certificate"] ++ ["mode"] ++ ["password"] ++ ["policy"] ++ ["private_key"] ++ ["username"]) := by
  simp only [sortedEntries, List.map_append]
  exact (((((optEntry_keys_sublist _ _).append (List.Sublist.refl _)).append (optEntry_keys_sublist _ _)).append
    (List.Sublist.refl _)).append (optEntry_keys_sublist _ _)).append (optEntry_keys_sublist _ _)

theorem sortedEntries_sorted (s : Security) : s.sortedEntries.Pairwise (fun a b => a.1 < b.1) := by
  have hall : (["certificate"] ++ ["mode"] ++ ["password"] ++ ["policy"] ++ ["private_key"] ++ ["username"]).Pairwise
      (· < ·) := by decide
  exact List.pairwise_map.1 (hall.sublist s.keys_sublist)

theorem isScalar_sortedEntries (s : Security) : ∀ kv ∈ s.sortedEntries, kv.2.IsScalar := by
  simp [sortedEntries, optEntry, Toml.Value.IsScalar, or_imp, forall_and]

theorem sortEntries_sortedEntries (s : Security) : Toml.Value.sortEntries s.sortedEntries = s.sortedEntries :=
  sortEntries_of_sorted s.sortedEntries_sorted fun kv hkv => sortKeys_of_isScalar (s.isScalar_sortedEntries kv hkv)

theorem plain_sortedEntries (s : Security) : PlainTable s.sortedEntries := by
  have hbare : ∀ k ∈ ["certificate"] ++ ["mode"] ++ ["password"] ++ ["policy"] ++ ["private_key"] ++ ["username"],
      BareKey k := by simp [BareKey, isBareChar]
  exact plainTable_of_sorted s.sortedEntries_sorted fun kv hkv =>
    ⟨hbare kv.1 (s.keys_sublist.subset (List.mem_map_of_mem hkv)), .of_isScalar (s.isScalar_sortedEntries kv hkv)⟩

end Security

namespace Connection

/-- The entries of the printed connection table, keys sorted. -/
def printedEntries (c : Connection) : List (String × Toml.Value) :=
  [("connect_timeout_ms", .integer c.connectTimeoutMs), ("endpoint", .string c.endpoint),
   ("namespace_uri", .string c.namespaceUri), ("request_timeout_ms", .integer c.requestTimeoutMs),
   ("security", .table c.security.sortedEntries), ("watchdog_interval_ms", .integer c.watchdogIntervalMs)]

/-- The same entries in the order a reader of the document meets them: the
security table after the lines. -/
def readEntries (c : Connection) : List (String × Toml.Value) :=
  [("connect_timeout_ms", .integer c.connectTimeoutMs), ("endpoint", .string c.endpoint),
   ("namespace_uri", .string c.namespaceUri), ("request_timeout_ms", .integer c.requestTimeoutMs),
   ("watchdog_interval_ms", .integer c.watchdogIntervalMs), ("security", .table c.security.sortedEntries)]

end Connection

/-- The entries of the printed retry table, keys sorted. -/
def retryEntries (r : Retry.Settings) : List (String × Toml.Value) :=
  [("attempts", .integer r.attempts), ("backoff", .string r.shape.name), ("delay_ms", .integer r.delayMs),
   ("max_delay_ms", .integer r.maxDelayMs)]

/-- The entries of the printed completion log table, keys sorted. -/
def logEntries (l : CompletionLog) : List (String × Toml.Value) :=
  [("dir", .string l.dir), ("enabled", .boolean l.enabled), ("file", .string l.file)]

namespace Bridge

/-- The times of the settings, which are printed as TOML integers. -/
def times (b : Bridge) : List Nat :=
  [b.connection.connectTimeoutMs, b.connection.requestTimeoutMs, b.connection.watchdogIntervalMs,
    b.retry.delayMs, b.retry.maxDelayMs]

/-- Settings that print: no time above the largest TOML integer. -/
def Printable (b : Bridge) : Prop := ∀ t ∈ b.times, t ≤ 9223372036854775807

instance (b : Bridge) : Decidable b.Printable := inferInstanceAs (Decidable (∀ t ∈ b.times, _))

/-- The entries of the printed `[potline]` table, keys sorted. -/
def printedEntries (b : Bridge) : List (String × Toml.Value) :=
  [("completion_log", .table (logEntries b.completionLog)), ("connection", .table b.connection.printedEntries),
   ("general", .table (optEntry "log_level" b.general.logLevel)), ("retry", .table (retryEntries b.retry))]

theorem ofUnsigned_of_le {n : Nat} (h : n ≤ 9223372036854775807) : Toml.Value.ofUnsigned n = .ok (.integer n) := by
  simp [Toml.Value.ofUnsigned, h]

/-- Settings whose times fit print as the document of their sorted table,
the password masked. -/
theorem printed_eq {b : Bridge} (hb : b.Printable) :
    b.printed = .ok (documentText true [("potline", .table b.masked.printedEntries)]) := by
  simp only [Printable, times, List.mem_cons, List.not_mem_nil, or_false, forall_eq_or_imp, forall_eq] at hb
  obtain ⟨h₁, h₂, h₃, h₄, h₅⟩ := hb
  simp only [printed, toToml, Connection.toToml, masked, ofUnsigned_of_le h₁, ofUnsigned_of_le h₂,
    ofUnsigned_of_le h₃, ofUnsigned_of_le h₄, ofUnsigned_of_le h₅]
  simp +decide [bind, Except.bind, pure, Except.pure, Toml.Value.sortKeys, Toml.Value.sortEntries, insertSorted,
    Security.toToml_sortKeys, printedEntries, Connection.printedEntries, retryEntries, logEntries, toList_map_string,
    sortEntries_optEntry]

theorem ofUnsigned_of_lt {n : Nat} (h : 9223372036854775807 < n) :
    Toml.Value.ofUnsigned n = .error "u64 value was too large" := by
  simp [Toml.Value.ofUnsigned, not_le.2 h]

/-- A connection with a time that does not fit is not written out. -/
theorem connection_toToml_error {c : Connection}
    (h : ¬ (c.connectTimeoutMs ≤ 9223372036854775807 ∧ c.requestTimeoutMs ≤ 9223372036854775807 ∧
      c.watchdogIntervalMs ≤ 9223372036854775807)) :
    c.toToml = .error "u64 value was too large" := by
  simp only [not_and_or, not_le] at h
  rcases h with h | h | h
  · simp [Connection.toToml, ofUnsigned_of_lt h, bind, Except.bind]
  · by_cases h₁ : c.connectTimeoutMs ≤ 9223372036854775807
    · simp [Connection.toToml, ofUnsigned_of_le h₁, ofUnsigned_of_lt h, bind, Except.bind]
    · simp [Connection.toToml, ofUnsigned_of_lt (not_le.1 h₁), bind, Except.bind]
  · by_cases h₁ : c.connectTimeoutMs ≤ 9223372036854775807 <;>
      by_cases h₂ : c.requestTimeoutMs ≤ 9223372036854775807 <;>
      simp_all [Connection.toToml, ofUnsigned_of_le, ofUnsigned_of_lt, bind, Except.bind]

/-- Settings with a time that does not fit are refused, with the words of the
first such time, which are the same for all. -/
theorem printed_error {b : Bridge} (hb : ¬ b.Printable) : b.printed = .error "u64 value was too large" := by
  by_cases hc : b.connection.connectTimeoutMs ≤ 9223372036854775807 ∧
      b.connection.requestTimeoutMs ≤ 9223372036854775807 ∧ b.connection.watchdogIntervalMs ≤ 9223372036854775807
  · obtain ⟨h₁, h₂, h₃⟩ := hc
    have hr : ¬ (b.retry.delayMs ≤ 9223372036854775807 ∧ b.retry.maxDelayMs ≤ 9223372036854775807) := by
      simpa [Printable, times, h₁, h₂, h₃] using hb
    simp only [not_and_or, not_le] at hr
    rcases hr with h | h
    · simp [printed, toToml, Connection.toToml, masked, ofUnsigned_of_le h₁, ofUnsigned_of_le h₂,
        ofUnsigned_of_le h₃, ofUnsigned_of_lt h, bind, Except.bind, pure, Except.pure]
    · by_cases h₄ : b.retry.delayMs ≤ 9223372036854775807
      · simp [printed, toToml, Connection.toToml, masked, ofUnsigned_of_le h₁, ofUnsigned_of_le h₂,
          ofUnsigned_of_le h₃, ofUnsigned_of_le h₄, ofUnsigned_of_lt h, bind, Except.bind, pure, Except.pure]
      · simp [printed, toToml, Connection.toToml, masked, ofUnsigned_of_le h₁, ofUnsigned_of_le h₂,
          ofUnsigned_of_le h₃, ofUnsigned_of_lt (not_le.1 h₄), bind, Except.bind, pure, Except.pure]
  · have hm := connection_toToml_error (c := b.masked.connection) hc
    simp [printed, toToml, hm, bind, Except.bind]

/-- The entries of the printed `[potline]` table in the order a reader of the
document meets them. -/
def readEntries (b : Bridge) : List (String × Toml.Value) :=
  [("completion_log", .table (logEntries b.completionLog)), ("connection", .table b.connection.readEntries),
   ("general", .table (optEntry "log_level" b.general.logLevel)), ("retry", .table (retryEntries b.retry))]

theorem laidOut_printedEntries (b : Bridge) :
    lineEntries b.printedEntries ++ sectionEntries b.printedEntries = b.readEntries := by
  simp [printedEntries, readEntries, Connection.printedEntries, Connection.readEntries, retryEntries, logEntries,
    lineEntries_cons, lineEntries_nil, sectionEntries, Value.isSection,
    Value.isTable, Value.isTableArray, lineEntries_of_scalars (Security.isScalar_sortedEntries _),
    sectionEntries_of_scalars (Security.isScalar_sortedEntries _), lineEntries_of_scalars (isScalar_optEntry _ _),
    sectionEntries_of_scalars (isScalar_optEntry _ _)]

/-- Sorted again, the entries as read are the printed ones. -/
theorem sortEntries_readEntries (b : Bridge) : Toml.Value.sortEntries b.readEntries = b.printedEntries := by
  simp +decide [readEntries, printedEntries, Connection.printedEntries, Connection.readEntries, retryEntries,
    logEntries, Toml.Value.sortEntries, Toml.Value.sortKeys, insertSorted, Security.sortEntries_sortedEntries,
    sortEntries_optEntry]

/-! ### The printed table is plain -/

theorem plain_printedEntries {b : Bridge} (hb : b.Printable) (ha : b.retry.attempts ≤ 9223372036854775807) :
    PlainTable b.printedEntries := by
  simp only [Printable, times, List.mem_cons, List.not_mem_nil, or_false, forall_eq_or_imp, forall_eq] at hb
  obtain ⟨h₁, h₂, h₃, h₄, h₅⟩ := hb
  refine plainTable_of_keys ["completion_log", "connection", "general", "retry"] rfl (by decide)
    (by simp [BareKey, isBareChar]) ?_
  simp only [printedEntries, Connection.printedEntries, retryEntries, logEntries, List.mem_cons, List.not_mem_nil,
    or_false, forall_eq_or_imp, forall_eq, Value.Plain]
  refine ⟨?_, ?_, ?_, ?_⟩
  · exact plainTable_of_keys ["dir", "enabled", "file"] rfl (by decide) (by simp [BareKey, isBareChar])
      (by simp [Value.Plain, Value.IsScalar])
  · refine plainTable_of_keys ["connect_timeout_ms", "endpoint", "namespace_uri", "request_timeout_ms",
      "security", "watchdog_interval_ms"] rfl (by decide) (by simp [BareKey, isBareChar]) ?_
    simp only [List.mem_cons, List.not_mem_nil, or_false, forall_eq_or_imp, forall_eq]
    exact ⟨.of_isScalar (isScalar_natCast h₁), .of_isScalar trivial, .of_isScalar trivial,
      .of_isScalar (isScalar_natCast h₂), b.connection.security.plain_sortedEntries, .of_isScalar (isScalar_natCast h₃)⟩
  · exact plain_optEntry (by simp [BareKey, isBareChar]) _
  · refine plainTable_of_keys ["attempts", "backoff", "delay_ms", "max_delay_ms"] rfl (by decide)
      (by simp [BareKey, isBareChar]) ?_
    simp only [List.mem_cons, List.not_mem_nil, or_false, forall_eq_or_imp, forall_eq]
    exact ⟨.of_isScalar (isScalar_natCast ha), .of_isScalar trivial, .of_isScalar (isScalar_natCast h₄),
      .of_isScalar (isScalar_natCast h₅)⟩

/-! ### The printed text read back -/

theorem plain_printed {b : Bridge} (hb : b.Printable) (ha : b.retry.attempts ≤ 9223372036854775807) :
    PlainTable [("potline", .table b.printedEntries)] :=
  ⟨by simp [BareKey, isBareChar], rfl, plain_printedEntries hb ha, trivial⟩

/-- The printed document reads back, its keys sorted as a file's are, to the
`[potline]` table it was printed from. -/
theorem parse_printed {b : Bridge} (hb : b.Printable) (ha : b.retry.attempts ≤ 9223372036854775807) :
    ∃ root, Tree.parse (documentText true [("potline", .table b.printedEntries)]) = .ok (.table .header root none) ∧
      (Tree.table .header root none).toValue.sortKeys = .table [("potline", .table b.printedEntries)] := by
  obtain ⟨root, hparse, -, hvalues⟩ := parse_documentText (plain_printed hb ha) true
  refine ⟨root, hparse, ?_⟩
  rw [Tree.toValue, hvalues]
  simp [lineEntries_cons, lineEntries_nil, sectionEntries, Value.isSection, Value.isTable, laidOut_printedEntries,
    Toml.Value.sortKeys, Toml.Value.sortEntries, insertSorted, sortEntries_readEntries]

/-- The `[potline]` table written out again reads back in the order of
`readEntries`. -/
theorem parse_section {b : Bridge} (hb : b.Printable) (ha : b.retry.attempts ≤ 9223372036854775807) :
    ∃ root, Tree.parse (documentText false b.printedEntries) = .ok (.table .header root none) ∧
      Tree.PlainEntries root ∧ Tree.entryValues root = b.readEntries := by
  obtain ⟨root, hparse, hplain, hvalues⟩ := parse_documentText (plain_printedEntries hb ha) false
  exact ⟨root, hparse, hplain, by rw [hvalues, laidOut_printedEntries]⟩

end Bridge

end LotBridge.Config
