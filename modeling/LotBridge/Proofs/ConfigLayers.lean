import LotBridge.Proofs.TomlDecoding
import LotBridge.Proofs.ConfigReload

/-!
# Configuration in layers

The bridge's settings come in layers: the defaults, then the `[potline]`
section of the file, then the environment.

The file layer writes the section back out as a document and decodes that
text. A table read back holds each key once, so the decoders read it key by
key (`readKeys`): each setting takes the value its key holds, read as the
setting reads values, and keeps its default when the key is absent; a key that
names no setting is skipped. The settings of each table, with their keys and
the way they read values, are the `readers` of its record. A table given as an
array fills its settings in the order of the fields instead, and a date-time
leaves the defaults. A file without the section fails with
"missing [potline] section", and a section that is no table with
"unsupported rust type".

The environment layer replaces each setting whose variable is set: a text as
it is, a number as its text reads with blanks around it dropped
(`Bridge.overridden`). A setting whose variable is not set keeps its value,
and a number that does not read fails, naming its variable.

## Main definitions

* `Security.readers`, `Connection.readers`, `Retry.Settings.readers`,
  `CompletionLog.readers`, `General.readers`, `Bridge.readers`: the settings
  of each table under their keys.
* `Bridge.ofSection`: the settings a `[potline]` table gives, key by key.
* `Bridge.overridden`, `Bridge.EnvReads`: the environment's layer.

## Main statements

* `Bridge.load_section`: the file layer, for every file whose text parses.
* `Bridge.applyEnv_eq_ok_iff`, `Bridge.applyEnv_error`: the environment layer.
* `Bridge.settings_layered`: the layers together.
* `Bridge.load_refuses_scalarSection`: a `potline` key that holds a number is
  refused as no table, not as a missing section.
-/

namespace LotBridge.Config

open LotBridge.Json LotBridge.Toml

/-- A file path is read from a string. -/
theorem reads_path : Reads Security.path Value.text? := by
  intro t ks _ _ _
  cases t with
  | scalar v sp =>
    cases v with
    | integer i =>
      simp only [Tree.toNode, scalarNode]
      split_ifs <;> simp [Security.path, Tree.toValue, Value.blur, Value.text?]
    | _ => simp [Tree.toNode, scalarNode, Security.path, Tree.toValue, Value.blur, Value.text?]
  | _ => simp [Tree.toNode, Security.path, Value.text?]

namespace Security

/-- The security settings under their keys. -/
def readers : List (String × (Toml.Value → Security → Option Security)) :=
  [fieldReader "policy" (Value.choice? Policy.names) fun v s => { s with policy := v },
   fieldReader "mode" (Value.choice? Mode.names) fun v s => { s with mode := v },
   fieldReader "certificate" (fun v => v.text?.map some) fun v s => { s with certificate := v },
   fieldReader "private_key" (fun v => v.text?.map some) fun v s => { s with privateKey := v },
   fieldReader "username" (fun v => v.text?.map some) fun v s => { s with username := v },
   fieldReader "password" (fun v => v.text?.map some) fun v s => { s with password := v }]

/-- Security settings read key by key. -/
def ofValue : Toml.Value → Option Security := readKeys readers {}

theorem fieldsRead : FieldsRead fields readers :=
  .cons ⟨rfl, (reads_unitEnum _ rfl).field _ _⟩ <| .cons ⟨rfl, (reads_unitEnum _ rfl).field _ _⟩ <|
  .cons ⟨rfl, (reads_option reads_path).field _ _⟩ <| .cons ⟨rfl, (reads_option reads_path).field _ _⟩ <|
  .cons ⟨rfl, (reads_option reads_string).field _ _⟩ <| .cons ⟨rfl, (reads_option reads_string).field _ _⟩ .nil

theorem readers_commute : readers.Pairwise fun r r' => ReadersCommute r.2 r'.2 := by
  simp only [readers, List.pairwise_cons, List.mem_cons, List.not_mem_nil, or_false, forall_eq_or_imp, forall_eq,
    List.Pairwise.nil, and_true, false_implies, implies_true]
  and_intros <;> exact readersCommute_fieldReader fun _ _ _ => rfl

theorem reads_decoder : Reads decoder ofValue :=
  (reads_decodeStruct fieldsRead rfl).congr fun _ hv => readRecord_eq_readKeys (by decide) readers_commute {} hv

end Security

namespace Connection

/-- The connection settings under their keys. -/
def readers : List (String × (Toml.Value → Connection → Option Connection)) :=
  [fieldReader "endpoint" Value.text? fun v c => { c with endpoint := v },
   fieldReader "connect_timeout_ms" (Value.count? 64) fun v c => { c with connectTimeoutMs := v },
   fieldReader "request_timeout_ms" (Value.count? 64) fun v c => { c with requestTimeoutMs := v },
   fieldReader "watchdog_interval_ms" (Value.count? 64) fun v c => { c with watchdogIntervalMs := v },
   fieldReader "namespace_uri" Value.text? fun v c => { c with namespaceUri := v },
   fieldReader "security" Security.ofValue fun v c => { c with security := v }]

/-- Connection settings read key by key. -/
def ofValue : Toml.Value → Option Connection := readKeys readers {}

theorem fieldsRead : FieldsRead fields readers :=
  .cons ⟨rfl, reads_string.field _ _⟩ <| .cons ⟨rfl, (reads_uint 64 _).field _ _⟩ <|
  .cons ⟨rfl, (reads_uint 64 _).field _ _⟩ <| .cons ⟨rfl, (reads_uint 64 _).field _ _⟩ <|
  .cons ⟨rfl, reads_string.field _ _⟩ <| .cons ⟨rfl, Security.reads_decoder.field _ _⟩ .nil

theorem readers_commute : readers.Pairwise fun r r' => ReadersCommute r.2 r'.2 := by
  simp only [readers, List.pairwise_cons, List.mem_cons, List.not_mem_nil, or_false, forall_eq_or_imp, forall_eq,
    List.Pairwise.nil, and_true, false_implies, implies_true]
  and_intros <;> exact readersCommute_fieldReader fun _ _ _ => rfl

theorem reads_decoder : Reads decoder ofValue :=
  (reads_decodeStruct fieldsRead rfl).congr fun _ hv => readRecord_eq_readKeys (by decide) readers_commute {} hv

end Connection

namespace Retry.Settings

/-- The retry settings under their keys. -/
def readers : List (String × (Toml.Value → Retry.Settings → Option Retry.Settings)) :=
  [fieldReader "attempts" (Value.count? 32) fun v s => { s with attempts := v },
   fieldReader "delay_ms" (Value.count? 64) fun v s => { s with delayMs := v },
   fieldReader "max_delay_ms" (Value.count? 64) fun v s => { s with maxDelayMs := v },
   fieldReader "backoff" (Value.choice? Retry.Shape.names) fun v s => { s with shape := v }]

/-- Retry settings read key by key. -/
def ofValue : Toml.Value → Option Retry.Settings := readKeys readers {}

theorem fieldsRead : FieldsRead Retry.Settings.fields readers :=
  .cons ⟨rfl, (reads_uint 32 _).field _ _⟩ <| .cons ⟨rfl, (reads_uint 64 _).field _ _⟩ <|
  .cons ⟨rfl, (reads_uint 64 _).field _ _⟩ <| .cons ⟨rfl, (reads_unitEnum _ rfl).field _ _⟩ .nil

theorem readers_commute : readers.Pairwise fun r r' => ReadersCommute r.2 r'.2 := by
  simp only [readers, List.pairwise_cons, List.mem_cons, List.not_mem_nil, or_false, forall_eq_or_imp, forall_eq,
    List.Pairwise.nil, and_true, false_implies, implies_true]
  and_intros <;> exact readersCommute_fieldReader fun _ _ _ => rfl

theorem reads_decoder : Reads Retry.Settings.decoder ofValue :=
  (reads_decodeStruct fieldsRead rfl).congr fun _ hv => readRecord_eq_readKeys (by decide) readers_commute {} hv

end Retry.Settings

namespace CompletionLog

/-- The completion log settings under their keys. -/
def readers : List (String × (Toml.Value → CompletionLog → Option CompletionLog)) :=
  [fieldReader "enabled" Value.flag? fun v l => { l with enabled := v },
   fieldReader "dir" Value.text? fun v l => { l with dir := v },
   fieldReader "file" Value.text? fun v l => { l with file := v }]

/-- Completion log settings read key by key, from the default log of a user's
data directory. -/
def ofValue (dataDir : Option String) : Toml.Value → Option CompletionLog :=
  readKeys readers (CompletionLog.default dataDir)

theorem fieldsRead : FieldsRead Bridge.logFields readers :=
  .cons ⟨rfl, reads_bool.field _ _⟩ <| .cons ⟨rfl, reads_string.field _ _⟩ <| .cons ⟨rfl, reads_string.field _ _⟩ .nil

theorem readers_commute : readers.Pairwise fun r r' => ReadersCommute r.2 r'.2 := by
  simp only [readers, List.pairwise_cons, List.mem_cons, List.not_mem_nil, or_false, forall_eq_or_imp, forall_eq,
    List.Pairwise.nil, and_true, false_implies, implies_true]
  and_intros <;> exact readersCommute_fieldReader fun _ _ _ => rfl

theorem reads_decoder (dataDir : Option String) : Reads (Bridge.logDecoder dataDir) (ofValue dataDir) :=
  (reads_decodeStruct fieldsRead rfl).congr fun _ hv => readRecord_eq_readKeys (by decide) readers_commute _ hv

end CompletionLog

namespace General

/-- The general settings under their keys. -/
def readers : List (String × (Toml.Value → General → Option General)) :=
  [fieldReader "log_level" (fun v => v.text?.map some) fun v _ => { logLevel := v }]

/-- General settings read key by key. -/
def ofValue : Toml.Value → Option General := readKeys readers {}

theorem fieldsRead : FieldsRead Bridge.generalFields readers :=
  .cons ⟨rfl, (reads_option reads_string).field _ _⟩ .nil

theorem reads_decoder (dataDir : Option String) :
    Reads (decodeStruct "GeneralConfig" Bridge.generalFields (Bridge.default dataDir).general (fun g _ _ => .ok g)
      false 0) ofValue :=
  (reads_decodeStruct fieldsRead rfl).congr fun _ hv =>
    readRecord_eq_readKeys (by decide) (List.pairwise_singleton _ _) _ hv

end General

namespace Bridge

/-- The tables of the `[potline]` section under their keys. -/
def readers (dataDir : Option String) : List (String × (Toml.Value → Bridge → Option Bridge)) :=
  [fieldReader "general" General.ofValue fun v b => { b with general := v },
   fieldReader "connection" Connection.ofValue fun v b => { b with connection := v },
   fieldReader "retry" Retry.Settings.ofValue fun v b => { b with retry := v },
   fieldReader "completion_log" (CompletionLog.ofValue dataDir) fun v b => { b with completionLog := v }]

/-- The settings a `[potline]` table gives, key by key, from the defaults of a
user's data directory. -/
def ofSection (dataDir : Option String) (es : List (String × Toml.Value)) : Option Bridge :=
  readFields (readers dataDir) es (Bridge.default dataDir)

theorem readers_commute (dataDir : Option String) : (readers dataDir).Pairwise fun r r' => ReadersCommute r.2 r'.2 := by
  simp only [readers, List.pairwise_cons, List.mem_cons, List.not_mem_nil, or_false, forall_eq_or_imp, forall_eq,
    List.Pairwise.nil, and_true, false_implies, implies_true]
  and_intros <;> exact readersCommute_fieldReader fun _ _ _ => rfl

end Bridge

/-! ## The file layer -/

namespace Section

variable {α : Type} {s : Section α} {w : Workdir} {path content : String} {root : Tree}
  {doc : List (String × Toml.Value)}

section Parsed

variable (hread : w.read path = .ok content) (hparse : Tree.parse content = .ok root)
  (hdoc : root.toValue.sortKeys = .table doc)
include hread hparse hdoc

theorem load_missing (h : lookup s.key doc = none) :
    s.load w path = .error (.parse path ("missing [" ++ s.key ++ "] section")) := by
  simp [load, fromFile, hread, hparse, hdoc, h, bind, Except.bind, pure, Except.pure, throw, throwThe,
    MonadExceptOf.throw]

theorem load_scalar {v : Toml.Value} (h : lookup s.key doc = some v) (hv : v.isTable = false) :
    s.load w path = .error (.parse path notATable) := by
  cases v with
  | table => cases hv
  | _ =>
    simp [load, fromFile, hread, hparse, hdoc, h, bind, Except.bind, pure, Except.pure, throw, throwThe,
      MonadExceptOf.throw]

theorem load_table {inner : List (String × Toml.Value)} (h : lookup s.key doc = some (.table inner)) :
    s.load w path = (decodeDocument s.decoder (documentText false inner)).mapError (.parse path) := by
  simp only [load, fromFile, hread, hparse, hdoc, h, bind, Except.bind, pure, Except.pure, throw, throwThe,
    MonadExceptOf.throw]
  cases decodeDocument s.decoder (documentText false inner) <;> rfl

end Parsed

end Section

theorem mem_of_lookup {k : String} {es : List (String × Toml.Value)} {v : Toml.Value} (h : lookup k es = some v) :
    (k, v) ∈ es := by
  obtain ⟨⟨k', v'⟩, hkv, hv⟩ := Option.map_eq_some_iff.1 h
  have hk : k' = k := by simpa using List.find?_some hkv
  simpa [← hk, ← hv] using List.mem_of_find?_eq_some hkv

namespace Bridge

/-- The bridge's decoder reads a document's root table key by key. -/
theorem decoder_rootNode (dataDir : Option String) {E : List Entry} (hl : Tree.LaidEntries E)
    (hr : ∀ e ∈ E, e.2.2.toValue.Readable) (hd : (Toml.Value.table (Tree.view E)).Distinct) :
    (decoder dataDir .config (Tree.table .header E none).rootNode).toOption = ofSection dataDir (Tree.view E) := by
  have hkeys : (Tree.view E).map Prod.fst = E.map Prod.fst := by simp [Tree.view]
  rw [Toml.Value.distinct_table, hkeys] at hd
  have hvals : ∀ e ∈ E, e.2.2.toValue.Distinct := fun e he =>
    Toml.Value.distinct_blur.1 (hd.2 (e.1, e.2.2.toValue.blur) (List.mem_map_of_mem he))
  dsimp only [decoder, Tree.rootNode]
  refine (decodeStruct_entryNodes ?_ hl.leafy hr hvals hd.1 _ _).trans
    (readRecord_table (by simp [readers, fieldReader]) (readers_commute dataDir) (hkeys ▸ hd.1) _)
  exact .cons ⟨rfl, (General.reads_decoder dataDir).field _ _⟩ <| .cons ⟨rfl, Connection.reads_decoder.field _ _⟩ <|
    .cons ⟨rfl, Retry.Settings.reads_decoder.field _ _⟩ <| .cons ⟨rfl, (CompletionLog.reads_decoder dataDir).field _ _⟩ .nil

/-- The file layer. The `[potline]` table of a file whose text parses is
written back out and read again: the settings are the table's, read key by
key from the document read back, which lays each table's values before its
tables and forgets floats; a refusal is a parse error of the file. -/
theorem load_section (dataDir : Option String) {w : Workdir} {path content : String} {root : Tree}
    {doc inner : List (String × Toml.Value)} (hread : w.read path = .ok content) (hparse : Tree.parse content = .ok root)
    (hdoc : root.toValue.sortKeys = .table doc) (hsec : lookup "potline" doc = some (.table inner)) :
    ((configSection dataDir).load w path).toOption = ofSection dataDir (Toml.Value.blurEntries (layoutEntries inner)) ∧
      ∀ e, (configSection dataDir).load w path = .error e → ∃ r, e = .parse path r := by
  have hmem := mem_of_lookup hsec
  -- the section holds 64-bit integers, valid date-times and each key once, as the map of a parsed file does
  have hr : (Toml.Value.table inner).Readable := by
    have hall := Toml.Value.readable_sortKeys _ (Tree.parse_readable hparse)
    rw [hdoc, Toml.Value.readable_table] at hall
    exact hall _ hmem
  have hd : (Toml.Value.table inner).Distinct := by
    have hall := Toml.Value.distinct_sortKeys root.toValue
    rw [hdoc, Toml.Value.distinct_table] at hall
    exact hall.2 _ hmem
  obtain ⟨E, hparse', hlaid, hview⟩ := documentText_readBack hr hd
  have hdec := decoder_rootNode dataDir hlaid (Tree.entriesReadable_of_table (Tree.parse_readable hparse'))
    (hview ▸ Toml.Value.distinct_blur.2 (distinct_layoutEntries hd))
  rw [hview] at hdec
  have hdecoder : (configSection dataDir).decoder = decoder dataDir := rfl
  rw [Section.load_table hread hparse hdoc hsec]
  simp only [decodeDocument, hparse', hdecoder]
  cases hx : decoder dataDir .config (Tree.table .header E none).rootNode with
  | ok b =>
    rw [hx] at hdec
    exact ⟨hdec, fun e he => by cases he⟩
  | error e =>
    rw [hx] at hdec
    exact ⟨hdec, fun e' he => ⟨_, (Except.error.inj he).symm⟩⟩

end Bridge

/-! ## The environment layer -/

theorem bind_eq_error {ε β γ : Type} {x : Except ε β} {f : β → Except ε γ} {e : ε} :
    x >>= f = .error e ↔ x = .error e ∨ ∃ b, x = .ok b ∧ f b = .error e := by
  cases x <;> simp [bind, Except.bind]

/-- Whether variable `name`, when it is set, reads as a number below `bound`,
blanks around it dropped. -/
def EnvNumberReads (env : String → Option String) (name : String) (bound : Nat) : Prop :=
  ∀ raw, env name = some raw → ∃ n, Text.readUnsigned bound (Text.trim raw) = .ok n

/-- A number setting under the environment: what its variable reads as when it
is set and reads, the setting `current` otherwise. -/
def envCount (env : String → Option String) (name : String) (bound current : Nat) : Nat :=
  ((env name).bind fun raw => (Text.readUnsigned bound (Text.trim raw)).toOption).getD current

theorem envSetting_eq_ok_iff {env : String → Option String} {name : String} {bound current n : Nat} :
    envSetting env name bound current = .ok n ↔ EnvNumberReads env name bound ∧ n = envCount env name bound current := by
  unfold envSetting envNumber envCount EnvNumberReads
  cases hv : env name with
  | none => simp [pure, Except.pure, eq_comm]
  | some raw =>
    cases hr : Text.readUnsigned bound (Text.trim raw) with
    | error e => simp [hr]
    | ok m => simp [hr, eq_comm]

/-- A number setting refused by the environment names its variable, which is
set and does not read. -/
theorem envSetting_error {env : String → Option String} {name : String} {bound current : Nat} {e : ConfigError}
    (h : envSetting env name bound current = .error e) :
    ∃ raw err, env name = some raw ∧ Text.readUnsigned bound (Text.trim raw) = .error err ∧
      e = .env name ("'" ++ raw ++ "': " ++ err.message) := by
  unfold envSetting envNumber at h
  cases hv : env name with
  | none => simp [hv, pure, Except.pure] at h
  | some raw =>
    rw [hv] at h
    cases hr : Text.readUnsigned bound (Text.trim raw) with
    | ok m => simp [hr] at h
    | error err =>
      simp only [hr, Except.error.injEq] at h
      exact ⟨raw, err, rfl, hr, h.symm⟩

namespace Bridge

/-- The number settings of the environment with their bounds, in the order
they are read. -/
def numberVars : List (String × Nat) :=
  [("POTLINE_CONNECT_TIMEOUT_MS", 18446744073709551616), ("POTLINE_REQUEST_TIMEOUT_MS", 18446744073709551616),
   ("POTLINE_WATCHDOG_INTERVAL_MS", 18446744073709551616), ("POTLINE_RETRY_ATTEMPTS", 4294967296),
   ("POTLINE_RETRY_DELAY_MS", 18446744073709551616), ("POTLINE_RETRY_MAX_DELAY_MS", 18446744073709551616)]

/-- Every number the environment sets reads. -/
def EnvReads (env : String → Option String) : Prop := ∀ nb ∈ numberVars, EnvNumberReads env nb.1 nb.2

/-- The settings under the environment, key by key: a setting whose variable
is set takes its value, a text as it is and a number as it reads; every other
setting keeps its value. -/
def overridden (env : String → Option String) (b : Bridge) : Bridge where
  general := { logLevel := (env "POTLINE_LOG_LEVEL").orElse fun _ => b.general.logLevel }
  connection :=
    { b.connection with
      endpoint := (env "POTLINE_ENDPOINT").getD b.connection.endpoint
      connectTimeoutMs := envCount env "POTLINE_CONNECT_TIMEOUT_MS" 18446744073709551616 b.connection.connectTimeoutMs
      requestTimeoutMs := envCount env "POTLINE_REQUEST_TIMEOUT_MS" 18446744073709551616 b.connection.requestTimeoutMs
      watchdogIntervalMs :=
        envCount env "POTLINE_WATCHDOG_INTERVAL_MS" 18446744073709551616 b.connection.watchdogIntervalMs
      namespaceUri := (env "POTLINE_NAMESPACE_URI").getD b.connection.namespaceUri
      security :=
        { b.connection.security with
          username := (env "POTLINE_USERNAME").orElse fun _ => b.connection.security.username
          password := (env "POTLINE_PASSWORD").orElse fun _ => b.connection.security.password } }
  retry :=
    { b.retry with
      attempts := envCount env "POTLINE_RETRY_ATTEMPTS" 4294967296 b.retry.attempts
      delayMs := envCount env "POTLINE_RETRY_DELAY_MS" 18446744073709551616 b.retry.delayMs
      maxDelayMs := envCount env "POTLINE_RETRY_MAX_DELAY_MS" 18446744073709551616 b.retry.maxDelayMs }
  completionLog := b.completionLog

/-- The environment layer succeeds exactly when every number it sets reads,
and then gives the settings key by key. -/
theorem applyEnv_eq_ok_iff {env : String → Option String} {b b' : Bridge} :
    applyEnv env b = .ok b' ↔ EnvReads env ∧ b' = b.overridden env := by
  constructor
  · intro h
    unfold applyEnv at h
    obtain ⟨t₁, h₁, h⟩ := bind_eq_ok.1 h
    obtain ⟨t₂, h₂, h⟩ := bind_eq_ok.1 h
    obtain ⟨t₃, h₃, h⟩ := bind_eq_ok.1 h
    obtain ⟨t₄, h₄, h⟩ := bind_eq_ok.1 h
    obtain ⟨t₅, h₅, h⟩ := bind_eq_ok.1 h
    obtain ⟨t₆, h₆, h⟩ := bind_eq_ok.1 h
    obtain ⟨r₁, rfl⟩ := envSetting_eq_ok_iff.1 h₁
    obtain ⟨r₂, rfl⟩ := envSetting_eq_ok_iff.1 h₂
    obtain ⟨r₃, rfl⟩ := envSetting_eq_ok_iff.1 h₃
    obtain ⟨r₄, rfl⟩ := envSetting_eq_ok_iff.1 h₄
    obtain ⟨r₅, rfl⟩ := envSetting_eq_ok_iff.1 h₅
    obtain ⟨r₆, rfl⟩ := envSetting_eq_ok_iff.1 h₆
    refine ⟨?_, (pure_eq_ok.1 h).symm⟩
    simp only [EnvReads, numberVars, List.mem_cons, List.not_mem_nil, or_false]
    rintro nb (rfl | rfl | rfl | rfl | rfl | rfl) <;> assumption
  · rintro ⟨henv, rfl⟩
    have hread : ∀ nb ∈ numberVars, EnvNumberReads env nb.1 nb.2 := henv
    simp only [numberVars, List.mem_cons, List.not_mem_nil, or_false, forall_eq_or_imp, forall_eq] at hread
    obtain ⟨r₁, r₂, r₃, r₄, r₅, r₆⟩ := hread
    simp only [applyEnv, envSetting_eq_ok_iff.2 ⟨r₁, rfl⟩, envSetting_eq_ok_iff.2 ⟨r₂, rfl⟩,
      envSetting_eq_ok_iff.2 ⟨r₃, rfl⟩, envSetting_eq_ok_iff.2 ⟨r₄, rfl⟩, envSetting_eq_ok_iff.2 ⟨r₅, rfl⟩,
      envSetting_eq_ok_iff.2 ⟨r₆, rfl⟩]
    rfl

/-- A refusal of the environment layer names a number variable that is set and
does not read. -/
theorem applyEnv_error {env : String → Option String} {b : Bridge} {e : ConfigError} (h : applyEnv env b = .error e) :
    ∃ name bound raw err, (name, bound) ∈ numberVars ∧ env name = some raw ∧
      Text.readUnsigned bound (Text.trim raw) = .error err ∧ e = .env name ("'" ++ raw ++ "': " ++ err.message) := by
  have found : ∀ name bound current, (name, bound) ∈ numberVars → envSetting env name bound current = .error e →
      ∃ name bound raw err, (name, bound) ∈ numberVars ∧ env name = some raw ∧
        Text.readUnsigned bound (Text.trim raw) = .error err ∧ e = .env name ("'" ++ raw ++ "': " ++ err.message) :=
    fun name bound _ hmem hset => by
      obtain ⟨raw, err, hv, hr, rfl⟩ := envSetting_error hset
      exact ⟨name, bound, raw, err, hmem, hv, hr, rfl⟩
  unfold applyEnv at h
  rcases bind_eq_error.1 h with h | ⟨_, -, h⟩
  · exact found _ _ _ (by simp [numberVars]) h
  rcases bind_eq_error.1 h with h | ⟨_, -, h⟩
  · exact found _ _ _ (by simp [numberVars]) h
  rcases bind_eq_error.1 h with h | ⟨_, -, h⟩
  · exact found _ _ _ (by simp [numberVars]) h
  rcases bind_eq_error.1 h with h | ⟨_, -, h⟩
  · exact found _ _ _ (by simp [numberVars]) h
  rcases bind_eq_error.1 h with h | ⟨_, -, h⟩
  · exact found _ _ _ (by simp [numberVars]) h
  rcases bind_eq_error.1 h with h | ⟨_, -, h⟩
  · exact found _ _ _ (by simp [numberVars]) h
  -- the settings themselves are no refusal
  cases h

end Bridge

/-! ## The layers together -/

namespace Bridge

/-- The layers of the bridge's settings, for every file whose text parses and
every environment. A file without a `potline` key is refused as missing the
section, and one whose `potline` key holds no table as holding no table. A
`[potline]` table gives the settings it holds key by key (`load_section`),
and the environment then overrides them: it succeeds exactly when every number
it sets reads, giving each setting whose variable is set the variable's value
and leaving every other setting as the file gave it; otherwise its refusal
names a number variable that is set and does not read. -/
theorem settings_layered (dataDir : Option String) (env : String → Option String) {w : Workdir}
    {path content : String} {root : Tree} {doc : List (String × Toml.Value)}
    (hread : w.read path = .ok content) (hparse : Tree.parse content = .ok root)
    (hdoc : root.toValue.sortKeys = .table doc) :
    (lookup "potline" doc = none →
      ((configSection dataDir).load w path >>= applyEnv env) = .error (.parse path "missing [potline] section")) ∧
    (∀ v, lookup "potline" doc = some v → v.isTable = false →
      ((configSection dataDir).load w path >>= applyEnv env) = .error (.parse path notATable)) ∧
    (∀ inner, lookup "potline" doc = some (.table inner) →
      (∀ b, ofSection dataDir (Toml.Value.blurEntries (layoutEntries inner)) = some b →
        ((configSection dataDir).load w path >>= applyEnv env) = applyEnv env b) ∧
      (ofSection dataDir (Toml.Value.blurEntries (layoutEntries inner)) = none →
        ∃ r, ((configSection dataDir).load w path >>= applyEnv env) = .error (.parse path r))) ∧
    (∀ b b', applyEnv env b = .ok b' ↔ EnvReads env ∧ b' = b.overridden env) ∧
    (∀ b e, applyEnv env b = .error e → ∃ name bound raw err, (name, bound) ∈ numberVars ∧ env name = some raw ∧
      Text.readUnsigned bound (Text.trim raw) = .error err ∧ e = .env name ("'" ++ raw ++ "': " ++ err.message)) := by
  refine ⟨fun h => ?_, fun v h hv => ?_, fun inner h => ?_, fun _ _ => applyEnv_eq_ok_iff, fun _ _ => applyEnv_error⟩
  · rw [Section.load_missing hread hparse hdoc h]
    rfl
  · rw [Section.load_scalar hread hparse hdoc h hv]
    rfl
  · obtain ⟨hfile, herror⟩ := load_section dataDir hread hparse hdoc h
    constructor
    · intro b hb
      rw [hb] at hfile
      rw [eq_ok_of_toOption hfile]
      rfl
    · intro hb
      rw [hb] at hfile
      cases hload : (configSection dataDir).load w path with
      | ok b => rw [hload] at hfile; cases hfile
      | error e =>
        obtain ⟨r, rfl⟩ := herror e hload
        exact ⟨r, rfl⟩

/-- A file whose `potline` key holds an empty inline table, under an
environment that sets the endpoint. -/
theorem settings_layered_onInlineTable :
    (Workdir.ofNames [] [("potline.toml", "potline = {}\n")]).read "potline.toml" = .ok "potline = {}\n" ∧
    Tree.parse "potline = {}\n" =
      .ok (.table .header [("potline", ⟨0, 7⟩, .table .inline [] (some ⟨10, 12⟩))] none) ∧
    (Tree.table .header [("potline", ⟨0, 7⟩, .table .inline [] (some ⟨10, 12⟩))] none).toValue.sortKeys =
      .table [("potline", .table [])] ∧
    ((lookup "potline" [("potline", Toml.Value.table [])] = none →
      ((configSection none).load (Workdir.ofNames [] [("potline.toml", "potline = {}\n")]) "potline.toml" >>=
        applyEnv fun n => if n = "POTLINE_ENDPOINT" then some "opc.tcp://gw:4840" else none) =
        .error (.parse "potline.toml" "missing [potline] section")) ∧
    (∀ v, lookup "potline" [("potline", Toml.Value.table [])] = some v → v.isTable = false →
      ((configSection none).load (Workdir.ofNames [] [("potline.toml", "potline = {}\n")]) "potline.toml" >>=
        applyEnv fun n => if n = "POTLINE_ENDPOINT" then some "opc.tcp://gw:4840" else none) =
        .error (.parse "potline.toml" notATable)) ∧
    (∀ inner, lookup "potline" [("potline", Toml.Value.table [])] = some (.table inner) →
      (∀ b, ofSection none (Toml.Value.blurEntries (layoutEntries inner)) = some b →
        ((configSection none).load (Workdir.ofNames [] [("potline.toml", "potline = {}\n")]) "potline.toml" >>=
          applyEnv fun n => if n = "POTLINE_ENDPOINT" then some "opc.tcp://gw:4840" else none) =
          applyEnv (fun n => if n = "POTLINE_ENDPOINT" then some "opc.tcp://gw:4840" else none) b) ∧
      (ofSection none (Toml.Value.blurEntries (layoutEntries inner)) = none →
        ∃ r, ((configSection none).load (Workdir.ofNames [] [("potline.toml", "potline = {}\n")]) "potline.toml" >>=
          applyEnv fun n => if n = "POTLINE_ENDPOINT" then some "opc.tcp://gw:4840" else none) =
          .error (.parse "potline.toml" r))) ∧
    (∀ b b', applyEnv (fun n => if n = "POTLINE_ENDPOINT" then some "opc.tcp://gw:4840" else none) b = .ok b' ↔
      EnvReads (fun n => if n = "POTLINE_ENDPOINT" then some "opc.tcp://gw:4840" else none) ∧
        b' = b.overridden fun n => if n = "POTLINE_ENDPOINT" then some "opc.tcp://gw:4840" else none) ∧
    (∀ b e, applyEnv (fun n => if n = "POTLINE_ENDPOINT" then some "opc.tcp://gw:4840" else none) b = .error e →
      ∃ name bound raw err, (name, bound) ∈ numberVars ∧
        (if name = "POTLINE_ENDPOINT" then some "opc.tcp://gw:4840" else none) = some raw ∧
        Text.readUnsigned bound (Text.trim raw) = .error err ∧ e = .env name ("'" ++ raw ++ "': " ++ err.message))) :=
  ⟨read_potline _, by rfl, by rfl,
    settings_layered none (fun n => if n = "POTLINE_ENDPOINT" then some "opc.tcp://gw:4840" else none)
      (read_potline _) (by rfl) (by rfl)⟩

end Bridge

/-- A `potline` key that holds a number is refused as holding no table, not
as a missing section. -/
theorem load_refuses_scalarSection :
    (Bridge.configSection none).load (Workdir.ofNames [] [("potline.toml", "potline = 5\n")]) "potline.toml" =
      .error (.parse "potline.toml" "unsupported rust type") := by
  have hparse : Tree.parse "potline = 5\n" =
      .ok (.table .header [("potline", ⟨0, 7⟩, .scalar (.integer 5) ⟨10, 11⟩)] none) := by rfl
  exact Section.load_scalar (read_potline _) hparse rfl rfl rfl

end LotBridge.Config
