import LotBridge.Proofs.ConfigPrinting
import LotBridge.Proofs.UnsignedNumerals

/-!
# The printed configuration reloads

The configuration the loading layers give (a file, then the environment, then
the check) is printed as a TOML document under a `[potline]` table, with the
password masked. This module reads that text back.

* `Bridge.load_printed`: the printed text, read from any file, loads as the
  configuration with its password masked, for every loaded configuration whose
  times fit a TOML integer.
* `Bridge.layered_loaded`: every configuration the layers give is `Loaded`, as
  `load_printed` needs: each step (the defaults, the record decoders, the
  environment) keeps a log level and attempts of 32 bits.
* `Bridge.printed_reloads`: for every configuration the layers give, printing
  succeeds exactly when its times fit a TOML integer, the printed text reloads as
  the masked configuration, and it depends on the configuration only through
  its masked form, so the password never shows.
* `Bridge.printed_refuses_onLargeWatchdog`: a watchdog interval of 2^63 set from
  the environment is loaded and checked, yet refused when printed.
-/

namespace LotBridge.Config

open LotBridge.Json LotBridge.Toml

/-! ## Reading the printed tables back -/

theorem entriesJson_optEntry (k : String) (o : Option String) :
    entriesJson (optEntry k o) = (o.map fun v => (k, Json.string v)).toList := by
  cases o <;> rfl

theorem int_natCast (n : Nat) : Json.int n = Json.nat n := by
  simp [Json.int, Json.nat]

namespace Security

theorem path_read {n : Node} (src : Source) {v : String} (h : n.forget = Json.toNode (.string v)) :
    path src n = .ok v := by
  obtain ⟨a, b, rfl⟩ := forget_eq_string h
  rfl

theorem mode_variant (m : Mode) : Decoder.variant? Mode.names m.name = some m := by
  cases m <;> rfl

theorem policy_variant (p : Policy) : Decoder.variant? Policy.names p.name = some p := by
  cases p <;> rfl

/-- The security table read back decodes to the settings it was printed
from. -/
theorem decoder_read (s : Security) {n : Node}
    (h : n.forget = Json.toNode (.object (entriesJson s.sortedEntries))) : decoder .config n = .ok s := by
  simp only [sortedEntries, entriesJson_append, entriesJson_optEntry, List.append_assoc, entriesJson,
    List.cons_append, List.nil_append, Value.json] at h
  obtain ⟨a, ms, f, rfl, hms⟩ := forget_eq_object h
  obtain ⟨cs, ms, rfl, hcs, hms⟩ := forgetMembers_eq_append hms
  obtain ⟨b₁, c₁, v₁, ms, rfl, hv₁, hms⟩ := forgetMembers_eq_cons hms
  obtain ⟨ps, ms, rfl, hps, hms⟩ := forgetMembers_eq_append hms
  obtain ⟨b₂, c₂, v₂, ms, rfl, hv₂, hms⟩ := forgetMembers_eq_cons hms
  obtain ⟨ks, us, rfl, hks, hus⟩ := forgetMembers_eq_append hms
  simp only [decoder, decodeStruct]
  rw [members_optional .config fields false [] {} [] "certificate" _ s.certificate rfl (by simp) Json.string
      (fun v t => { t with certificate := v })
      (fun v _ n hn => by simp [Field.of, Decoder.option_read .config _ (by simp) hn, path_read .config hn, Except.map])
      rfl cs _ hcs,
    members_known .config fields false _ _ [] "mode" b₁ c₁ v₁ _ _ { certificate := s.certificate, mode := s.mode } rfl
      (by cases s.certificate <;> simp)
      (by simp [Field.of, Decoder.unitEnum_read .config Mode.names (mode_variant s.mode) hv₁, Except.map]),
    members_optional .config fields false _ { certificate := s.certificate, mode := s.mode } [] "password" _
      s.password rfl (by cases s.certificate <;> simp) Json.string (fun v t => { t with password := v })
      (fun v _ n hn => by
        simp [Field.of, Decoder.option_read .config _ (by simp) hn, Decoder.string_read .config hn, Except.map])
      rfl ps _ hps,
    members_known .config fields false _ _ [] "policy" b₂ c₂ v₂ _ _
      { certificate := s.certificate, mode := s.mode, password := s.password, policy := s.policy } rfl
      (by cases s.certificate <;> cases s.password <;> simp)
      (by simp [Field.of, Decoder.unitEnum_read .config Policy.names (policy_variant s.policy) hv₂, Except.map]),
    members_optional .config fields false _
      { certificate := s.certificate, mode := s.mode, password := s.password, policy := s.policy } [] "private_key" _
      s.privateKey rfl (by cases s.certificate <;> cases s.password <;> simp) Json.string
      (fun v t => { t with privateKey := v })
      (fun v _ n hn => by simp [Field.of, Decoder.option_read .config _ (by simp) hn, path_read .config hn, Except.map])
      rfl ks _ hks,
    ← List.append_nil us,
    members_optional .config fields false _
      { certificate := s.certificate, mode := s.mode, password := s.password, policy := s.policy,
        privateKey := s.privateKey } [] "username" _
      s.username rfl (by cases s.certificate <;> cases s.password <;> cases s.privateKey <;> simp) Json.string
      (fun v t => { t with username := v })
      (fun v _ n hn => by
        simp [Field.of, Decoder.option_read .config _ (by simp) hn, Decoder.string_read .config hn, Except.map])
      rfl us _ hus]
  simp [decodeStruct.members, placeAt]

end Security

namespace Connection

/-- The connection table read back decodes to the settings it was printed
from, when its times fit 64 bits. -/
theorem decoder_read (c : Connection) (hc : c.connectTimeoutMs < 2 ^ 64 ∧ c.requestTimeoutMs < 2 ^ 64 ∧
    c.watchdogIntervalMs < 2 ^ 64) {n : Node} (h : n.forget = Json.toNode (.object (entriesJson c.readEntries))) :
    decoder .config n = .ok c := by
  simp only [readEntries, entriesJson, Value.json, int_natCast] at h
  obtain ⟨a, ms, f, rfl, hms⟩ := forget_eq_object h
  obtain ⟨b₁, c₁, v₁, ms, rfl, hv₁, hms⟩ := forgetMembers_eq_cons hms
  obtain ⟨b₂, c₂, v₂, ms, rfl, hv₂, hms⟩ := forgetMembers_eq_cons hms
  obtain ⟨b₃, c₃, v₃, ms, rfl, hv₃, hms⟩ := forgetMembers_eq_cons hms
  obtain ⟨b₄, c₄, v₄, ms, rfl, hv₄, hms⟩ := forgetMembers_eq_cons hms
  obtain ⟨b₅, c₅, v₅, ms, rfl, hv₅, hms⟩ := forgetMembers_eq_cons hms
  obtain ⟨b₆, c₆, v₆, ms, rfl, hv₆, hms⟩ := forgetMembers_eq_cons hms
  simp [decoder, decodeStruct, decodeStruct.members, fields, Field.of, forgetMembers_eq_nil hms,
    Decoder.uint_read .config "u64" hc.1 le_rfl hv₁, Decoder.string_read .config hv₂,
    Decoder.string_read .config hv₃, Decoder.uint_read .config "u64" hc.2.1 le_rfl hv₄,
    Decoder.uint_read .config "u64" hc.2.2 le_rfl hv₅, Security.decoder_read c.security hv₆, Except.map, placeAt]

end Connection

theorem retry_decoder_read (r : Retry.Settings) (hr : r.attempts < 2 ^ 32 ∧ r.delayMs < 2 ^ 64 ∧ r.maxDelayMs < 2 ^ 64)
    {n : Node} (h : n.forget = Json.toNode (.object (entriesJson (retryEntries r)))) :
    Retry.Settings.decoder .config n = .ok r := by
  simp only [retryEntries, entriesJson, Value.json, int_natCast] at h
  obtain ⟨a, ms, f, rfl, hms⟩ := forget_eq_object h
  obtain ⟨b₁, c₁, v₁, ms, rfl, hv₁, hms⟩ := forgetMembers_eq_cons hms
  obtain ⟨b₂, c₂, v₂, ms, rfl, hv₂, hms⟩ := forgetMembers_eq_cons hms
  obtain ⟨b₃, c₃, v₃, ms, rfl, hv₃, hms⟩ := forgetMembers_eq_cons hms
  obtain ⟨b₄, c₄, v₄, ms, rfl, hv₄, hms⟩ := forgetMembers_eq_cons hms
  have hshape : Decoder.variant? Retry.Shape.names r.shape.name = some r.shape := by
    cases r.shape <;> rfl
  simp [Retry.Settings.decoder, decodeStruct, decodeStruct.members, Retry.Settings.fields, Field.of,
    forgetMembers_eq_nil hms, Decoder.uint_read .config "u32" hr.1 (by decide) hv₁,
    Decoder.unitEnum_read .config Retry.Shape.names hshape hv₂, Decoder.uint_read .config "u64" hr.2.1 le_rfl hv₃,
    Decoder.uint_read .config "u64" hr.2.2 le_rfl hv₄, Except.map, placeAt]

theorem log_decoder_read (dataDir : Option String) (l : CompletionLog) {n : Node}
    (h : n.forget = Json.toNode (.object (entriesJson (logEntries l)))) :
    Bridge.logDecoder dataDir .config n = .ok l := by
  simp only [logEntries, entriesJson, Value.json] at h
  obtain ⟨a, ms, f, rfl, hms⟩ := forget_eq_object h
  obtain ⟨b₁, c₁, v₁, ms, rfl, hv₁, hms⟩ := forgetMembers_eq_cons hms
  obtain ⟨b₂, c₂, v₂, ms, rfl, hv₂, hms⟩ := forgetMembers_eq_cons hms
  obtain ⟨b₃, c₃, v₃, ms, rfl, hv₃, hms⟩ := forgetMembers_eq_cons hms
  simp [Bridge.logDecoder, decodeStruct, decodeStruct.members, Bridge.logFields, Field.of, forgetMembers_eq_nil hms,
    Decoder.string_read .config hv₁, Decoder.bool_read .config hv₂, Decoder.string_read .config hv₃, Except.map,
    placeAt]

theorem general_decoder_read (d : General) (l : String) {n : Node}
    (h : n.forget = Json.toNode (.object (entriesJson (optEntry "log_level" (some l))))) :
    decodeStruct "GeneralConfig" Bridge.generalFields d (fun g _ _ => .ok g) false 0 .config n = .ok ⟨some l⟩ := by
  simp only [optEntry, Option.map_some, Option.toList_some, entriesJson, Value.json] at h
  obtain ⟨a, ms, f, rfl, hms⟩ := forget_eq_object h
  obtain ⟨b₁, c₁, v₁, ms, rfl, hv₁, hms⟩ := forgetMembers_eq_cons hms
  simp [decodeStruct, decodeStruct.members, Bridge.generalFields, Field.of, forgetMembers_eq_nil hms,
    Decoder.option_read .config _ (by simp) hv₁, Decoder.string_read .config hv₁, Except.map, placeAt]

/-! ## What loading keeps -/

/-- `pure` succeeds with exactly its value. -/
@[simp] theorem pure_eq_ok {ε β : Type} {a b : β} : (pure a : Except ε β) = .ok b ↔ a = b := by
  simp [pure, Except.pure]

theorem option_isSome {α : Type} {d : Decoder α} {src : Source} {n : Node} {v : Option α}
    (hn : n.isNull = false) (h : Decoder.option d src n = .ok v) : v.isSome := by
  unfold Decoder.option at h
  split at h
  · simp [Node.isNull] at hn
  · cases hd : d src n with
    | error e => simp [hd, Except.map] at h
    | ok a =>
      simp only [hd, Except.map, Except.ok.injEq] at h
      rw [← h]
      rfl

theorem uint_lt {bits : Nat} {name : String} {src : Source} {n : Node} {v : Nat}
    (h : Decoder.uint bits name src n = .ok v) : v < 2 ^ bits := by
  unfold Decoder.uint at h
  split at h
  · split_ifs at h with hv
    · rw [← Except.ok.inj h]
      simpa [Nat.pow_eq] using hv
    · exact absurd h (by simp [valueError])
  · exact absurd h (by simp [valueError])
  · exact absurd h (typeError_ne_ok _ _ _)

theorem envNumber_lt {name raw : String} {bound n : Nat} (hbound : 0 < bound) (h : envNumber name raw bound = .ok n) :
    n < bound := by
  unfold envNumber at h
  split at h
  · rename_i m hm
    simp only [Except.ok.injEq] at h
    subst h
    unfold Text.readUnsigned at hm
    split at hm
    all_goals first
      | exact Text.digitsValue_lt hbound hm
      | simp at hm
  · simp at h

namespace Section

variable {α : Type}

theorem decoded_of_fromFile {s : Section α} {w : Workdir} {path : String} {a : α}
    (h : s.fromFile w path = .ok (some a)) : ∃ root : Tree, s.decoder .config root.rootNode = .ok a := by
  simp only [fromFile, bind, Except.bind, pure, Except.pure, throw, throwThe, MonadExceptOf.throw] at h
  repeat' split at h
  all_goals try simp at h
  rename_i hdoc
  subst h
  unfold decodeDocument at hdoc
  split at hdoc
  · simp at hdoc
  · rename_i root _
    split at hdoc <;> simp only [Except.ok.injEq, reduceCtorEq] at hdoc
    rename_i hd
    exact ⟨root, hdoc ▸ hd⟩

theorem fromFile_of_load {s : Section α} {w : Workdir} {path : String} {a : α} (h : s.load w path = .ok a) :
    s.fromFile w path = .ok (some a) := by
  unfold load at h
  obtain ⟨o, hf, h⟩ := bind_eq_ok.1 h
  cases o with
  | none => simp [throw, throwThe, MonadExceptOf.throw] at h
  | some b => rw [hf, pure_eq_ok.1 h]

/-- A searched section is the defaults or a section read from a file. -/
theorem searchIn_source {s : Section α} {w : Workdir} :
    ∀ {paths : List String} {a : α} {src : Option String}, s.searchIn w paths = .ok (a, src) →
      a = s.default ∨ ∃ p, s.fromFile w p = .ok (some a)
  | [], a, src, h => Or.inl (Prod.mk.inj (pure_eq_ok.1 h)).1.symm
  | p :: rest, a, src, h => by
    simp only [searchIn] at h
    split_ifs at h
    · obtain ⟨o, hf, h⟩ := bind_eq_ok.1 h
      cases o with
      | none => exact searchIn_source h
      | some b =>
        obtain ⟨rfl, -⟩ := Prod.mk.inj (pure_eq_ok.1 h)
        exact Or.inr ⟨p, hf⟩
    · exact searchIn_source h

/-- Every layered section is the environment applied to the defaults or to a
section read from a file. -/
theorem layered_source {s : Section α} {w : Workdir} {configDir path : Option String}
    {env : String → Option String} {a : α} {src : Option String} (h : s.layered w configDir path env = .ok (a, src)) :
    ∃ a₀, (a₀ = s.default ∨ ∃ p, s.fromFile w p = .ok (some a₀)) ∧ s.applyEnv env a₀ = .ok a := by
  cases path
  case' none =>
    obtain ⟨⟨a₀, src₀⟩, hfound, h⟩ := bind_eq_ok.1 h
    refine ⟨a₀, searchIn_source hfound, ?_⟩
  case' some p =>
    obtain ⟨a₀, hload, h⟩ := bind_eq_ok.1 h
    rw [pure_bind] at h
    refine ⟨a₀, Or.inr ⟨p, fromFile_of_load hload⟩, ?_⟩
  -- both branches of the file layer continue with the same environment and check steps
  all_goals
    obtain ⟨b, hb, h⟩ := bind_eq_ok.1 h
    split at h
    · simp [throw, throwThe, MonadExceptOf.throw] at h
    · obtain ⟨rfl, -⟩ := Prod.mk.inj (pure_eq_ok.1 h)
      exact hb

end Section


namespace Bridge

/-- What every loaded configuration has: a log level, and attempts that fit
32 bits. -/
def Loaded (b : Bridge) : Prop := b.general.logLevel.isSome ∧ b.retry.attempts < 2 ^ 32

theorem loaded_default (dataDir : Option String) : (Bridge.default dataDir).Loaded := by
  simp [Loaded, Bridge.default]

theorem general_level {g₀ : General} {src : Source} {n : Node} {g : General} (h₀ : g₀.logLevel.isSome)
    (hn : ∀ c ∈ n.children, c.isNull = false)
    (h : decodeStruct "GeneralConfig" generalFields g₀ (fun g _ _ => .ok g) false 0 src n = .ok g) :
    g.logLevel.isSome := by
  refine decodeStruct_keeps (P := fun g : General => g.logLevel.isSome) (Q := fun c => c.isNull = false) ?_ h₀ hn h
  intro fld hfld c s s' hc _ h'
  simp only [generalFields, List.mem_singleton] at hfld
  subst hfld
  obtain ⟨v, hv, rfl⟩ := absorb_of_ok h'
  exact option_isSome hc hv

theorem retry_attempts_lt {src : Source} {n : Node} {r : Retry.Settings} (h : Retry.Settings.decoder src n = .ok r) :
    r.attempts < 2 ^ 32 := by
  unfold Retry.Settings.decoder at h
  refine decodeStruct_keeps (P := fun r : Retry.Settings => r.attempts < 2 ^ 32) (Q := fun _ => True) ?_
    (by decide) (fun _ _ => trivial) h
  intro fld hfld c s s' _ hs h'
  simp only [Retry.Settings.fields, List.mem_cons, List.not_mem_nil, or_false] at hfld
  rcases hfld with rfl | rfl | rfl | rfl <;> obtain ⟨v, hv, rfl⟩ := absorb_of_ok h'
  · exact uint_lt hv
  all_goals exact hs

/-- A configuration read from a table is loaded: the node's members hold no
null, so the log level is never cleared, and attempts are read as 32-bit. -/
theorem decoder_loaded {dataDir : Option String} {src : Source} {n : Node} {b : Bridge}
    (hn : ∀ m ∈ n.children, ∀ c ∈ m.children, c.isNull = false) (h : decoder dataDir src n = .ok b) : b.Loaded := by
  simp only [decoder] at h
  refine decodeStruct_keeps (P := Loaded) (Q := fun m => ∀ c ∈ m.children, c.isNull = false) ?_
    (loaded_default dataDir) hn h
  intro fld hfld m s s' hm hs h'
  simp only [List.mem_cons, List.not_mem_nil, or_false] at hfld
  rcases hfld with rfl | rfl | rfl | rfl <;> obtain ⟨v, hv, rfl⟩ := absorb_of_ok h'
  · exact ⟨general_level (by simp [Bridge.default]) hm hv, hs.2⟩
  · exact hs
  · exact ⟨hs.1, retry_attempts_lt hv⟩
  · exact hs

theorem applyEnv_loaded {env : String → Option String} {b b' : Bridge} (hb : b.Loaded)
    (h : applyEnv env b = .ok b') : b'.Loaded := by
  unfold applyEnv at h
  obtain ⟨t₁, -, h⟩ := bind_eq_ok.1 h
  obtain ⟨t₂, -, h⟩ := bind_eq_ok.1 h
  obtain ⟨t₃, -, h⟩ := bind_eq_ok.1 h
  obtain ⟨a, ha, h⟩ := bind_eq_ok.1 h
  obtain ⟨t₅, -, h⟩ := bind_eq_ok.1 h
  obtain ⟨t₆, -, h⟩ := bind_eq_ok.1 h
  simp only [pure, Except.pure, Except.ok.injEq] at h
  subst h
  refine ⟨?_, ?_⟩
  · cases env "POTLINE_LOG_LEVEL" <;> simp [hb.1]
  · unfold envSetting at ha
    split at ha
    · exact envNumber_lt (by decide) ha
    · simp only [pure, Except.pure, Except.ok.injEq] at ha
      exact ha ▸ hb.2

theorem fromFile_loaded {dataDir : Option String} {w : Workdir} {path : String} {b : Bridge}
    (h : (configSection dataDir).fromFile w path = .ok (some b)) : b.Loaded := by
  obtain ⟨root, hroot⟩ := Section.decoded_of_fromFile h
  exact decoder_loaded root.children_rootNode hroot

/-- Every configuration the layers give is loaded, whichever file, if any, it
came from and whatever the environment says. -/
theorem layered_loaded {dataDir : Option String} {w : Workdir} {configDir path : Option String}
    {env : String → Option String} {b : Bridge} {src : Option String}
    (h : (configSection dataDir).layered w configDir path env = .ok (b, src)) : b.Loaded := by
  obtain ⟨b₀, hsource, henv⟩ := Section.layered_source h
  refine applyEnv_loaded ?_ henv
  rcases hsource with rfl | ⟨p, hp⟩
  · exact loaded_default dataDir
  · exact fromFile_loaded hp

/-! ## Reloading the printed text -/

theorem times_lt {b : Bridge} (hb : b.Printable) : ∀ t ∈ b.times, t < 2 ^ 64 :=
  fun t ht => lt_of_le_of_lt (hb t ht) (by norm_num)

/-- The `[potline]` table read back decodes to the settings it was printed
from, when they were loaded: a log level is set and the attempts fit 32 bits. -/
theorem decoder_read (dataDir : Option String) (b : Bridge) (hb : b.Printable) (ha : b.retry.attempts < 2 ^ 32)
    (hl : b.general.logLevel.isSome) {n : Node} (h : n.forget = Json.toNode (.object (entriesJson b.readEntries))) :
    decoder dataDir .config n = .ok b := by
  obtain ⟨l, hl⟩ := Option.isSome_iff_exists.1 hl
  have ht := times_lt hb
  simp only [times, List.mem_cons, List.not_mem_nil, or_false, forall_eq_or_imp, forall_eq] at ht
  simp only [readEntries, entriesJson, Value.json, hl] at h
  obtain ⟨a, ms, f, rfl, hms⟩ := forget_eq_object h
  obtain ⟨b₁, c₁, v₁, ms, rfl, hv₁, hms⟩ := forgetMembers_eq_cons hms
  obtain ⟨b₂, c₂, v₂, ms, rfl, hv₂, hms⟩ := forgetMembers_eq_cons hms
  obtain ⟨b₃, c₃, v₃, ms, rfl, hv₃, hms⟩ := forgetMembers_eq_cons hms
  obtain ⟨b₄, c₄, v₄, ms, rfl, hv₄, hms⟩ := forgetMembers_eq_cons hms
  simp only [decoder]
  -- the decoder of the general settings is kept whole, to be read by its own lemma
  generalize hgen : decodeStruct "GeneralConfig" generalFields (Bridge.default dataDir).general
    (fun g _ _ => .ok g) false 0 = general
  have hg : general .config v₃ = .ok ⟨some l⟩ := hgen ▸ general_decoder_read _ l hv₃
  simp [decodeStruct, decodeStruct.members, Field.of, forgetMembers_eq_nil hms,
    log_decoder_read dataDir b.completionLog hv₁, Connection.decoder_read b.connection ⟨ht.1, ht.2.1, ht.2.2.1⟩ hv₂,
    hg, retry_decoder_read b.retry ⟨ha, ht.2.2.2.1, ht.2.2.2.2⟩ hv₄, Except.map, placeAt]
  rw [← hl]

theorem times_masked (b : Bridge) : b.masked.times = b.times := rfl

/-- What the printed settings say reloads, from any file that holds the
printed text, as the settings with the password masked. -/
theorem load_printed (dataDir : Option String) {b : Bridge} (hb : b.Printable) (hloaded : b.Loaded)
    {text : String} (htext : b.printed = .ok text) {w : Workdir} {file : String} (hread : w.read file = .ok text) :
    (configSection dataDir).load w file = .ok b.masked := by
  have hb' : b.masked.Printable := by rw [Printable, times_masked]; exact hb
  have ha' : b.masked.retry.attempts ≤ 9223372036854775807 := by
    simp only [masked]
    have := hloaded.2
    omega
  rw [printed_eq hb, Except.ok.injEq] at htext
  subst htext
  obtain ⟨root, hparse, hsort⟩ := parse_printed hb' ha'
  obtain ⟨root', hparse', hplain', hvalues'⟩ := parse_section hb' ha'
  have hnode : (Tree.table .header root' none).rootNode.forget = _ := Tree.forget_rootNode hplain' none
  rw [hvalues'] at hnode
  have hdecode := decoder_read dataDir b.masked hb' hloaded.2 hloaded.1 hnode
  simp only [Section.load, Section.fromFile, hread, lookup, configSection, decodeDocument, ExceptT.stM_eq,
    pure_bind, hparse, hsort, BEq.rfl, List.find?_cons_of_pos, Option.map_some, hparse', hdecode, pure_eq_ok]

theorem printable_of_printed {b : Bridge} {text : String} (h : b.printed = .ok text) : b.Printable := by
  by_contra hb
  rw [printed_error hb] at h
  cases h

/-- The printed text depends on the settings only through their masked form,
so it never carries the password. -/
theorem printed_of_masked_eq {b b' : Bridge} (h : b'.masked = b.masked) : b'.printed = b.printed := by
  unfold printed
  rw [h]

/-- The printed configuration reloads. Every configuration the layers give
prints exactly when its times fit a TOML integer; the printed text, read from
any file, loads as the configuration with its password masked; and it is the
text of every configuration with the same masked form. -/
theorem printed_reloads {dataDir : Option String} {w : Workdir} {configDir path : Option String}
    {env : String → Option String} {c : Bridge} {src : Option String}
    (h : (configSection dataDir).layered w configDir path env = .ok (c, src)) :
    ((∃ text, c.printed = .ok text) ↔ c.Printable) ∧
      ∀ text, c.printed = .ok text →
        (∀ (w' : Workdir) (file : String), w'.read file = .ok text →
          (configSection dataDir).load w' file = .ok c.masked) ∧
        ∀ c' : Bridge, c'.masked = c.masked → c'.printed = .ok text := by
  have hloaded := layered_loaded h
  refine ⟨⟨fun ⟨_, ht⟩ => printable_of_printed ht, fun hp => ⟨_, printed_eq hp⟩⟩, fun text ht => ⟨?_, ?_⟩⟩
  · intro w' file hread
    exact load_printed dataDir (printable_of_printed ht) hloaded ht hread
  · intro c' hc'
    rw [printed_of_masked_eq hc', ht]

end Bridge

/-! ## A file holding an empty table -/

theorem components_potline : Workdir.components "potline.toml" = ["potline.toml"] := by
  simp +decide [Workdir.components, String.splitOn, String.splitOnAux]

theorem read_potline (text : String) :
    (Workdir.ofNames [] [("potline.toml", text)]).read "potline.toml" = .ok text := by
  have hdir : "potline.toml".endsWith "/" = false := by decide +kernel
  simp [Workdir.read, Workdir.kind?, Workdir.ofNames, components_potline, Workdir.kindOf, Workdir.resolve,
    Workdir.kindAt, hdir]

theorem eq_ok_of_toOption {ε α : Type} {x : Except ε α} {a : α} (h : x.toOption = some a) : x = .ok a := by
  cases x <;> simp_all [Except.toOption]

theorem fromFile_potline :
    (Bridge.configSection none).fromFile (Workdir.ofNames [] [("potline.toml", "[potline]\n")]) "potline.toml" =
      .ok (some (Bridge.default none)) := by
  simp only [Section.fromFile, read_potline]
  apply eq_ok_of_toOption
  decide +kernel

namespace Bridge

theorem printed_reloads_onPotlineFile :
    (configSection none).layered (Workdir.ofNames [] [("potline.toml", "[potline]\n")]) none (some "potline.toml")
        (fun _ => none) = .ok (Bridge.default none, some "potline.toml") ∧
      ((∃ text, (Bridge.default none).printed = .ok text) ↔ (Bridge.default none).Printable) ∧
      ∀ text, (Bridge.default none).printed = .ok text →
        (∀ (w' : Workdir) (file : String), w'.read file = .ok text →
          (configSection none).load w' file = .ok (Bridge.default none).masked) ∧
        ∀ c' : Bridge, c'.masked = (Bridge.default none).masked → c'.printed = .ok text := by
  have h : (configSection none).layered (Workdir.ofNames [] [("potline.toml", "[potline]\n")]) none
      (some "potline.toml") (fun _ => none) = .ok (Bridge.default none, some "potline.toml") := by
    simp only [Section.layered, Section.load, fromFile_potline]
    apply eq_ok_of_toOption
    decide +kernel
  exact ⟨h, printed_reloads h⟩

/-- A watchdog interval of 2^63 milliseconds from the environment passes the
loading layers, yet the configuration does not print: the interval is above
the largest TOML integer. -/
theorem printed_refuses_onLargeWatchdog :
    (configSection none).layered (Workdir.ofNames [] [("potline.toml", "[potline]\n")]) none (some "potline.toml")
        (fun n => if n = "POTLINE_WATCHDOG_INTERVAL_MS" then some "9223372036854775808" else none) =
      .ok ({ Bridge.default none with
        connection := { (Bridge.default none).connection with watchdogIntervalMs := 9223372036854775808 } },
        some "potline.toml") ∧
    ({ Bridge.default none with
        connection := { (Bridge.default none).connection with watchdogIntervalMs := 9223372036854775808 } } :
      Bridge).printed = .error "u64 value was too large" := by
  refine ⟨?_, printed_error ?_⟩
  · simp only [Section.layered, Section.load, fromFile_potline]
    apply eq_ok_of_toOption
    decide +kernel
  · unfold Printable
    decide

end Bridge

end LotBridge.Config
