/-
The start of an instance (`lib.rs`: `start_with_json`, `attach_stat_address`, `sslocal_start`, `sslocal_start_tun_fd`),
as one call alone sees it. Everything that can fail outside the library is an outcome that the call is given: creating
the runtime, starting a forwarder, parsing the config, duplicating a descriptor.

- `startWithJson_cases`: what a start can do.
- `rewriting_exact`: what happens to the plugins of a config on its way to the core.
-/
import ShadowsocksOhos.Ffi.PluginConfig

namespace ShadowsocksOhos

/-! ## The config of the core -/

inductive ProtocolType where
  | tun
  | other (name : Text)
deriving DecidableEq, Repr

structure LocalInstance where
  protocol : ProtocolType
  tunDeviceFd : Option Int
  tunInterfaceName : Option Text
deriving DecidableEq, Repr

/-- what `Config::load_from_str` makes of a JSON text; `α` is the type of socket addresses -/
structure Config (α : Type) where
  source : Json
  locals : List LocalInstance
  localStatAddr : Option α

/-- a tokio runtime with the tasks spawned on it -/
structure Runtime (α : Type) where
  forwarders : List Forwarder
  /-- the config that `run_local` was spawned with -/
  core : Option (Config α)

/-- `INSTANCE`, `STAT_ADDR` and `LAST_ERROR` -/
structure Globals (α : Type) where
  stored : Option (Runtime α)
  statAddr : Option α
  lastError : Option Text

variable {α : Type}

/-- `CString::new(message).unwrap_or_default()` -/
def cString (message : Text) : Text := if '\x00' ∈ message then [] else message

/-- record the message of a failure and return its code -/
def Globals.fail (g : Globals α) (f : Failure) : Int × Globals α :=
  (f.code, { g with lastError := some (cString f.message) })

/-! ## Starting -/

/-- the outcomes of what `start_with_json` calls -/
structure Outcomes (α : Type) where
  /-- why no runtime could be created -/
  runtimeError : Option Text
  forwarder : ℕ → Except Text UInt16
  load : Json → Except Text (Config α)

def alreadyRunning : Failure := ⟨sslocalErrAlreadyRunning, "sslocal is already running".toList⟩

def noRuntime (e : Text) : Failure := ⟨sslocalErrRuntime, "failed to create tokio runtime: ".toList ++ e⟩

def invalidConfig (e : Text) : Failure := badConfig ("invalid sslocal config: ".toList ++ e)

def attachStatAddress (statAddr : Option α) (config : Config α) : Config α :=
  match statAddr with
  | some addr => { config with localStatAddr := some addr }
  | none => config

/-- the code and the globals after the call, `none` for a panic, and the forwarders that were started on the way -/
def startWithJson (o : Outcomes α) (json : Json) (prepare : Config α → Except Failure (Config α)) (g : Globals α) :
    Option (Int × Globals α) × List Forwarder :=
  match extractPluginSpecs json with
  | .error f => (some (g.fail f), [])
  | .ok specs =>
    if g.stored.isSome then (some (g.fail alreadyRunning), [])
    else
      match o.runtimeError with
      | some e => (some (g.fail (noRuntime e)), [])
      | none =>
        match applyPluginForwarders o.forwarder [] json specs with
        | (fs, none) => (none, fs)
        | (fs, some (.error f)) => (some (g.fail f), fs)
        | (fs, some (.ok json)) =>
          match o.load json with
          | .error e => (some (g.fail (invalidConfig e)), fs)
          | .ok config =>
            match prepare (attachStatAddress g.statAddr config) with
            | .error f => (some (g.fail f), fs)
            | .ok config => (some (sslocalOk, { g with stored := some ⟨fs, some config⟩ }), fs)

/-! ### Attaching the tun descriptor -/

/-- the local that gets the descriptor: the first tun local, else the sole local -/
def tunIndex (locals : List LocalInstance) : Option ℕ :=
  (locals.findIdx? fun l => l.protocol = .tun).or (if locals.length = 1 then some 0 else none)

/-- what the operating system answers to `attachTun` -/
structure TunAnswers where
  /-- the duplicate of the descriptor -/
  dup : Except Text Int
  /-- the name of the interface behind it -/
  name : Option Text

def giveTun (answers : TunAnswers) (ownedFd : Int) (l : LocalInstance) : LocalInstance :=
  { l with
    protocol := .tun
    tunDeviceFd := some ownedFd
    tunInterfaceName := l.tunInterfaceName.or answers.name }

/-- the second argument of `start_with_json` in `sslocal_start_tun_fd` -/
def attachTun (answers : TunAnswers) (tunFd : Int) (config : Config α) : Except Failure (Config α) :=
  match tunIndex config.locals with
  | none => .error (badConfig "config must contain a local with \"protocol\": \"tun\"".toList)
  | some i =>
    match answers.dup with
    | .error e =>
      .error ⟨sslocalErrInvalidArg, "failed to duplicate tun file descriptor ".toList ++ (toString tunFd).toList ++
        ": ".toList ++ e⟩
    | .ok ownedFd => .ok { config with locals := config.locals.modify i (giveTun answers ownedFd) }

theorem attachTun_statAddr {answers : TunAnswers} {tunFd : Int} {config config' : Config α}
    (h : attachTun answers tunFd config = .ok config') : config'.localStatAddr = config.localStatAddr := by
  unfold attachTun at h
  split at h
  · cases h
  · split at h
    · cases h
    · cases h; rfl

/-! ## What a start can do -/

/-- the errors of a start once it holds the lock: only one that finds an instance says that there is one -/
def Failure.Explains (g : Globals α) (f : Failure) : Prop :=
  f.code ≠ 0 ∧ (f.code = sslocalErrAlreadyRunning → g.stored.isSome)

theorem Failure.explains {f : Failure} (g : Globals α) (hne : f.code ≠ 0) (halready : f.code ≠ sslocalErrAlreadyRunning) :
    f.Explains g := ⟨hne, fun h => absurd h halready⟩

theorem badConfig_explains (g : Globals α) (message : Text) : (badConfig message).Explains g :=
  Failure.explains g (by decide : sslocalErrBadConfig ≠ 0) (by decide : sslocalErrBadConfig ≠ sslocalErrAlreadyRunning)

theorem noRuntime_explains (g : Globals α) (e : Text) : (noRuntime e).Explains g :=
  Failure.explains g (by decide : sslocalErrRuntime ≠ 0) (by decide : sslocalErrRuntime ≠ sslocalErrAlreadyRunning)

theorem invalidArg_explains (g : Globals α) (message : Text) : (⟨sslocalErrInvalidArg, message⟩ : Failure).Explains g :=
  Failure.explains g (by decide : sslocalErrInvalidArg ≠ 0)
    (by decide : sslocalErrInvalidArg ≠ sslocalErrAlreadyRunning)

theorem apply_code {plan : ℕ → Except Text UInt16} {started fs : List Forwarder} {json : Json} {specs : List PluginSpec}
    {f : Failure} (h : applyPluginForwarders plan started json specs = (fs, some (.error f))) :
    f.code = sslocalErrRuntime := by
  induction specs generalizing started json with
  | nil => cases h
  | cons spec specs ih =>
    unfold applyPluginForwarders at h
    split at h
    · cases h
      rfl
    · simp only at h
      split at h
      · cases h
      · exact ih h

theorem attachTun_explains (g : Globals α) {answers : TunAnswers} {tunFd : Int} {config : Config α} {f : Failure}
    (h : attachTun answers tunFd config = .error f) : f.Explains g := by
  unfold attachTun at h
  split at h
  · cases h
    exact badConfig_explains g _
  · split at h
    · cases h
      exact invalidArg_explains g _
    · cases h

/-- **What a start can do**: it fails and leaves everything but the last error, or it stores a new instance where there
was none, with the config that `prepare` made. -/
theorem startWithJson_cases {o : Outcomes α} {json : Json} {prepare : Config α → Except Failure (Config α)}
    {g g' : Globals α} {code : Int} {fs : List Forwarder} (hprepare : ∀ config f, prepare config = .error f → f.Explains g)
    (h : startWithJson o json prepare g = (some (code, g'), fs)) :
    (∃ f, (code, g') = g.fail f ∧ f.Explains g) ∨
      code = sslocalOk ∧ g.stored = none ∧ ∃ json' loaded config, o.load json' = .ok loaded ∧
        prepare (attachStatAddress g.statAddr loaded) = .ok config ∧ g' = { g with stored := some ⟨fs, some config⟩ } := by
  unfold startWithJson at h
  split at h
  · rename_i f hf
    cases h
    have hcode := extractPluginSpecs_code hf
    exact Or.inl ⟨f, rfl, f.explains g (by rw [hcode]; decide) (by rw [hcode]; decide)⟩
  split_ifs at h with hstored
  · cases h
    exact Or.inl ⟨alreadyRunning, rfl, by decide, fun _ => hstored⟩
  split at h
  · rename_i e he
    cases h
    exact Or.inl ⟨noRuntime e, rfl, noRuntime_explains g e⟩
  split at h
  · cases h
  · rename_i fs' f hf
    cases h
    have hcode := apply_code hf
    exact Or.inl ⟨f, rfl, f.explains g (by rw [hcode]; decide) (by rw [hcode]; decide)⟩
  split at h
  · rename_i e he
    cases h
    exact Or.inl ⟨invalidConfig e, rfl, badConfig_explains g _⟩
  rename_i json' happly _ loaded hload
  split at h
  · rename_i f hf
    cases h
    exact Or.inl ⟨f, rfl, hprepare _ f hf⟩
  · rename_i config hconfig
    cases h
    have hnone : g.stored = none := by simpa using hstored
    exact Or.inr ⟨rfl, hnone, json', loaded, config, hload, hconfig, rfl⟩

/-! ## Plugins on the way to the core -/

/-- **Plugin rewriting is exact and complete.** When every entry is valid and every forwarder starts, the config is
rewritten entry by entry, each for a forwarder started with its own kind, host and port, to the port that this start has
answered; no plugin is left, and there are as many forwarders as entries that had one. When an entry is invalid, the start
ends with `SSLOCAL_ERR_BAD_CONFIG`, without a forwarder and with nothing changed but the last error. -/
theorem rewriting_exact (json : Json) :
    (∀ plan specs, (∀ n, ∃ p, plan n = .ok p) → extractPluginSpecs json = .ok specs →
      ∃ json' fs, applyPluginForwarders plan [] json specs = (fs, some (.ok json')) ∧ ConfigRewritten json json' fs ∧
        (∀ entry ∈ entriesOf json', entry.get kPlugin = none) ∧
        fs.length = (entriesOf json).countP hasPlugin ∧ ∀ n f, fs[n]? = some f → plan n = .ok f.localPort) ∧
    ∀ entry ∈ entriesOf json, hasPlugin entry → (∀ site spec, extractOneSpec entry site ≠ .ok spec) →
      ∀ (o : Outcomes α) (prepare : Config α → Except Failure (Config α)) (g : Globals α), ∃ message,
        startWithJson o json prepare g = (some (sslocalErrBadConfig, { g with lastError := some message }), []) := by
  refine ⟨fun plan specs hplan h => ?_, fun entry hm hp hbad o prepare g => ?_⟩
  · obtain ⟨json', fs, ha, hr⟩ := extract_apply hplan h
    have hports := applyPluginForwarders_ports plan specs [] json fun _ _ hf => nomatch hf
    rw [ha] at hports
    exact ⟨json', fs, ha, hr, hr.clean, hr.count, hports⟩
  · obtain ⟨f, hf, hcode⟩ := extract_error hm hp hbad
    refine ⟨cString f.message, ?_⟩
    simp only [startWithJson, hf, Globals.fail, hcode]

/-- a plugin at the top level and one in the second of two servers -/
def twoPlugins : Json := .obj [
  (kPlugin, .str "obfs".toList), (kPluginOpts, .str "obfs=tls".toList),
  (kServer, .str "a".toList), (kServerPort, .num (.posInt 1)),
  (kServers, .arr [.obj [(kServer, .str "b".toList)],
    .obj [(kPlugin, .str "v2ray-plugin".toList), (kServer, .str "c".toList), (kServerPort, .num (.posInt 2))]])]

/-- a plugin that is not built in -/
def badPlugin : Json := .obj [(kPlugin, .str "kcptun".toList)]

theorem rewriting_exact_two :
    (∃ json' fs, applyPluginForwarders (fun n => .ok (UInt16.ofNat (9000 + n))) [] twoPlugins
        [⟨.topLevel, .simpleObfsTls [], "a".toList, 1⟩, ⟨.server 1, .v2ray .default, "c".toList, 2⟩] =
          (fs, some (.ok json')) ∧ fs.length = 2 ∧ (∀ entry ∈ entriesOf json', entry.get kPlugin = none) ∧
        ∀ n f, fs[n]? = some f → f.localPort = UInt16.ofNat (9000 + n)) ∧
    ∃ message, startWithJson ⟨none, fun _ => .ok 9000, fun _ => .error []⟩ badPlugin .ok (⟨none, none, none⟩ : Globals ℕ) =
      (some (sslocalErrBadConfig, ⟨none, none, some message⟩), []) := by
  constructor
  · obtain ⟨json', fs, ha, -, hclean, hcount, hports⟩ := (@rewriting_exact ℕ twoPlugins).1
      (fun n => .ok (UInt16.ofNat (9000 + n))) _ (fun n => ⟨_, rfl⟩) rfl
    exact ⟨json', fs, ha, hcount, hclean, fun n f hf => (Except.ok.inj (hports n f hf)).symm⟩
  · exact (rewriting_exact badPlugin).2 badPlugin (by simp [entriesOf]) rfl (fun site spec h => by cases h)
      ⟨none, fun _ => .ok 9000, fun _ => .error []⟩ .ok ⟨none, none, none⟩

end ShadowsocksOhos
