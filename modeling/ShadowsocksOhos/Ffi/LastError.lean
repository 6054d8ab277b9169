/-
What `sslocal_last_error` gives after a call that failed (`lib.rs`: `set_last_error`, `sslocal_last_error`). The messages
quote texts from outside; `CString::new` refuses a text with a NUL in it, and the empty text is recorded in its place.

`Exit` are the ways in which a call can fail, each with its message and with what the message quotes.

- `exitOf`: the exit that a call takes, from its arguments, the state and the answers of what it calls.
- `answer_exit`: a call that fails takes its exit and records its message.
- `message_quoting`: the message holds a NUL exactly when a quoted text does.
- `reason_iff`: the reason is there exactly when no quoted text holds a NUL.
- `unexplained`: a plugin name with a NUL.
-/
import ShadowsocksOhos.Ffi.Running

namespace ShadowsocksOhos

namespace LastError

variable {α : Type}

/-! ## The exits -/

inductive Exit where
  | argNull (what : Text)
  | argNotUtf8 (what e : Text)
  | badConfigJson (e : Text)
  | pluginNotString
  | unsupportedPlugin (name : Text)
  | unknownObfsMode (mode : Text)
  | missingObfsMode
  | unsupportedV2rayMode (value : Text)
  | noServer (name : Text)
  | noServerPort (name : Text)
  | alreadyRunning
  | noRuntime (e : Text)
  | forwarderFailed (host : Text) (port : UInt16) (e : Text)
  | notLoaded (e : Text)
  | noTunLocal
  | dupFailed (tunFd : Int) (e : Text)
  | invalidTunFd (tunFd : Int)
  | invalidStatAddress (text e : Text)
  | notRunning
deriving DecidableEq, Repr

namespace Exit

def code : Exit → Int
  | .argNull _ | .argNotUtf8 _ _ | .dupFailed _ _ | .invalidTunFd _ | .invalidStatAddress _ _ => sslocalErrInvalidArg
  | .badConfigJson _ | .pluginNotString | .unsupportedPlugin _ | .unknownObfsMode _ | .missingObfsMode
  | .unsupportedV2rayMode _ | .noServer _ | .noServerPort _ | .notLoaded _ | .noTunLocal => sslocalErrBadConfig
  | .alreadyRunning => sslocalErrAlreadyRunning
  | .noRuntime _ | .forwarderFailed _ _ _ => sslocalErrRuntime
  | .notRunning => sslocalErrNotRunning

def message : Exit → Text
  | .argNull what => what ++ " is null".toList
  | .argNotUtf8 what e => what ++ " is not valid UTF-8: ".toList ++ e
  | .badConfigJson e | .notLoaded e => "invalid sslocal config: ".toList ++ e
  | .pluginNotString => "\"plugin\" must be a string".toList
  | .unsupportedPlugin name => (PluginError.unsupported name).toText
  | .unknownObfsMode mode =>
    "simple-obfs: unknown obfs mode '".toList ++ mode ++ "' (expected 'http' or 'tls')".toList
  | .missingObfsMode => "simple-obfs: missing 'obfs=http|tls' option".toList
  | .unsupportedV2rayMode value =>
    "v2ray-plugin: unsupported mode '".toList ++ value ++ "' (only 'websocket' is supported)".toList
  | .noServer name => "plugin \"".toList ++ name ++ "\" requires a \"server\" address".toList
  | .noServerPort name => "plugin \"".toList ++ name ++ "\" requires a valid \"server_port\"".toList
  | .alreadyRunning => "sslocal is already running".toList
  | .noRuntime e => "failed to create tokio runtime: ".toList ++ e
  | .forwarderFailed host port e =>
    "failed to start plugin forwarder for ".toList ++ host ++ ":".toList ++ decimal port.toNat ++ ": ".toList ++ e
  | .noTunLocal => "config must contain a local with \"protocol\": \"tun\"".toList
  | .dupFailed tunFd e =>
    "failed to duplicate tun file descriptor ".toList ++ (toString tunFd).toList ++ ": ".toList ++ e
  | .invalidTunFd tunFd => "invalid tun file descriptor: ".toList ++ (toString tunFd).toList
  | .invalidStatAddress text e => "invalid stat address \"".toList ++ text ++ "\": ".toList ++ e
  | .notRunning => "sslocal is not running".toList

def failure (exit : Exit) : Failure := ⟨exit.code, exit.message⟩

/-- the texts from outside that the message quotes -/
def quotes : Exit → List Text
  | .argNull what => [what]
  | .argNotUtf8 what e => [what, e]
  | .unsupportedPlugin name | .noServer name | .noServerPort name => [name]
  | .unknownObfsMode mode => [mode]
  | .unsupportedV2rayMode value => [value]
  | .badConfigJson e | .notLoaded e | .noRuntime e | .dupFailed _ e => [e]
  | .forwarderFailed host _ e => [host, e]
  | .invalidStatAddress text e => [text, e]
  | .pluginNotString | .missingObfsMode | .alreadyRunning | .noTunLocal | .invalidTunFd _ | .notRunning => []

end Exit

/-! ### The exit that is taken -/

/-- a simple-obfs option string is refused for its mode -/
def obfsExit (opts : Text) : Option Exit :=
  match ((tokens opts).foldl simpleObfsSetting (none, [])).1 with
  | none => some .missingObfsMode
  | some mode => if mode = "http".toList ∨ mode = "tls".toList then none else some (.unknownObfsMode mode)

/-- a v2ray-plugin setting is refused when it is another mode -/
def v2rayExit (token : Text) : Option Exit :=
  let (key, value) := keyValue "true".toList token
  if key = "mode".toList ∧ ¬ (toAsciiLowercase value = "websocket".toList ∨ toAsciiLowercase value = "ws".toList) then
    some (.unsupportedV2rayMode value)
  else none

def pluginExit (name opts : Text) : Option Exit :=
  if name = "obfs-local".toList ∨ name = "simple-obfs".toList ∨ name = "obfs".toList then obfsExit opts
  else if name = "v2ray-plugin".toList then (tokens opts).findSome? v2rayExit
  else some (.unsupportedPlugin name)

def entryExit (entry : Json) : Option Exit :=
  match (entry.get kPlugin).bind Json.asStr with
  | none => some .pluginNotString
  | some name =>
    (pluginExit name (optsOf entry)).or
      (if ((entry.get kServer).bind Json.asStr).isNone then some (.noServer name)
      else if (portOf entry).isNone then some (.noServerPort name)
      else none)

/-- the first entry with a plugin that is refused -/
def extractExit (json : Json) : Option Exit := ((entriesOf json).filter hasPlugin).findSome? entryExit

/-- the first forwarder that does not start; `n` are running -/
def forwardExit (plan : ℕ → Except Text UInt16) : ℕ → List PluginSpec → Option Exit
  | _, [] => none
  | n, spec :: specs =>
    match plan n with
    | .error e => some (.forwarderFailed spec.host spec.port e)
    | .ok _ => forwardExit plan (n + 1) specs

def prepareExit (tun : TunAnswers) (config : Config α) : Prepare → Option Exit
  | .plain => none
  | .tun tunFd =>
    if (tunIndex config.locals).isNone then some .noTunLocal
    else
      match tun.dup with
      | .error e => some (.dupFailed tunFd e)
      | .ok _ => none

/-- the config in the core's hands, or not -/
def loadExit (x : Running.Answers α) (prepare : Prepare) (statAddr : Option α) (json : Json) : Option Exit :=
  match x.outcomes.load json with
  | .error e => some (.notLoaded e)
  | .ok config => prepareExit x.tun (attachStatAddress statAddr config) prepare

def runtimeExit (x : Running.Answers α) (prepare : Prepare) (g : Globals α) (json : Json) (specs : List PluginSpec) :
    Option Exit :=
  match x.outcomes.runtimeError with
  | some e => some (.noRuntime e)
  | none =>
    (forwardExit x.outcomes.forwarder 0 specs).or
      (match applyPluginForwarders x.outcomes.forwarder [] json specs with
      | (_, some (.ok json)) => loadExit x prepare g.statAddr json
      | _ => none)

def jsonExit (x : Running.Answers α) (prepare : Prepare) (g : Globals α) (json : Json) : Option Exit :=
  (extractExit json).or
    (if g.stored.isSome then some .alreadyRunning
    else
      match extractPluginSpecs json with
      | .ok specs => runtimeExit x prepare g json specs
      | .error _ => none)

def startExit (P : Parsers α) (x : Running.Answers α) (configJson : CArg) (prepare : Prepare) (g : Globals α) :
    Option Exit :=
  match configJson with
  | .null => some (.argNull "config_json".toList)
  | .notUtf8 e => some (.argNotUtf8 "config_json".toList e)
  | .text text =>
    match P.json text with
    | .error e => some (.badConfigJson e)
    | .ok json => jsonExit x prepare g json

def statExit (P : Parsers α) : CArg → Option Exit
  | .null => none
  | .notUtf8 e => some (.argNotUtf8 "stat address".toList e)
  | .text text =>
    if text.isEmpty then none
    else
      match P.addr text with
      | .error e => some (.invalidStatAddress text e)
      | .ok _ => none

/-- the exit that a call takes when it fails -/
def exitOf (P : Parsers α) (x : Running.Answers α) (g : Globals α) : EntryCall → Option Exit
  | .start configJson => startExit P x configJson .plain g
  | .startTunFd configJson tunFd =>
    if tunFd < 0 then some (.invalidTunFd tunFd) else startExit P x configJson (.tun tunFd) g
  | .stop => if g.stored.isSome then none else some .notRunning
  | .isRunning => none
  | .setStatAddress arg => statExit P arg

/-! ## What a message quotes -/

theorem nul_notMem_decimal (n : ℕ) : '\x00' ∉ decimal n := by
  intro h
  have := Nat.isDigit_of_mem_toDigits (b := 10) (by decide) (by decide) h
  revert this
  decide

theorem nul_notMem_int (i : Int) : '\x00' ∉ (toString i).toList := by
  have hnat : ∀ n : ℕ, (Nat.repr n).toList = decimal n := fun n => by
    simp [Nat.repr, decimal]
  cases i with
  | ofNat n =>
    have h : (toString (Int.ofNat n)).toList = decimal n := hnat n
    rw [h]
    exact nul_notMem_decimal n
  | negSucc n =>
    have h : (toString (Int.negSucc n)).toList = '-' :: decimal (n + 1) := by
      show ("-" ++ Nat.repr (n + 1)).toList = _
      rw [String.toList_append, hnat]
      rfl
    rw [h, List.mem_cons, not_or]
    exact ⟨by decide, nul_notMem_decimal _⟩

/-- the message `m`, put together from these quotations and from text without a NUL -/
structure Quoting (m : Text) (quotes : List Text) : Prop where
  ne : m ≠ []
  nul : '\x00' ∈ m ↔ ∃ quoted ∈ quotes, '\x00' ∈ quoted

theorem nul_notMem_literal {l : List Char} (h : (l.all fun c => c ≠ '\x00') = true) : '\x00' ∉ (String.ofList l).toList := by
  rw [String.toList_ofList]
  intro hc
  simpa using List.all_eq_true.1 h _ hc

theorem quoting_literal {l : List Char} (hne : l.isEmpty = false) (h : (l.all fun c => c ≠ '\x00') = true) :
    Quoting (String.ofList l).toList [] := by
  refine ⟨?_, iff_of_false (nul_notMem_literal h) (by simp)⟩
  rw [String.toList_ofList]
  simpa using hne

theorem Quoting.quote {m : Text} {quotes : List Text} (h : Quoting m quotes) (quoted : Text) :
    Quoting (m ++ quoted) (quotes ++ [quoted]) := by
  refine ⟨List.append_ne_nil_of_left_ne_nil h.ne _, ?_⟩
  rw [List.mem_append, h.nul]
  simp [or_and_right, exists_or]

theorem Quoting.say {m t : Text} {quotes : List Text} (h : Quoting m quotes) (ht : '\x00' ∉ t) : Quoting (m ++ t) quotes := by
  refine ⟨List.append_ne_nil_of_left_ne_nil h.ne _, ?_⟩
  rw [List.mem_append, h.nul]
  exact or_iff_left ht

theorem Quoting.after {m : Text} {quotes : List Text} (h : Quoting m quotes) (quoted : Text) :
    Quoting (quoted ++ m) (quoted :: quotes) := by
  refine ⟨List.append_ne_nil_of_right_ne_nil _ h.ne, ?_⟩
  rw [List.mem_append, h.nul]
  simp

set_option maxRecDepth 2000 in
/-- a message is not empty, and holds a NUL exactly when it quotes one -/
theorem message_quoting (exit : Exit) : Quoting exit.message exit.quotes := by
  cases exit with
  | argNull what => exact (quoting_literal (by decide) (by decide)).after what
  | argNotUtf8 what e => exact ((quoting_literal (by decide) (by decide)).after what).quote e
  | badConfigJson e => exact (quoting_literal (by decide) (by decide)).quote e
  | pluginNotString => exact quoting_literal (by decide) (by decide)
  | unsupportedPlugin name =>
    exact ((quoting_literal (by decide) (by decide)).quote name).say (nul_notMem_literal (by decide))
  | unknownObfsMode mode =>
    exact ((quoting_literal (by decide) (by decide)).quote mode).say (nul_notMem_literal (by decide))
  | missingObfsMode => exact quoting_literal (by decide) (by decide)
  | unsupportedV2rayMode value =>
    exact ((quoting_literal (by decide) (by decide)).quote value).say (nul_notMem_literal (by decide))
  | noServer name => exact ((quoting_literal (by decide) (by decide)).quote name).say (nul_notMem_literal (by decide))
  | noServerPort name => exact ((quoting_literal (by decide) (by decide)).quote name).say (nul_notMem_literal (by decide))
  | alreadyRunning => exact quoting_literal (by decide) (by decide)
  | noRuntime e => exact (quoting_literal (by decide) (by decide)).quote e
  | forwarderFailed host port e =>
    exact (((((quoting_literal (by decide) (by decide)).quote host).say (nul_notMem_literal (by decide))).say
      (nul_notMem_decimal _)).say (nul_notMem_literal (by decide))).quote e
  | notLoaded e => exact (quoting_literal (by decide) (by decide)).quote e
  | noTunLocal => exact quoting_literal (by decide) (by decide)
  | dupFailed tunFd e =>
    exact (((quoting_literal (by decide) (by decide)).say (nul_notMem_int _)).say (nul_notMem_literal (by decide))).quote e
  | invalidTunFd tunFd => exact (quoting_literal (by decide) (by decide)).say (nul_notMem_int _)
  | invalidStatAddress text e =>
    exact (((quoting_literal (by decide) (by decide)).quote text).say (nul_notMem_literal (by decide))).quote e
  | notRunning => exact quoting_literal (by decide) (by decide)

/-! ## Refused plugins -/

/-- the error of a result -/
def errorOf {ε β : Type} : Except ε β → Option ε
  | .error e => some e
  | .ok _ => none

theorem errorOf_bind {ε β γ : Type} (x : Except ε β) (f : β → Except ε γ) :
    errorOf (x >>= f) = (errorOf x).or (x.toOption.bind fun b => errorOf (f b)) := by
  cases x <;> rfl

def pluginFailure (e : PluginError) : Failure := badConfig e.toText

theorem obfs_exit (opts : Text) :
    (errorOf (parseSimpleObfsOpts opts)).map pluginFailure = (obfsExit opts).map Exit.failure := by
  unfold parseSimpleObfsOpts obfsExit
  rcases (tokens opts).foldl simpleObfsSetting (none, []) with ⟨_ | mode, host⟩
  · rfl
  · dsimp only
    by_cases hhttp : mode = "http".toList
    · rw [if_pos hhttp, if_pos (Or.inl hhttp)]
      rfl
    by_cases htls : mode = "tls".toList
    · rw [if_neg hhttp, if_pos htls, if_pos (Or.inr htls)]
      rfl
    · rw [if_neg hhttp, if_neg htls, if_neg (not_or.2 ⟨hhttp, htls⟩)]
      rfl

theorem v2ray_exit (cfg : V2rayPluginConfig) (token : Text) :
    (errorOf (v2raySetting cfg token)).map pluginFailure = (v2rayExit token).map Exit.failure := by
  unfold v2raySetting v2rayExit
  rcases keyValue "true".toList token with ⟨key, value⟩
  dsimp only
  by_cases hmode : key = "mode".toList
  · by_cases hvalue : toAsciiLowercase value = "websocket".toList ∨ toAsciiLowercase value = "ws".toList
    · rw [if_pos hmode, if_pos hvalue, if_neg fun h => h.2 hvalue]
      rfl
    · rw [if_pos hmode, if_neg hvalue, if_pos ⟨hmode, hvalue⟩]
      rfl
  · have hnone : (if key = "mode".toList ∧ ¬ (toAsciiLowercase value = "websocket".toList ∨
        toAsciiLowercase value = "ws".toList) then some (Exit.unsupportedV2rayMode value) else none) = none :=
      if_neg fun h => hmode h.1
    rw [if_neg hmode, hnone]
    split_ifs
    all_goals first | rfl | split <;> rfl

/-- the settings before the refused one have no influence on the error -/
theorem parseOpts_exit (cfg : V2rayPluginConfig) (ts : List Text) :
    (errorOf (ts.foldlM v2raySetting cfg)).map pluginFailure = (ts.findSome? v2rayExit).map Exit.failure := by
  induction ts generalizing cfg with
  | nil => rfl
  | cons t ts ih =>
    have ht := v2ray_exit cfg t
    rw [List.foldlM_cons, errorOf_bind, List.findSome?_cons]
    cases hset : v2raySetting cfg t with
    | error e =>
      rw [hset] at ht
      cases hexit : v2rayExit t with
      | none => rw [hexit] at ht; cases ht
      | some exit => rw [hexit] at ht; exact ht
    | ok cfg' =>
      rw [hset] at ht
      cases hexit : v2rayExit t with
      | none => exact ih cfg'
      | some exit => rw [hexit] at ht; cases ht

theorem plugin_exit (name opts : Text) :
    (errorOf (parsePlugin name opts)).map pluginFailure = (pluginExit name opts).map Exit.failure := by
  have hmem : name ∈ ["obfs-local".toList, "simple-obfs".toList, "obfs".toList] ↔
      name = "obfs-local".toList ∨ name = "simple-obfs".toList ∨ name = "obfs".toList := by
    simp only [List.mem_cons, List.not_mem_nil, or_false]
  unfold parsePlugin pluginExit
  simp only [hmem]
  split_ifs with hobfs hv2ray
  · exact obfs_exit opts
  · rw [← parseOpts_exit .default, parseOpts]
    cases (tokens opts).foldlM v2raySetting .default <;> rfl
  · rfl

/-! ## Refused entries -/

theorem entry_exit (entry : Json) (site : PluginSite) :
    errorOf (extractOneSpec entry site) = (entryExit entry).map Exit.failure := by
  unfold extractOneSpec entryExit
  cases (entry.get kPlugin).bind Json.asStr with
  | none => rfl
  | some name =>
    have hplugin := plugin_exit name (optsOf entry)
    cases hparse : parsePlugin name (optsOf entry) with
    | error e =>
      rw [hparse] at hplugin
      cases hexit : pluginExit name (optsOf entry) with
      | none => rw [hexit] at hplugin; cases hplugin
      | some exit =>
        rw [hexit] at hplugin
        simp only [hparse, hexit, Option.some_or]
        exact hplugin
    | ok kind =>
      rw [hparse] at hplugin
      cases hexit : pluginExit name (optsOf entry) with
      | some exit => rw [hexit] at hplugin; cases hplugin
      | none =>
        simp only [hparse, hexit, Option.none_or]
        cases (entry.get kServer).bind Json.asStr with
        | none => rfl
        | some host => cases portOf entry <;> rfl

theorem servers_exit (entries : List Json) (i : ℕ) :
    errorOf (extractServers i entries) = ((entries.filter hasPlugin).findSome? entryExit).map Exit.failure := by
  induction entries generalizing i with
  | nil => rfl
  | cons entry entries ih =>
    unfold extractServers
    by_cases hp : hasPlugin entry = true
    · have hentry := entry_exit entry (.server i)
      rw [if_pos hp, List.filter_cons_of_pos hp, List.findSome?_cons, errorOf_bind, hentry]
      cases hspec : extractOneSpec entry (.server i) with
      | error f =>
        rw [hspec] at hentry
        cases hexit : entryExit entry with
        | none => rw [hexit] at hentry; cases hentry
        | some exit => rfl
      | ok spec =>
        rw [hspec] at hentry
        cases hexit : entryExit entry with
        | some exit => rw [hexit] at hentry; cases hentry
        | none =>
          rw [← ih (i + 1)]
          show errorOf (extractServers (i + 1) entries >>= fun specs => .ok (spec :: specs)) = _
          cases extractServers (i + 1) entries <;> rfl
    · rw [if_neg hp, List.filter_cons_of_neg hp]
      exact ih (i + 1)

theorem top_exit (json : Json) :
    errorOf (extractTop json) = (([json].filter hasPlugin).findSome? entryExit).map Exit.failure := by
  unfold extractTop
  by_cases hp : hasPlugin json = true
  · rw [if_pos hp, List.filter_cons_of_pos hp, List.filter_nil, List.findSome?_singleton, ← entry_exit json .topLevel]
    cases extractOneSpec json .topLevel <;> rfl
  · rw [if_neg hp, List.filter_cons_of_neg hp]
    rfl

theorem extract_exit (json : Json) : errorOf (extractPluginSpecs json) = (extractExit json).map Exit.failure := by
  have htop := top_exit json
  have hservers := servers_exit ((serversOf json).getD []) 0
  have happend : extractExit json = (([json].filter hasPlugin).findSome? entryExit).or
      ((((serversOf json).getD []).filter hasPlugin).findSome? entryExit) := by
    rw [extractExit, entriesOf, ← List.singleton_append, List.filter_append, List.findSome?_append]
  rw [happend, Option.map_or, ← htop, ← hservers]
  unfold extractPluginSpecs
  cases extractTop json with
  | error f => rfl
  | ok top => cases extractServers 0 ((serversOf json).getD []) <;> rfl

/-! ## Refused starts -/

/-- what starting the forwarders ends in -/
theorem forward_exit {plan : ℕ → Except Text UInt16} {started fs : List Forwarder} {json : Json} {specs : List PluginSpec}
    {r : Except Failure Json} (h : applyPluginForwarders plan started json specs = (fs, some r)) :
    errorOf r = (forwardExit plan started.length specs).map Exit.failure := by
  induction specs generalizing started json with
  | nil =>
    cases h
    rfl
  | cons spec specs ih =>
    unfold applyPluginForwarders at h
    unfold forwardExit
    cases hplan : plan started.length with
    | error e =>
      rw [hplan] at h
      cases h
      rfl
    | ok localPort =>
      rw [hplan] at h
      dsimp only at h ⊢
      split at h
      · cases h
      · have hrest := ih h
        rwa [List.length_append, List.length_singleton] at hrest

theorem prepare_exit (tun : TunAnswers) (config : Config α) (prepare : Prepare) :
    errorOf (prepare.apply tun config) = (prepareExit tun config prepare).map Exit.failure := by
  cases prepare with
  | plain => rfl
  | tun tunFd =>
    show errorOf (attachTun tun tunFd config) = _
    unfold attachTun prepareExit
    cases tunIndex config.locals with
    | none => rfl
    | some i => cases tun.dup <;> rfl

variable {P : Parsers α} {x : Running.Answers α} {g g' : Globals α} {code : Int}

/-- the call took this exit -/
def Took (exit : Option Exit) (g : Globals α) (r : Int × Globals α) : Prop :=
  ∃ ex, exit = some ex ∧ r = g.fail ex.failure

theorem took_of_error {exit : Option Exit} {f : Failure} (h : some f = exit.map Exit.failure) : Took exit g (g.fail f) := by
  obtain ⟨ex, hex, rfl⟩ := Option.map_eq_some_iff.1 h.symm
  exact ⟨ex, hex, rfl⟩

theorem none_of_ok {exit : Option Exit} (h : none = exit.map Exit.failure) : exit = none := Option.map_eq_none_iff.1 h.symm

/-- a start that fails after its arguments were read -/
theorem json_exit {json : Json} {prepare : Prepare} (h : (startWithJson x.outcomes json (prepare.apply x.tun) g).1 =
    some (code, g')) (hcode : code ≠ sslocalOk) : Took (jsonExit x prepare g json) g (code, g') := by
  have hextract := extract_exit json
  unfold startWithJson at h
  unfold jsonExit
  cases hspecs : extractPluginSpecs json with
  | error f =>
    rw [hspecs] at h hextract
    cases h
    obtain ⟨ex, hex, hf⟩ := took_of_error hextract (g := g)
    exact ⟨ex, by rw [hex, Option.some_or], hf⟩
  | ok specs =>
    rw [hspecs] at h hextract
    rw [none_of_ok hextract, Option.none_or]
    dsimp only at h ⊢
    split_ifs at h ⊢ with hstored
    · cases h
      exact ⟨_, rfl, rfl⟩
    unfold runtimeExit
    cases hruntime : x.outcomes.runtimeError with
    | some e =>
      rw [hruntime] at h
      cases h
      exact ⟨_, rfl, rfl⟩
    | none =>
      rw [hruntime] at h
      dsimp only at h ⊢
      rcases happly : applyPluginForwarders x.outcomes.forwarder [] json specs with ⟨fs, _ | f | json'⟩ <;>
        rw [happly] at h
      · cases h
      · have hforward := forward_exit happly
        cases h
        obtain ⟨ex, hex, hf⟩ := took_of_error hforward (g := g)
        rw [List.length_nil] at hex
        exact ⟨ex, by rw [hex, Option.some_or], hf⟩
      · have hforward := none_of_ok (forward_exit happly)
        rw [List.length_nil] at hforward
        rw [hforward, Option.none_or]
        dsimp only at h ⊢
        unfold loadExit
        cases hload : x.outcomes.load json' with
        | error e =>
          rw [hload] at h
          cases h
          exact ⟨_, rfl, rfl⟩
        | ok config =>
          rw [hload] at h
          dsimp only at h ⊢
          have hprepare := prepare_exit x.tun (attachStatAddress g.statAddr config) prepare
          cases hresult : prepare.apply x.tun (attachStatAddress g.statAddr config) with
          | error f =>
            rw [hresult] at h hprepare
            cases h
            exact took_of_error hprepare
          | ok config' =>
            rw [hresult] at h
            cases h
            exact absurd rfl hcode

theorem start_exit {configJson : CArg} {prepare : Prepare} (h : Running.startCall P x configJson prepare g = some (code, g'))
    (hcode : code ≠ sslocalOk) : Took (startExit P x configJson prepare g) g (code, g') := by
  unfold Running.startCall parseConfigJson at h
  cases configJson with
  | null =>
    cases h
    exact ⟨_, rfl, rfl⟩
  | notUtf8 e =>
    cases h
    exact ⟨_, rfl, rfl⟩
  | text text =>
    simp only [cstrArg, bind, Except.bind] at h
    cases hjson : P.json text with
    | error e =>
      rw [hjson] at h
      cases h
      exact ⟨.badConfigJson e, by simp only [startExit, hjson], rfl⟩
    | ok json =>
      rw [hjson] at h
      have hexit : startExit P x (.text text) prepare g = jsonExit x prepare g json := by simp only [startExit, hjson]
      rw [hexit]
      exact json_exit h hcode

theorem stat_exit {arg : CArg} (h : Running.answer P x g (.setStatAddress arg) = some (code, g'))
    (hcode : code ≠ sslocalOk) : Took (statExit P arg) g (code, g') := by
  simp only [Running.answer] at h
  cases arg with
  | null =>
    cases h
    exact absurd rfl hcode
  | notUtf8 e =>
    cases h
    exact ⟨_, rfl, rfl⟩
  | text text =>
    simp only [statArg, cstrArg, bind, Except.bind] at h
    by_cases hempty : text.isEmpty = true
    · rw [if_pos hempty] at h
      cases h
      exact absurd rfl hcode
    · rw [if_neg hempty] at h
      cases haddr : P.addr text with
      | error e =>
        rw [haddr] at h
        cases h
        exact ⟨.invalidStatAddress text e, by simp only [statExit, if_neg hempty, haddr], rfl⟩
      | ok addr =>
        rw [haddr] at h
        cases h
        exact absurd rfl hcode

/-- **Exits.** A call that fails takes its exit: it returns the code, and records the message in place of the earlier
one. -/
theorem answer_exit {c : EntryCall} (hc : c ≠ .isRunning) (h : Running.answer P x g c = some (code, g'))
    (hcode : code ≠ sslocalOk) : Took (exitOf P x g c) g (code, g') := by
  cases c with
  | start configJson => exact start_exit h hcode
  | startTunFd configJson tunFd =>
    simp only [Running.answer] at h
    by_cases hneg : tunFd < 0
    · rw [if_pos hneg] at h
      cases h
      exact ⟨.invalidTunFd tunFd, if_pos hneg, rfl⟩
    · rw [if_neg hneg] at h
      have hexit : exitOf P x g (.startTunFd configJson tunFd) = startExit P x configJson (.tun tunFd) g := if_neg hneg
      rw [hexit]
      exact start_exit h hcode
  | stop =>
    simp only [Running.answer] at h
    cases hstored : g.stored with
    | none =>
      rw [hstored] at h
      cases h
      exact ⟨.notRunning, by simp only [exitOf, hstored, Option.isSome_none, Bool.false_eq_true, if_false], rfl⟩
    | some runtime =>
      rw [hstored] at h
      cases h
      exact absurd rfl hcode
  | isRunning => exact absurd rfl hc
  | setStatAddress arg => exact stat_exit h hcode

/-! ## The reason -/

/-- `sslocal_last_error`: the text that its pointer leads to, `none` for a null pointer; it takes the place of
`LAST_ERROR_HANDED_OUT` -/
def sslocalLastError (g : Globals α) (_handedOut : Option Text) : Option Text × Option Text := (g.lastError, g.lastError)

/-- the next `sslocal_last_error` after a call that returned `code` gives a text that is not empty: the message of the
exit that the call took, whatever was recorded before -/
structure LeavesReason (P : Parsers α) (x : Running.Answers α) (g : Globals α) (c : EntryCall) (code : Int)
    (g' : Globals α) : Prop where
  text : ∀ handedOut, ∃ t, (sslocalLastError g' handedOut).1 = some t ∧ t ≠ []
  own : ∃ exit, exitOf P x g c = some exit ∧ exit.code = code ∧
    ∀ handedOut, (sslocalLastError g' handedOut).1 = some exit.message

/-- no text that the message quotes holds a NUL -/
def Clean (exit : Option Exit) : Prop := ∀ ex, exit = some ex → ∀ quoted ∈ ex.quotes, '\x00' ∉ quoted

/-- **When an error leaves a reason.** A call that returns an error leaves its message for the next `sslocal_last_error`
if and only if no text that this message quotes holds a NUL. -/
theorem reason_iff (P : Parsers α) (x : Running.Answers α) (g g' : Globals α) (c : EntryCall) (code : Int)
    (hc : c ≠ .isRunning) (h : Running.answer P x g c = some (code, g')) (hcode : code ≠ sslocalOk) :
    LeavesReason P x g c code g' ↔ Clean (exitOf P x g c) := by
  obtain ⟨ex, hex, hfail⟩ := answer_exit hc h hcode
  obtain ⟨rfl, rfl⟩ := Prod.mk.inj hfail
  obtain ⟨hne, hnul⟩ := message_quoting ex
  have hlast : ∀ handedOut, (sslocalLastError (g.fail ex.failure).2 handedOut).1 = some (cString ex.message) := fun _ => rfl
  have hclean : Clean (exitOf P x g c) ↔ '\x00' ∉ ex.message := by
    rw [hex, hnul]
    constructor
    · rintro h ⟨quoted, hq, hin⟩
      exact h ex rfl quoted hq hin
    · intro h ex' hex' quoted hq hin
      obtain rfl := Option.some.inj hex'
      exact h ⟨quoted, hq, hin⟩
  rw [hclean]
  constructor
  · intro hreason hin
    -- the text recorded is the empty one
    obtain ⟨t, ht, htne⟩ := hreason.text none
    have hempty : cString ex.message = [] := if_pos hin
    have hrecorded : some (cString ex.message) = some t := ht
    rw [hempty] at hrecorded
    exact htne (Option.some.inj hrecorded).symm
  · intro hnot
    have hstring : cString ex.message = ex.message := if_neg hnot
    rw [hstring] at hlast
    exact ⟨fun handedOut => ⟨_, hlast handedOut, hne⟩, ex, hex, rfl, hlast⟩

theorem reason_iff_stopped :
    LeavesReason Running.emptyConfig Running.goesWell ⟨none, none, some "an earlier error".toList⟩ .stop
      sslocalErrNotRunning ⟨none, none, some "sslocal is not running".toList⟩ :=
  (reason_iff Running.emptyConfig Running.goesWell ⟨none, none, some "an earlier error".toList⟩
    ⟨none, none, some "sslocal is not running".toList⟩ .stop sslocalErrNotRunning (by decide) rfl (by decide)).2
      fun _ hexit _ hq => by cases hexit; cases hq

/-- the config `{"plugin":"a\u0000"}`, whatever the text -/
def nulPlugin : Parsers ℕ := ⟨fun _ => .ok (.obj [(kPlugin, .str ['a', '\x00'])]), fun _ => .ok 7⟩

/-- **Unexplained.** The name of a plugin that is not built in ends in a NUL, and the reason is an empty text. -/
theorem unexplained : ¬ ∀ (P : Parsers ℕ) (x : Running.Answers ℕ) (g g' : Globals ℕ) (c : EntryCall) (code : Int),
    c ≠ .isRunning → Running.answer P x g c = some (code, g') → code ≠ sslocalOk → LeavesReason P x g c code g' := by
  intro h
  have hreason := h nulPlugin Running.goesWell ⟨none, none, none⟩ ⟨none, none, some []⟩
    (.start (.text "\x7b\"plugin\":\"a\\u0000\"\x7d".toList)) sslocalErrBadConfig (by decide) rfl (by decide)
  obtain ⟨t, ht, hne⟩ := hreason.text none
  exact hne (Option.some.inj ht).symm

end LastError

end ShadowsocksOhos
